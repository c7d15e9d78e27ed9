import Criterion.Condition
import Criterion.Proofs.Except
import Mathlib.Data.Finset.Insert
import Mathlib.Data.List.AList
import Mathlib.Data.List.Sort
import Mathlib.Data.String.Basic

namespace Criterion

/-- Values and marks in two collections that are written in place. -/
structure Ledger where
  store : AList fun _ : String => Value
  marks : Finset String

namespace Ledger

def empty : Ledger := ⟨∅, ∅⟩

/-- Writes a value under a name, and a mark if it is to stay. -/
def write (w : String × Binding) : EStateM Failure Ledger Unit := do
  let ledger ← get
  if w.1 ∈ ledger.marks then throw (.constant w.1)
  else
    set { ledger with store := ledger.store.insert w.1 w.2.value }
    if w.2.isConstant then
      modify fun ledger => { ledger with marks := insert w.1 ledger.marks }

def after (ledger : Ledger) (w : String × Binding) : Ledger :=
  match (write w).run ledger with
  | .ok _ next => next
  | .error _ left => left

def run (ledger : Ledger) (ws : List (String × Binding)) : Ledger := ws.foldl after ledger

def names (ledger : Ledger) : List String := ledger.store.keys.mergeSort (· ≤ ·)

variable {ledger : Ledger} {w : String × Binding}

theorem write_of_mem (h : w.1 ∈ ledger.marks) :
    (write w).run ledger = .error (.constant w.1) ledger := by
  simp only [write, EStateM.run_bind, EStateM.run_get, if_pos h, EStateM.run_throw]

theorem write_of_notMem (h : w.1 ∉ ledger.marks) :
    (write w).run ledger = .ok () ⟨ledger.store.insert w.1 w.2.value,
      if w.2.isConstant then insert w.1 ledger.marks else ledger.marks⟩ := by
  simp only [write, EStateM.run_bind, EStateM.run_get, if_neg h, EStateM.run_set]
  split
  · rfl
  · rfl

theorem after_of_mem (h : w.1 ∈ ledger.marks) : ledger.after w = ledger := by
  rw [after, write_of_mem h]

theorem after_of_notMem (h : w.1 ∉ ledger.marks) :
    ledger.after w = ⟨ledger.store.insert w.1 w.2.value,
      if w.2.isConstant then insert w.1 ledger.marks else ledger.marks⟩ := by
  rw [after, write_of_notMem h]

theorem lookup_insert (store : AList fun _ : String => Value) (name other : String) (v : Value) :
    (store.insert name v).lookup other = if other = name then some v else store.lookup other := by
  split
  · next same => rw [same, AList.lookup_insert]
  · next ne => exact AList.lookup_insert_ne ne

end Ledger

namespace Environment

def write (env : Environment) (w : String × Binding) : Except Failure Environment :=
  env.assign w.2.isConstant w.1 w.2.value

def after (env : Environment) (w : String × Binding) : Environment :=
  match env.write w with
  | .ok next => next
  | .error _ => env

def run (env : Environment) (ws : List (String × Binding)) : Environment := ws.foldl after env

/-- The writes that are accepted, one after the other. -/
def accepted (env : Environment) : List (String × Binding) → List (String × Binding)
  | [] => []
  | w :: ws =>
    match env.write w with
    | .ok next => w :: next.accepted ws
    | .error _ => env.accepted ws

variable {env : Environment} {w : String × Binding} {name : String}

theorem write_of_constant (h : env.isConstant w.1) : env.write w = .error (.constant w.1) := by
  rw [write, assign, bind?, if_pos h]

theorem write_of_free (h : ¬ env.isConstant w.1) :
    env.write w = .ok ⟨env.bindings.insert w.1 w.2⟩ := by
  rw [write, assign, bind?, if_neg h]

theorem after_of_constant (h : env.isConstant w.1) : env.after w = env := by
  rw [after, write_of_constant h]

theorem after_of_free (h : ¬ env.isConstant w.1) :
    env.after w = ⟨env.bindings.insert w.1 w.2⟩ := by
  rw [after, write_of_free h]

theorem accepted_of_constant (h : env.isConstant w.1) (ws : List (String × Binding)) :
    env.accepted (w :: ws) = (env.after w).accepted ws := by
  rw [accepted, after, write_of_constant h]

theorem accepted_of_free (h : ¬ env.isConstant w.1) (ws : List (String × Binding)) :
    env.accepted (w :: ws) = w :: (env.after w).accepted ws := by
  rw [accepted, after, write_of_free h]

theorem bindings_after (h : ¬ env.isConstant w.1) (name : String) :
    (env.after w).bindings.get? name =
      if name = w.1 then some w.2 else env.bindings.get? name := by
  rw [after_of_free h, Table.get?_insert]

/-- A name is bound as the last accepted write to it says, or as it was before all of them. -/
theorem bindings_run (env : Environment) (ws : List (String × Binding)) (name : String) :
    (env.run ws).bindings.get? name =
      ((env.accepted ws).reverse.lookup name).or (env.bindings.get? name) := by
  induction ws generalizing env with
  | nil => rfl
  | cons w ws ih =>
    rw [run, List.foldl_cons, ← run, ih (env.after w)]
    by_cases h : env.isConstant w.1
    · rw [accepted_of_constant h, after_of_constant h]
    · rw [accepted_of_free h, List.reverse_cons, List.lookup_append, Option.or_assoc,
        bindings_after h, Table.lookup_cons]
      split
      · rfl
      · rfl

theorem bindings_after_of_constant (h : env.isConstant name) (w : String × Binding) :
    (env.after w).bindings.get? name = env.bindings.get? name := by
  by_cases hw : env.isConstant w.1
  · rw [after_of_constant hw]
  · have ne : name ≠ w.1 := by
      rintro rfl
      exact hw h
    rw [bindings_after hw, if_neg ne]

/-- A constant stays as it is bound, whatever is written. -/
theorem bindings_run_of_constant (h : env.isConstant name) (ws : List (String × Binding)) :
    (env.run ws).bindings.get? name = env.bindings.get? name := by
  induction ws generalizing env with
  | nil => rfl
  | cons w ws ih =>
    have kept := bindings_after_of_constant h w
    have constant : (env.after w).isConstant name := by
      rw [isConstant, kept]
      exact h
    rw [run, List.foldl_cons, ← run, ih constant, kept]

theorem isSome_of_constant (h : env.isConstant name) : (env.get? name).isSome := by
  obtain ⟨bound, -⟩ := (Option.any_eq_true_iff_get _ _).1 h
  rw [get?, Option.isSome_map]
  exact bound

theorem mem_names {env : Environment} {name : String} :
    name ∈ env.names ↔ (env.get? name).isSome := by
  rw [names, Table.mem_names, get?, Option.isSome_map]

theorem names_ascending (env : Environment) : env.names.Pairwise (· < ·) :=
  env.bindings.names_ascending

end Environment

namespace Ledger

/-- A ledger holds the values of an environment, with marks at its constants. -/
structure Mirrors (ledger : Ledger) (env : Environment) : Prop where
  lookup : ∀ name, ledger.store.lookup name = env.get? name
  mem_marks : ∀ name, name ∈ ledger.marks ↔ env.isConstant name

variable {ledger : Ledger} {env : Environment}

/-- A write does the same to both. -/
theorem Mirrors.after (h : ledger.Mirrors env) (w : String × Binding) :
    (ledger.after w).Mirrors (env.after w) := by
  by_cases hw : env.isConstant w.1
  · rw [after_of_mem ((h.mem_marks w.1).2 hw), Environment.after_of_constant hw]
    exact h
  · have free : ¬ w.1 ∈ ledger.marks := fun mem => hw ((h.mem_marks w.1).1 mem)
    rw [after_of_notMem free]
    constructor
    · intro name
      rw [lookup_insert, Environment.get?, Environment.bindings_after hw, h.lookup]
      split
      · rfl
      · rfl
    · intro name
      rw [Environment.isConstant, Environment.bindings_after hw]
      by_cases same : name = w.1
      · rw [if_pos same, same, Option.any_some]
        split
        · next marked => simp [marked]
        · next unmarked => simp [unmarked, free]
      · rw [if_neg same, ← Environment.isConstant, ← h.mem_marks]
        split
        · simp [same]
        · rfl

theorem Mirrors.run (h : ledger.Mirrors env) (ws : List (String × Binding)) :
    (ledger.run ws).Mirrors (env.run ws) := by
  induction ws generalizing ledger env with
  | nil => exact h
  | cons w ws ih => exact ih (h.after w)

theorem Mirrors.names (h : ledger.Mirrors env) : env.names = ledger.names := by
  have sorted : ledger.names.SortedLT :=
    List.sortedLT_iff_nodup_and_sortedLE.2
      ⟨(List.mergeSort_perm ..).nodup_iff.2 ledger.store.keys_nodup, List.sortedLE_mergeSort⟩
  refine (Environment.names_ascending env).sortedLT.eq_of_mem_iff sorted fun name => ?_
  rw [Environment.mem_names, ← h.lookup, AList.lookup_isSome, Ledger.names, List.mem_mergeSort]
  rfl

theorem mirrors_empty : empty.Mirrors .empty where
  lookup _ := rfl
  mem_marks name := by simp [empty, Environment.empty, Environment.isConstant]

end Ledger

namespace Environment

def toWrite (isConstant : Bool) (entry : String × Plain) :
    Except Plain.Fault (String × Binding) :=
  entry.2.toValue.map fun v => (entry.1, ⟨v, isConstant⟩)

/-- The writes that some data comes to: first the names that may change, then the constants. -/
def toWrites (values constants : List (String × Plain)) :
    Except Plain.Fault (List (String × Binding)) := do
  return (← values.mapM (toWrite false)) ++ (← constants.mapM (toWrite true))

theorem toWrite_eq_ok {isConstant : Bool} {entry : String × Plain} {w : String × Binding} :
    toWrite isConstant entry = .ok w ↔
      ∃ v, entry.2.toValue = .ok v ∧ w = (entry.1, ⟨v, isConstant⟩) := by
  rw [toWrite]
  cases entry.2.toValue with
  | error fault => simp [Except.map]
  | ok v => simp [Except.map, eq_comm]

variable {isConstant : Bool} {env : Environment} {entries values constants : List (String × Plain)}

theorem mapM_toWrite_eq_ok_iff (isConstant : Bool) (entries : List (String × Plain)) :
    (∃ ws, entries.mapM (toWrite isConstant) = .ok ws) ↔
      ∀ entry ∈ entries, ∃ v, entry.2.toValue = .ok v := by
  induction entries with
  | nil => exact ⟨fun _ => List.forall_mem_nil _, fun _ => ⟨[], rfl⟩⟩
  | cons entry entries ih =>
    rw [List.forall_mem_cons, ← ih, List.mapM_cons]
    constructor
    · rintro ⟨ws, h⟩
      obtain ⟨w, hw, h⟩ := bind_eq_ok.1 h
      obtain ⟨rest, hrest, -⟩ := bind_eq_ok.1 h
      obtain ⟨v, hv, -⟩ := toWrite_eq_ok.1 hw
      exact ⟨⟨v, hv⟩, rest, hrest⟩
    · rintro ⟨⟨v, hv⟩, rest, hrest⟩
      rw [toWrite_eq_ok.2 ⟨v, hv, rfl⟩, hrest]
      exact ⟨_, rfl⟩

theorem toWrites_eq_ok_iff :
    (∃ ws, toWrites values constants = .ok ws) ↔
      ∀ entry ∈ values ++ constants, ∃ v, entry.2.toValue = .ok v := by
  rw [List.forall_mem_append, ← mapM_toWrite_eq_ok_iff false values,
    ← mapM_toWrite_eq_ok_iff true constants, toWrites]
  constructor
  · rintro ⟨ws, h⟩
    obtain ⟨first, hfirst, h⟩ := bind_eq_ok.1 h
    obtain ⟨second, hsecond, -⟩ := bind_eq_ok.1 h
    exact ⟨⟨first, hfirst⟩, second, hsecond⟩
  · rintro ⟨⟨first, hfirst⟩, second, hsecond⟩
    rw [hfirst, hsecond]
    exact ⟨_, rfl⟩

theorem isConstant_of_mem_mapM {ws : List (String × Binding)} {w : String × Binding}
    (h : entries.mapM (toWrite isConstant) = .ok ws) (mem : w ∈ ws) :
    w.2.isConstant = isConstant := by
  induction entries generalizing ws with
  | nil =>
    cases h
    cases mem
  | cons entry entries ih =>
    rw [List.mapM_cons] at h
    obtain ⟨first, hfirst, h⟩ := bind_eq_ok.1 h
    obtain ⟨rest, hrest, h⟩ := bind_eq_ok.1 h
    cases h
    rcases List.mem_cons.1 mem with rfl | mem
    · obtain ⟨v, -, rfl⟩ := toWrite_eq_ok.1 hfirst
      rfl
    · exact ih hrest mem

theorem assignPlain_eq (env : Environment) (entry : String × Plain) :
    assignPlain isConstant env entry =
      ((toWrite isConstant entry).mapError .data >>= env.write) := by
  rw [assignPlain, toWrite]
  cases entry.2.toValue with
  | error fault => rfl
  | ok v => rfl

/-- Names that are no constants are bound one after the other, where none that is to be a constant
comes twice. -/
theorem foldlM_assignPlain (free : ∀ entry ∈ entries, ¬ env.isConstant entry.1)
    (distinct : isConstant → (entries.map Prod.fst).Nodup) :
    entries.foldlM (assignPlain isConstant) env =
      ((entries.mapM (toWrite isConstant)).map env.run).mapError .data := by
  induction entries generalizing env with
  | nil => rfl
  | cons entry entries ih =>
    rw [List.foldlM_cons, List.mapM_cons, assignPlain_eq]
    cases hw : toWrite isConstant entry with
    | error fault => rfl
    | ok w =>
      obtain ⟨v, -, rfl⟩ := toWrite_eq_ok.1 hw
      obtain ⟨first, rest⟩ := List.forall_mem_cons.1 free
      have still : ∀ other ∈ entries,
          ¬ (env.after (entry.1, ⟨v, isConstant⟩)).isConstant other.1 := by
        intro other mem
        rw [Environment.isConstant, bindings_after first]
        split
        · next same =>
          -- a name that is a constant now would have come twice
          intro constant
          have once := (List.nodup_cons.1 (distinct constant)).1
          exact once (List.mem_map.2 ⟨other, mem, same⟩)
        · exact rest other mem
      have fewer : isConstant → (entries.map Prod.fst).Nodup :=
        fun constant => (List.nodup_cons.1 (distinct constant)).2
      calc (env.write (entry.1, ⟨v, isConstant⟩) >>= fun next =>
            entries.foldlM (assignPlain isConstant) next)
          = entries.foldlM (assignPlain isConstant) (env.after (entry.1, ⟨v, isConstant⟩)) := by
            rw [write_of_free first, after_of_free first]
            rfl
        _ = _ := by
            rw [ih still fewer]
            cases entries.mapM (toWrite isConstant) with
            | error fault => rfl
            | ok ws => rfl

theorem run_append (env : Environment) (ws later : List (String × Binding)) :
    env.run (ws ++ later) = (env.run ws).run later :=
  List.foldl_append

theorem not_isConstant_run {ws : List (String × Binding)} {name : String}
    (h : ¬ env.isConstant name) (unmarked : ∀ w ∈ ws, w.2.isConstant = false) :
    ¬ (env.run ws).isConstant name := by
  induction ws generalizing env with
  | nil => exact h
  | cons w ws ih =>
    obtain ⟨first, rest⟩ := List.forall_mem_cons.1 unmarked
    refine ih ?_ rest
    by_cases hw : env.isConstant w.1
    · rw [after_of_constant hw]
      exact h
    · rw [isConstant, bindings_after hw]
      split
      · simp [first]
      · exact h

theorem not_isConstant_empty (name : String) : ¬ empty.isConstant name := Bool.false_ne_true

theorem ofPlain_eq (distinct : (constants.map Prod.fst).Nodup) :
    ofPlain values constants =
      ((toWrites values constants).map empty.run).mapError .data := by
  rw [ofPlain, toWrites, foldlM_assignPlain (fun entry _ => not_isConstant_empty entry.1)
    (fun constant => absurd constant Bool.false_ne_true)]
  cases hw : values.mapM (toWrite false) with
  | error fault => rfl
  | ok ws =>
    have free : ∀ entry ∈ constants, ¬ (empty.run ws).isConstant entry.1 := fun entry _ =>
      not_isConstant_run (not_isConstant_empty entry.1) fun _ mem => isConstant_of_mem_mapM hw mem
    calc constants.foldlM (assignPlain true) (empty.run ws)
        = ((constants.mapM (toWrite true)).map (empty.run ws).run).mapError .data :=
          foldlM_assignPlain free fun _ => distinct
      _ = _ := by
          cases constants.mapM (toWrite true) with
          | error fault => rfl
          | ok later => exact congrArg Except.ok (run_append empty ws later).symm

/-- What can be seen of an environment after some writes to the empty one. -/
structure Shows (ws : List (String × Binding)) (env : Environment) : Prop where
  bound : ∀ name, env.isConstant name → (env.get? name).isSome
  /-- A name has the value of the last accepted write to it. -/
  value : ∀ name, env.get? name = ((empty.accepted ws).reverse.lookup name).map (·.value)
  /-- A name is a constant if the last accepted write to it made it one. -/
  mark : ∀ name,
    env.isConstant name = ((empty.accepted ws).reverse.lookup name).any (·.isConstant)
  /-- A constant stays one and keeps its value, whatever is written later. -/
  steady : ∀ name, env.isConstant name → ∀ later,
    (env.run later).isConstant name ∧ (env.run later).get? name = env.get? name
  /-- A write to a constant is refused, and nothing is written then. -/
  refused : ∀ w, env.isConstant w.1 →
    env.write w = .error (.constant w.1) ∧ env.after w = env ∧
    (Ledger.write w).run (Ledger.empty.run ws) = .error (.constant w.1) (Ledger.empty.run ws)
  /-- A write to any other name is accepted. -/
  taken : ∀ w, ¬ env.isConstant w.1 →
    (∃ next, env.write w = .ok next) ∧
    ∃ next, (Ledger.write w).run (Ledger.empty.run ws) = .ok () next
  ascending : env.names.Pairwise (· < ·)
  listed : ∀ name, name ∈ env.names ↔ (env.get? name).isSome
  /-- The values and the marks are those of the two collections. -/
  mirrored : (Ledger.empty.run ws).Mirrors env
  /-- The names are those of the two collections, sorted. -/
  sorted : env.names = (Ledger.empty.run ws).names

theorem shows_run (ws : List (String × Binding)) : Shows ws (empty.run ws) := by
  have last : ∀ name, (empty.run ws).bindings.get? name =
      (empty.accepted ws).reverse.lookup name := by
    intro name
    rw [bindings_run]
    exact Option.or_none
  have mirrored := Ledger.mirrors_empty.run ws
  constructor
  case bound => exact fun name => isSome_of_constant
  case value =>
    intro name
    rw [get?, last]
  case mark =>
    intro name
    rw [isConstant, last]
  case steady =>
    intro name h later
    have kept := bindings_run_of_constant h later
    exact ⟨by rw [isConstant, kept]; exact h, by rw [get?, kept, get?]⟩
  case refused =>
    intro w h
    exact ⟨write_of_constant h, after_of_constant h,
      Ledger.write_of_mem ((mirrored.mem_marks w.1).2 h)⟩
  case taken =>
    intro w h
    exact ⟨⟨_, write_of_free h⟩, _,
      Ledger.write_of_notMem fun mem => h ((mirrored.mem_marks w.1).1 mem)⟩
  case ascending => exact names_ascending _
  case listed => exact fun name => mem_names
  case mirrored => exact mirrored
  case sorted => exact mirrored.names

/-- Data without a value makes no environment. All other data, under names that come once in each
part, makes one, which shows after any writes what the last accepted write to each name left, the
first writes being those of the data; and its constants stay as they are. -/
theorem shows_last_accepted {values constants : List (String × Plain)}
    (distinct : (constants.map Prod.fst).Nodup) :
    (∀ entry ∈ values ++ constants, ∀ fault, entry.2.toValue = .error fault →
      ∃ first, ofPlain values constants = .error (.data first)) ∧
    ((∀ entry ∈ values ++ constants, ∃ v, entry.2.toValue = .ok v) →
      ∃ ws env, toWrites values constants = .ok ws ∧ ofPlain values constants = .ok env ∧
        ∀ later, Shows (ws ++ later) (env.run later)) := by
  constructor
  · intro entry mem fault hfault
    cases hw : toWrites values constants with
    | error first => exact ⟨first, by rw [ofPlain_eq distinct, hw]; rfl⟩
    | ok ws =>
      obtain ⟨v, hv⟩ := toWrites_eq_ok_iff.1 ⟨ws, hw⟩ entry mem
      rw [hfault] at hv
      cases hv
  · intro fit
    obtain ⟨ws, hw⟩ := toWrites_eq_ok_iff.2 fit
    refine ⟨ws, empty.run ws, hw, by rw [ofPlain_eq distinct, hw]; rfl, fun later => ?_⟩
    rw [← run_append]
    exact shows_run (ws ++ later)

theorem shows_last_accepted_promoted :
    (∃ env, ofPlain [("b", .integer 1), ("a", .converted (.string "x"))]
        [("b", .list [.text "s"])] = .ok env ∧
      Shows [("b", ⟨.integer 1, false⟩), ("a", ⟨.string "x", false⟩), ("b", ⟨.strings ["s"], true⟩),
          ("b", ⟨.null, false⟩), ("a", ⟨.integer 2, true⟩), ("a", ⟨.null, true⟩)]
        (env.run [("b", ⟨.null, false⟩), ("a", ⟨.integer 2, true⟩), ("a", ⟨.null, true⟩)]) ∧
      (env.run [("b", ⟨.null, false⟩), ("a", ⟨.integer 2, true⟩), ("a", ⟨.null, true⟩)]).get? "a" =
        some (.integer 2)) ∧
    ∃ first, ofPlain [("b", .integer 1)] [("b", .list [])] = .error (.data first) := by
  obtain ⟨-, made⟩ := @shows_last_accepted [("b", .integer 1), ("a", .converted (.string "x"))]
    [("b", .list [.text "s"])] (by decide)
  obtain ⟨ws, env, hws, henv, shows⟩ := made (toWrites_eq_ok_iff.1 ⟨_, rfl⟩)
  have first : Except.ok [("b", ⟨.integer 1, false⟩), ("a", ⟨.string "x", false⟩),
      ("b", ⟨.strings ["s"], true⟩)] = (Except.ok ws : Except Plain.Fault _) := hws
  cases first
  have seen := shows [("b", ⟨.null, false⟩), ("a", ⟨.integer 2, true⟩), ("a", ⟨.null, true⟩)]
  refine ⟨⟨env, henv, seen, (seen.value "a").trans rfl⟩, ?_⟩
  obtain ⟨none, -⟩ := @shows_last_accepted [("b", .integer 1)] [("b", .list [])] (by decide)
  exact none ("b", .list []) (by simp) .unfitList rfl

end Environment

end Criterion
