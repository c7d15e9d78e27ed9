import Criterion.Proofs.Growth
import Mathlib.Data.List.AList
import Mathlib.Data.List.Sort
import Mathlib.Data.String.Basic

/-!
Registrations. Functions and their signatures stand in two collections, and a registration writes
first to the one and then to the other. They stay in step, also where it fails between the two.
-/

namespace Criterion

structure Catalogue where
  functions : AList fun _ : String => Builtin
  prototypes : AList fun _ : String => List Signature
  isFrozen : Bool

namespace Catalogue

def empty : Catalogue := ⟨∅, ∅, false⟩

/-- Why a registration fails: it is refused, or what is given for signatures raises an exception. -/
inductive Fault
  | refused (fault : Registry.Fault)
  | malformed (e : Escape)

def register (f : Builtin) (given : Except Escape (List Signature)) :
    EStateM Fault Catalogue Unit := do
  let catalogue ← get
  if catalogue.isFrozen then throw (.refused (.frozen f.name))
  else if f.name ∈ catalogue.functions then throw (.refused (.taken f.name))
  else
    set { catalogue with functions := catalogue.functions.insert f.name f }
    match given with
    | .ok [] => pure ()
    | .ok signatures =>
      modify fun catalogue =>
        { catalogue with prototypes := catalogue.prototypes.insert f.name signatures }
    | .error e => throw (.malformed e)

inductive Request
  | register (f : Builtin) (given : Except Escape (List Signature))
  | freeze

def Request.act : Request → EStateM Fault Catalogue Unit
  | register f given => Catalogue.register f given
  | freeze => modify fun catalogue => { catalogue with isFrozen := true }

/-- What a request comes to: a function is registered without signatures where taking them fails. -/
def Request.settled : Request → Registry.Request
  | register f given => .register f (given.toOption.getD [])
  | freeze => .freeze

def after (catalogue : Catalogue) (request : Request) : Catalogue :=
  match request.act.run catalogue with
  | .ok _ next => next
  | .error _ left => left

def run (catalogue : Catalogue) (requests : List Request) : Catalogue :=
  requests.foldl after catalogue

def names (catalogue : Catalogue) : List String := catalogue.functions.keys.mergeSort (· ≤ ·)

/-- The two collections are in step: functions stand under their own names, and signatures under
names of functions, some at least. -/
structure InStep (catalogue : Catalogue) : Prop where
  named : ∀ name f, catalogue.functions.lookup name = some f → f.name = name
  known : ∀ name, name ∈ catalogue.prototypes → name ∈ catalogue.functions
  filled : ∀ name, catalogue.prototypes.lookup name ≠ some []

structure Mirrors (catalogue : Catalogue) (r : Registry) : Prop where
  functions : ∀ name, catalogue.functions.lookup name = r.get? name
  signatures : ∀ name, (catalogue.prototypes.lookup name).getD [] = r.signatures name
  isFrozen : catalogue.isFrozen = r.isFrozen

theorem inStep_empty : empty.InStep where
  named name f h := by cases h
  known name h := absurd h (AList.notMem_empty name)
  filled name h := by cases h

theorem mirrors_empty : empty.Mirrors .empty where
  functions _ := rfl
  signatures _ := rfl
  isFrozen := rfl

variable {catalogue : Catalogue} {r next : Registry} {f : Builtin}
  {given : Except Escape (List Signature)}

theorem Mirrors.mem_functions (h : catalogue.Mirrors r) {name : String} :
    name ∈ catalogue.functions ↔ r.contains name := by
  rw [← AList.lookup_isSome, h.functions, Registry.get?, Option.isSome_map, Registry.contains,
    Table.contains]

/-- The catalogue after a registration that is not refused. -/
def enter (catalogue : Catalogue) (f : Builtin) (signatures : List Signature) : Catalogue :=
  { catalogue with
    functions := catalogue.functions.insert f.name f
    prototypes := if signatures = [] then catalogue.prototypes
      else catalogue.prototypes.insert f.name signatures }

theorem register_of_frozen (h : catalogue.isFrozen) (f : Builtin)
    (given : Except Escape (List Signature)) :
    (register f given).run catalogue = .error (.refused (.frozen f.name)) catalogue := by
  simp only [register, EStateM.run_bind, EStateM.run_get, if_pos h, EStateM.run_throw]

theorem register_of_mem (unfrozen : ¬ catalogue.isFrozen) (h : f.name ∈ catalogue.functions)
    (given : Except Escape (List Signature)) :
    (register f given).run catalogue = .error (.refused (.taken f.name)) catalogue := by
  simp only [register, EStateM.run_bind, EStateM.run_get, if_neg unfrozen, if_pos h,
    EStateM.run_throw]

theorem register_of_notMem (unfrozen : ¬ catalogue.isFrozen) (h : f.name ∉ catalogue.functions) :
    (register f given).run catalogue = match given with
      | .ok signatures => .ok () (catalogue.enter f signatures)
      | .error e => .error (.malformed e) (catalogue.enter f []) := by
  simp only [register, EStateM.run_bind, EStateM.run_get, if_neg unfrozen, if_neg h,
    EStateM.run_set]
  cases given with
  | error e => rfl
  | ok signatures =>
    cases signatures with
    | nil => rfl
    | cons s rest => rfl

theorem lookup_enter (catalogue : Catalogue) (f : Builtin) (signatures : List Signature)
    (name : String) :
    (catalogue.enter f signatures).functions.lookup name =
      if name = f.name then some f else catalogue.functions.lookup name := by
  split
  · next same => rw [same, enter, AList.lookup_insert]
  · next ne => exact AList.lookup_insert_ne ne

theorem prototypes_enter (free : f.name ∉ catalogue.prototypes) (signatures : List Signature)
    (name : String) :
    (catalogue.enter f signatures).prototypes.lookup name =
      if name = f.name then (if signatures = [] then none else some signatures)
      else catalogue.prototypes.lookup name := by
  have none := AList.lookup_eq_none.2 free
  by_cases same : name = f.name
  · rw [enter, if_pos same, same]
    split
    · exact none
    · exact AList.lookup_insert _
  · rw [enter, if_neg same]
    dsimp only
    split
    · rfl
    · exact AList.lookup_insert_ne same

theorem InStep.free (h : catalogue.InStep) (new : f.name ∉ catalogue.functions) :
    f.name ∉ catalogue.prototypes := mt (h.known f.name) new

theorem InStep.enter (h : catalogue.InStep) (new : f.name ∉ catalogue.functions)
    (signatures : List Signature) : (catalogue.enter f signatures).InStep where
  named name g hg := by
    rw [lookup_enter] at hg
    split at hg
    · next same =>
      cases hg
      exact same.symm
    · exact h.named name g hg
  known name hn := by
    rw [← AList.lookup_isSome, prototypes_enter (h.free new)] at hn
    rw [← AList.lookup_isSome, lookup_enter]
    split at hn
    · next same => rw [if_pos same, Option.isSome_some]
    · next ne =>
      rw [if_neg ne, AList.lookup_isSome]
      exact h.known name (AList.lookup_isSome.1 hn)
  filled name := by
    rw [prototypes_enter (h.free new)]
    split
    · split
      · exact nofun
      · next some => exact fun none => some (Option.some.inj none)
    · exact h.filled name

theorem Mirrors.enter (h : catalogue.Mirrors r) (inStep : catalogue.InStep)
    (new : f.name ∉ catalogue.functions) {signatures : List Signature}
    (hr : r.register f signatures = .ok next) : (catalogue.enter f signatures).Mirrors next where
  functions name := by
    rw [lookup_enter, Registry.get?_of_register hr, h.functions]
  -- were the collections not in step, old signatures could be left under the new name
  signatures name := by
    rw [prototypes_enter (inStep.free new), Registry.signatures_of_register hr, ← h.signatures]
    split
    · split
      · next none => rw [none, Option.getD_none]
      · rfl
    · rfl
  isFrozen := by
    rw [Registry.isFrozen_of_register hr]
    exact h.isFrozen

/-- A registration is refused as the registry refuses it, or else it does the same to both. Where
the signatures cannot be taken, the function is registered without any and the exception raised. -/
theorem Mirrors.register (h : catalogue.Mirrors r) (inStep : catalogue.InStep) (f : Builtin)
    (given : Except Escape (List Signature)) :
    (∃ fault, r.register f (given.toOption.getD []) = .error fault ∧
      (register f given).run catalogue = .error (.refused fault) catalogue) ∨
    ∃ next left, r.register f (given.toOption.getD []) = .ok next ∧ left.Mirrors next ∧
      left.InStep ∧ (register f given).run catalogue = match given with
        | .ok _ => .ok () left
        | .error e => .error (.malformed e) left := by
  by_cases frozen : catalogue.isFrozen
  · left
    refine ⟨.frozen f.name, ?_, register_of_frozen frozen f given⟩
    rw [Registry.register, if_pos (h.isFrozen ▸ frozen)]
  · have unfrozen : ¬ r.isFrozen := h.isFrozen ▸ frozen
    by_cases taken : f.name ∈ catalogue.functions
    · left
      refine ⟨.taken f.name, ?_, register_of_mem frozen taken given⟩
      rw [Registry.register, if_neg unfrozen, if_pos (h.mem_functions.1 taken)]
    · right
      have registered (signatures : List Signature) :
          ∃ next, r.register f signatures = .ok next := by
        rw [Registry.register, if_neg unfrozen, if_neg (mt h.mem_functions.2 taken)]
        exact ⟨_, rfl⟩
      obtain ⟨next, hr⟩ := registered (given.toOption.getD [])
      refine ⟨next, catalogue.enter f (given.toOption.getD []), hr, h.enter inStep taken hr,
        inStep.enter taken _, ?_⟩
      rw [register_of_notMem frozen taken]
      cases given with
      | ok signatures => rfl
      | error e => rfl

theorem Mirrors.after (h : catalogue.Mirrors r) (inStep : catalogue.InStep) (request : Request) :
    (catalogue.after request).Mirrors (r.after request.settled) ∧
      (catalogue.after request).InStep := by
  cases request with
  | freeze => exact ⟨⟨h.functions, h.signatures, rfl⟩, ⟨inStep.named, inStep.known, inStep.filled⟩⟩
  | register f given =>
    rw [Catalogue.after, Request.act, Request.settled, Registry.after_register]
    rcases h.register inStep f given with ⟨fault, hr, hc⟩ | ⟨next, left, hr, mirrors, steps, hc⟩
    · rw [hr, hc]
      exact ⟨h, inStep⟩
    · rw [hr, hc]
      cases given with
      | ok signatures => exact ⟨mirrors, steps⟩
      | error e => exact ⟨mirrors, steps⟩

theorem Mirrors.run (h : catalogue.Mirrors r) (inStep : catalogue.InStep)
    (requests : List Request) :
    (catalogue.run requests).Mirrors (r.grow (requests.map Request.settled)) ∧
      (catalogue.run requests).InStep := by
  induction requests generalizing catalogue r with
  | nil => exact ⟨h, inStep⟩
  | cons request requests ih =>
    obtain ⟨mirrors, steps⟩ := h.after inStep request
    exact ih mirrors steps

theorem Mirrors.names (h : catalogue.Mirrors r) : catalogue.names = r.names := by
  have sorted : catalogue.names.SortedLT :=
    List.sortedLT_iff_nodup_and_sortedLE.2
      ⟨(List.mergeSort_perm ..).nodup_iff.2 catalogue.functions.keys_nodup,
        List.sortedLE_mergeSort⟩
  refine sorted.eq_of_mem_iff r.functions.names_ascending.sortedLT fun name => ?_
  rw [Registry.names, Table.mem_names, Catalogue.names, List.mem_mergeSort]
  exact h.mem_functions

/-- Whatever is asked, and whether it fails half-way or not, the two collections are in step and
show what a registry does: the same functions and signatures, and the same names in order. -/
theorem run_mirrors (requests : List Request) :
    let catalogue := empty.run requests
    let r := Registry.empty.grow (requests.map Request.settled)
    catalogue.InStep ∧ catalogue.isFrozen = r.isFrozen ∧ catalogue.names = r.names ∧
      (∀ name, catalogue.functions.lookup name = r.get? name) ∧
      ∀ name, (catalogue.prototypes.lookup name).getD [] = r.signatures name := by
  obtain ⟨mirrors, inStep⟩ := mirrors_empty.run inStep_empty requests
  exact ⟨inStep, mirrors.isFrozen, mirrors.names, mirrors.functions, mirrors.signatures⟩

/-- A registration that fails half-way leaves a name that is taken for good, and no signatures under
it: whatever is asked later, a call to the name is none that can be checked. -/
theorem taken_of_malformed {left : Catalogue} {e : Escape} (h : catalogue.Mirrors r)
    (inStep : catalogue.InStep)
    (failed : (register f given).run catalogue = .error (.malformed e) left)
    (requests : List Request) :
    let later := r.after (.register f []) |>.grow (requests.map Request.settled)
    (left.run requests).Mirrors later ∧ (left.run requests).functions.lookup f.name = some f ∧
      f.name ∉ (left.run requests).prototypes ∧
      ∀ room arguments, kindOf later (room + 2) (.call (.identifier f.name) arguments) =
        .error (.unknownFunction f.name) := by
  rcases h.register inStep f given with ⟨fault, -, hc⟩ | ⟨next, left', hr, mirrors, steps, hc⟩
  · rw [failed] at hc
    cases hc
  · rw [failed] at hc
    cases given with
    | ok signatures => cases hc
    | error e' =>
      cases hc
      have registered : r.register f [] = .ok next := hr
      rw [Registry.after_register, registered]
      obtain ⟨mirrors', steps'⟩ := mirrors.run steps requests
      have entry : next.functions.get? f.name = some ⟨f, []⟩ := by
        rw [Registry.functions_of_register hr, Table.get?_insert, if_pos rfl]
        rfl
      have kept := Registry.extends_grow (requests.map Request.settled) next f.name _ entry
      have signatures : (next.grow (requests.map Request.settled)).signatures f.name = [] := by
        rw [Registry.signatures, kept]
        rfl
      refine ⟨mirrors', ?_, ?_, ?_⟩
      · rw [mirrors'.functions, Registry.get?, kept]
        rfl
      · intro mem
        obtain ⟨some, found⟩ := Option.isSome_iff_exists.1 (AList.lookup_isSome.2 mem)
        have none := mirrors'.signatures f.name
        rw [found, signatures] at none
        exact steps'.filled f.name (found.trans (congrArg Option.some none))
      · intro room arguments
        rw [kindOf_call_of_legible Expr.legible_identifier, Expr.text, signatures]
        rfl

end Catalogue

end Criterion
