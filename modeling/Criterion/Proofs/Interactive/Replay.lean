import Criterion.Proofs.Interactive.Lines
import Criterion.Proofs.Rendering.Values
import Criterion.Proofs.Text

namespace Criterion

theorem mem_intercalate {separator : String} {texts : List String} {c : Char}
    (h : c ∈ (separator.intercalate texts).toList) :
    c ∈ separator.toList ∨ ∃ text ∈ texts, c ∈ text.toList := by
  induction texts with
  | nil => cases h
  | cons text texts ih =>
    cases texts with
    | nil =>
      rw [String.intercalate_singleton] at h
      exact .inr ⟨text, List.mem_singleton_self _, h⟩
    | cons next texts =>
      rw [String.intercalate_cons_cons, String.toList_append, String.toList_append,
        List.mem_append, List.mem_append] at h
      rcases h with (h | h) | h
      · exact .inr ⟨text, List.mem_cons_self .., h⟩
      · exact .inl h
      · rcases ih h with h | ⟨other, ho, h⟩
        · exact .inl h
        · exact .inr ⟨other, List.mem_cons_of_mem _ ho, h⟩

namespace Table

variable {α : Type}

theorem eq_of_entries {t u : Table α} (h : t.entries = u.entries) : t = u := by
  cases t
  cases u
  cases h
  rfl

theorem get?_of_mem (t : Table α) {name : String} {a : α} (h : (name, a) ∈ t.entries) :
    t.get? name = some a := by
  obtain ⟨entries, ascending⟩ := t
  induction entries with
  | nil => cases h
  | cons entry entries ih =>
    obtain ⟨other, b⟩ := entry
    obtain ⟨below, rest⟩ := List.pairwise_cons.1 ascending
    rw [get?, lookup_cons]
    rcases List.mem_cons.1 h with same | h
    · cases same
      rw [if_pos rfl]
    · have less : other < name := below _ h
      rw [if_neg (fun same => String.lt_irrefl _ (same ▸ less))]
      exact ih rest h

theorem place_after {name : String} {a : α} {entries : List (String × α)}
    (h : ∀ entry ∈ entries, entry.1 < name) : place name a entries = entries ++ [(name, a)] := by
  induction entries with
  | nil => rfl
  | cons entry entries ih =>
    obtain ⟨first, rest⟩ := List.forall_mem_cons.1 h
    have ne : name ≠ entry.1 := fun same => String.lt_irrefl _ (same ▸ first)
    rw [place, if_neg (String.lt_asymm first), if_neg ne, ih rest, List.cons_append]

end Table

namespace Interactive

open Session

/-- No character of a text is dropped from a line. -/
def Shown (text : String) : Prop := ∀ c ∈ text.toList, isInvisible c = false

theorem shown_visible (line : String) : Shown (visible line) := by
  intro c hc
  rw [visible, String.toList_ofList] at hc
  simpa using (List.mem_filter.1 hc).2

theorem visible_of_shown {line : String} (h : Shown line) : visible line = line := by
  rw [visible, List.filter_eq_self.2 (by simpa [Shown] using h), String.ofList_toList]

theorem Shown.of_subset {text source : String} (h : Shown source)
    (inside : text.toList ⊆ source.toList) : Shown text :=
  fun c hc => h c (inside hc)

/-- A name that a command can bind: it stands before a space and after blanks. -/
structure Bindable (name : String) : Prop where
  some : name ≠ ""
  first : ∀ c ∈ name.toList.head?, Text.isBlank c = false
  spaceless : ' ' ∉ name.toList
  shown : Shown name

def Enterable (v : Value) : Prop := v.IsLiteral fun s => Quotable s ∧ Shown s

theorem toList_name (argument : String) :
    (assignment argument).1.toList = argument.toList.takeWhile (· != ' ') := by
  rw [assignment, Text.splitAt?]
  cases hd : argument.toList.dropWhile (· != ' ') with
  | nil =>
    have whole := List.takeWhile_append_dropWhile (p := (· != ' ')) (l := argument.toList)
    rw [hd, List.append_nil] at whole
    exact whole.symm
  | cons mark after => exact String.toList_ofList

theorem literal_subset (argument : String) :
    (assignment argument).2.toList ⊆ argument.toList := by
  refine List.Subset.trans (Text.strip_subset _) ?_
  rw [Text.splitAt?]
  cases hd : argument.toList.dropWhile (· != ' ') with
  | nil => exact List.nil_subset _
  | cons mark after =>
    have inside := (List.dropWhile_sublist (· != ' ') (l := argument.toList)).subset
    rw [hd] at inside
    intro c hc
    exact inside (List.mem_cons_of_mem _ (by simpa using hc))

theorem argument_of_commandOf? {line word argument : String}
    (h : commandOf? line = some (word, argument)) :
    (∀ c ∈ argument.toList.head?, Text.isBlank c = false) ∧ argument.toList ⊆ line.toList := by
  rw [commandOf?] at h
  split at h
  · have call := congrArg Prod.snd (Option.some.inj h)
    obtain ⟨first, inside⟩ := Text.splitWord_rest (Text.strip line)
    rw [call] at first inside
    exact ⟨first, List.Subset.trans inside (Text.strip_subset line)⟩
  · cases h

end Interactive

def Environment.Enterable (env : Environment) : Prop :=
  ∀ name binding, env.bindings.get? name = some binding →
    Interactive.Bindable name ∧ Interactive.Enterable binding.value

namespace Interactive

open Session

theorem bindable_of_assignment {argument : String} (shown : Shown argument)
    (first : ∀ c ∈ argument.toList.head?, Text.isBlank c = false)
    (some : (assignment argument).1 ≠ "") : Bindable (assignment argument).1 := by
  have run := toList_name argument
  refine ⟨some, ?_, ?_, ?_⟩
  · rw [run]
    intro c hc
    cases ha : argument.toList with
    | nil =>
      rw [ha] at hc
      cases hc
    | cons d ds =>
      rw [ha, List.takeWhile_cons] at hc
      split at hc
      · cases hc
        exact first c (by rw [ha]; rfl)
      · cases hc
  · rw [run]
    intro space
    have other := List.all_eq_true.1 List.all_takeWhile _ space
    exact absurd other (by decide)
  · apply shown.of_subset
    rw [run]
    exact (List.takeWhile_sublist _).subset

theorem enterable_take [Nesting] {host : Host} {r : Registry} {session : Session} (line : String)
    (h : session.environment.Enterable) :
    (session.take host r line).session.environment.Enterable := by
  by_cases hw : ∃ c argument, (c = .set ∨ c = .const) ∧
      commandOf? (visible line) = some (Command.name c, argument)
  · obtain ⟨c, argument, hc, hl⟩ := hw
    obtain ⟨first, inside⟩ := argument_of_commandOf? hl
    have shown := (shown_visible line).of_subset inside
    rw [take_of_assignment hc hl]
    rcases assigns_assign r session c (decide (c = .const)) argument with
      ⟨same, -⟩ | ⟨v, some, literal, -, changed⟩
    · rw [same]
      exact h
    · intro name binding found
      rw [changed] at found
      split at found
      · next same =>
        cases found
        subst same
        refine ⟨bindable_of_assignment shown first some, ?_⟩
        refine (isLiteral_of_literalValue literal).mono ?_
        intro s hs
        exact ⟨hs.1, shown.of_subset (List.Subset.trans hs.2 (literal_subset argument))⟩
      · exact h name binding found
  · by_cases reset : ∃ argument, commandOf? (visible line) = some (Command.reset.name, argument)
    · obtain ⟨argument, hl⟩ := reset
      rw [take_of_reset hl]
      intro name binding found
      cases found
    · rw [environment_take]
      · exact h
      · intro word argument hl known
        simp only [List.mem_cons, List.not_mem_nil, or_false] at known
        rcases known with rfl | rfl | rfl
        · exact hw ⟨.set, argument, .inl rfl, hl⟩
        · exact hw ⟨.const, argument, .inr rfl, hl⟩
        · exact reset ⟨argument, hl⟩

/-- Whatever lines a session takes, what they bind can be bound again. -/
theorem enterable_run [Nesting] {host : Host} {session : Session} (lines : List (Registry × String))
    (h : session.environment.Enterable) : (session.run host lines).environment.Enterable := by
  induction lines generalizing session with
  | nil => exact h
  | cons line lines ih =>
    rw [run, List.foldl_cons]
    exact ih (enterable_take line.2 h)

def Dark (c : Char) : Prop := Text.isBlank c = false ∧ isInvisible c = false

instance {c : Char} : Decidable (Dark c) := inferInstanceAs (Decidable (_ ∧ _))

theorem dark_of_code {c : Char} (low : 33 ≤ c.toNat) (high : c.toNat ≤ 126) : Dark c := by
  constructor
  · rw [Bool.eq_false_iff]
    intro blank
    simp only [Text.isBlank, Text.CharRanges.has, Text.blankRanges, List.any_cons, List.any_nil,
      Bool.or_eq_true, Bool.and_eq_true, decide_eq_true_eq, Bool.false_eq_true, or_false] at blank
    omega
  · rw [Bool.eq_false_iff]
    intro invisible
    simp only [isInvisible, Bool.or_eq_true, decide_eq_true_eq] at invisible
    rcases invisible with ((((rfl | rfl) | rfl) | rfl) | rfl) | rfl
    all_goals
      revert low high
      decide

theorem dark_decimal {n : Int} (h : Writable n) : ∀ c ∈ (Text.decimal n).toList, Dark c := by
  intro c hc
  rw [Text.toList_decimal h.1] at hc
  have range := isDigit_iff.1 (isDigit_of_core (Text.isDigit_of_mem_digits hc))
  exact dark_of_code (by omega) (by omega)

/-- A text that a command can take as its literal: with nothing that a line drops, and with no blank
at its ends. -/
structure Steady (text : String) : Prop where
  some : text ≠ ""
  shown : Shown text
  first : ∀ c ∈ text.toList.head?, Text.isBlank c = false
  last : ∀ c ∈ text.toList.getLast?, Text.isBlank c = false

theorem steady_of_dark {text : String} (some : text ≠ "") (dark : ∀ c ∈ text.toList, Dark c) :
    Steady text :=
  ⟨some, fun c hc => (dark c hc).2, fun c hc => (dark c (List.mem_of_head? hc)).1,
    fun c hc => (dark c (List.mem_of_getLast? hc)).1⟩

theorem steady_of_enclosed {text : String} {first last : Char} {inner : List Char}
    (h : text.toList = first :: (inner ++ [last])) (shown : ∀ c ∈ inner, isInvisible c = false)
    (hf : Dark first) (hl : Dark last) : Steady text := by
  refine ⟨?_, ?_, ?_, ?_⟩
  · rintro rfl
    cases h
  · intro c hc
    rw [h, List.mem_cons, List.mem_append, List.mem_singleton] at hc
    rcases hc with rfl | hc | rfl
    · exact hf.2
    · exact shown c hc
    · exact hl.2
  · rw [h]
    intro c hc
    cases hc
    exact hf.1
  · rw [h, ← List.cons_append, List.getLast?_concat]
    intro c hc
    cases hc
    exact hl.1

theorem shown_listing {texts : List String} (h : ∀ text ∈ texts, Shown text) :
    ∀ c ∈ (", ".intercalate texts).toList, isInvisible c = false := by
  intro c hc
  rcases mem_intercalate hc with hc | ⟨text, ht, hc⟩
  · have separator : ", ".toList.all (!isInvisible ·) := by decide
    simpa using List.all_eq_true.1 separator c hc
  · exact h text ht c hc

theorem shown_quote {s : String} (h : Shown s) : Shown (Expr.quote s) := by
  intro c hc
  have mark : isInvisible '"' = false := by decide
  simp only [Expr.quote, String.toList_append, List.mem_append] at hc
  rcases hc with (hc | hc) | hc
  · cases List.mem_singleton.1 hc
    exact mark
  · exact h c hc
  · cases List.mem_singleton.1 hc
    exact mark

/-- The text of a value that a command can bind is one that a command can take. -/
theorem Enterable.steady {v : Value} (h : Enterable v) : Steady v.text := by
  cases v with
  | integer n =>
    refine steady_of_dark ?_ (dark_decimal h)
    intro none
    exact Text.digits_ne_nil _ ((Text.toList_decimal h.1).symm.trans (congrArg String.toList none))
  | boolean b =>
    have known : (Value.boolean b).text.toList.all fun c =>
        decide (33 ≤ c.toNat) && decide (c.toNat ≤ 126) := by
      cases b <;> decide
    refine steady_of_dark (by cases b <;> decide) ?_
    intro c hc
    have code := List.all_eq_true.1 known c hc
    simp only [Bool.and_eq_true, decide_eq_true_eq] at code
    exact dark_of_code code.1 code.2
  | string s =>
    have text : (Value.string s).text.toList = '"' :: (s.toList ++ ['"']) := by
      simp [Value.text, Expr.quote]
    exact steady_of_enclosed text h.2 (by decide) (by decide)
  | integers ns =>
    refine steady_of_enclosed (Expr.toList_array _) (shown_listing ?_) (by decide) (by decide)
    intro text ht
    obtain ⟨n, hn, rfl⟩ := List.mem_map.1 ht
    exact fun c hc => (dark_decimal (h.2 n hn) c hc).2
  | strings ss =>
    refine steady_of_enclosed (Expr.toList_array _) (shown_listing ?_) (by decide) (by decide)
    intro text ht
    obtain ⟨s, hs, rfl⟩ := List.mem_map.1 ht
    exact shown_quote (h.2 s hs).2
  | null => cases h
  | error message => cases h
  | function f => cases h

def entryCommand (entry : String × Binding) : Command :=
  if entry.2.isConstant then .const else .set

def entryLine (entry : String × Binding) : String :=
  (entryCommand entry).name ++ " " ++ (entry.1 ++ " " ++ entry.2.value.text)

theorem dark_name (c : Command) : ∀ d ∈ c.name.toList, Dark d := by
  have known : c.name.toList.all fun c => decide (33 ≤ c.toNat) && decide (c.toNat ≤ 126) := by
    cases c <;> decide
  intro d hd
  have code := List.all_eq_true.1 known d hd
  simp only [Bool.and_eq_true, decide_eq_true_eq] at code
  exact dark_of_code code.1 code.2

theorem commandOf?_entryLine {entry : String × Binding} (name : Bindable entry.1)
    (value : Enterable entry.2.value) : commandOf? (visible (entryLine entry)) =
    some ((entryCommand entry).name, entry.1 ++ " " ++ entry.2.value.text) := by
  have steady := value.steady
  have text : (entryLine entry).toList = (entryCommand entry).name.toList ++
      ' ' :: (entry.1.toList ++ ' ' :: entry.2.value.text.toList) := by
    simp [entryLine]
  have shown : Shown (entryLine entry) := by
    have space : isInvisible ' ' = false := by decide
    intro c hc
    simp only [text, List.mem_append, List.mem_cons] at hc
    rcases hc with hc | rfl | hc | rfl | hc
    · exact (dark_name _ c hc).2
    · exact space
    · exact name.shown c hc
    · exact space
    · exact steady.shown c hc
  have slash : (entryLine entry).toList.head? = some '/' := by
    rw [text, entryCommand]
    split
    · rfl
    · rfl
  have last : (entryLine entry).toList.getLast? = entry.2.value.text.toList.getLast? := by
    have more : entry.2.value.text.toList ≠ [] := mt String.toList_eq_nil_iff.1 steady.some
    have split : (entryLine entry).toList = ((entryCommand entry).name.toList ++
        ' ' :: (entry.1.toList ++ [' '])) ++ entry.2.value.text.toList := by
      rw [text]
      simp
    rw [split, List.getLast?_append_of_ne_nil _ more]
  have stripped : Text.strip (entryLine entry) = entryLine entry := by
    refine Text.strip_eq_self ?_ (last ▸ steady.last)
    rw [slash]
    intro c hc
    cases hc
    decide
  have first : ∀ c ∈ (entry.1 ++ " " ++ entry.2.value.text).toList.head?,
      Text.isBlank c = false := by
    obtain ⟨c, cs, hn⟩ := List.exists_cons_of_ne_nil (mt String.toList_eq_nil_iff.1 name.some)
    have start := name.first
    rw [hn] at start
    rw [String.append_assoc, String.toList_append, hn]
    exact start
  rw [visible_of_shown shown, commandOf?, stripped, if_pos slash, entryLine,
    Text.splitWord_append (fun c hc => (dark_name _ c hc).1) first]

section

variable [Nesting] (host : Host) (r : Registry) {session : Session} {entry : String × Binding}

theorem take_of_call {line argument : String} {c : Command}
    (h : commandOf? (visible line) = some (c.name, argument)) :
    session.take host r line =
      .quiet (session.perform r c argument).1 (session.perform r c argument).2 := by
  have called : session.command? r (visible line) = some (session.perform r c argument) := by
    rw [command?, h, Option.map_some]
    simp only [Command.ofName?_name]
  rw [take, if_neg (not_blank_of_commandOf? h), called]

theorem take_entryLine (name : Bindable entry.1) (value : Enterable entry.2.value)
    (free : session.environment.isConstant entry.1 = false) :
    session.take host r (entryLine entry) =
      .quiet { session with environment := ⟨session.environment.bindings.insert entry.1 entry.2⟩ }
        [.say (entry.1 ++ " = " ++ entry.2.value.text)] := by
  have steady := value.steady
  have literal : literalValue r entry.2.value.text = .ok entry.2.value :=
    literalValue_text (value.mono fun _ hs => hs.1)
  have stripped := Text.strip_eq_self steady.first steady.last
  have usage : ¬ (entry.1 = "" ∨ entry.2.value.text = "") := by
    rintro (none | none)
    · exact name.some none
    · exact steady.some none
  have bound (isConstant : Bool) (h : isConstant = entry.2.isConstant) :
      session.environment.assign isConstant entry.1 entry.2.value =
        .ok ⟨session.environment.bindings.insert entry.1 entry.2⟩ := by
    rw [Environment.assign, Environment.bind?, if_neg (by simp [free]), h]
  have assigned (c : Command) (isConstant : Bool) (h : isConstant = entry.2.isConstant) :
      session.assign r c isConstant (entry.1 ++ " " ++ entry.2.value.text) =
        ({ session with environment := ⟨session.environment.bindings.insert entry.1 entry.2⟩ },
          [.say (entry.1 ++ " = " ++ entry.2.value.text)]) := by
    rw [assign, Text.splitAt?_append name.spaceless]
    simp only [Option.getD_some, stripped, Bool.or_eq_true, decide_eq_true_eq, if_neg usage,
      literal, bind, Except.bind, bound isConstant h]
    rfl
  rw [take_of_call host r (commandOf?_entryLine name value), entryCommand]
  cases hc : entry.2.isConstant with
  | true =>
    rw [if_pos rfl, perform, assigned .const true hc.symm]
  | false =>
    rw [if_neg Bool.false_ne_true, perform, assigned .set false hc.symm]

/-- Lines for the entries of an environment, in order of their names, add these entries to those
before them, and come to nothing but output. -/
theorem run_entryLines {entries before : List (String × Binding)}
    (all : ∀ entry ∈ entries, Bindable entry.1 ∧ Enterable entry.2.value)
    (ascending : (before ++ entries).Pairwise (·.1 < ·.1))
    (h : session.environment.bindings.entries = before) :
    (session.run host (entries.map fun e => (r, entryLine e))).environment.bindings.entries =
        before ++ entries ∧
      ∀ event ∈ session.events host r (entries.map fun entry => .line (entryLine entry)),
        ∃ text, event = .output text := by
  induction entries generalizing session before with
  | nil =>
    refine ⟨by rw [List.append_nil]; exact h, ?_⟩
    rw [List.map_nil, events]
    exact List.forall_mem_cons.2 ⟨⟨_, rfl⟩, List.forall_mem_singleton.2 ⟨_, rfl⟩⟩
  | cons entry entries ih =>
    obtain ⟨⟨name, value⟩, rest⟩ := List.forall_mem_cons.1 all
    have below : ∀ other ∈ before, other.1 < entry.1 := fun other ho =>
      (List.pairwise_append.1 ascending).2.2 other ho entry (List.mem_cons_self ..)
    have unbound : session.environment.bindings.get? entry.1 = none := by
      rw [Table.get?, h, List.lookup_eq_none_iff]
      intro other ho
      exact bne_iff_ne.2 fun same => String.lt_irrefl _ (same ▸ below other ho)
    have free : session.environment.isConstant entry.1 = false := by
      rw [Environment.isConstant, unbound]
      rfl
    have taken := take_entryLine host r name value free
    let next : Session :=
      { session with environment := ⟨session.environment.bindings.insert entry.1 entry.2⟩ }
    have placed : next.environment.bindings.entries = before ++ [entry] := by
      change Table.place entry.1 entry.2 session.environment.bindings.entries = _
      rw [h, Table.place_after below]
    have later : ((before ++ [entry]) ++ entries).Pairwise (·.1 < ·.1) := by
      rw [List.append_assoc]
      exact ascending
    obtain ⟨bound, silent⟩ := ih rest later placed
    constructor
    · rw [List.map_cons, run, List.foldl_cons, taken]
      refine bound.trans ?_
      rw [List.append_assoc]
      rfl
    · rw [List.map_cons, events, react, taken]
      exact List.forall_mem_cons.2 ⟨⟨_, rfl⟩, List.forall_mem_cons.2 ⟨⟨_, rfl⟩, silent⟩⟩

/-- The lines that bind what a session has bound, in the order of its listing. -/
def Session.replay (session : Session) : List String :=
  session.environment.bindings.entries.map entryLine

/-- Whatever lines a session has taken, an empty one that takes a line for each of its bindings
comes to the same environment, with nothing but output on the way. -/
theorem run_replay (host other : Host) (r : Registry) (lines : List (Registry × String)) :
    (start.run other ((start.run host lines).replay.map fun line => (r, line))).environment =
        (start.run host lines).environment ∧
      ∀ event ∈ start.events other r ((start.run host lines).replay.map .line),
        ∃ text, event = .output text := by
  have enterable : (start.run host lines).environment.Enterable := by
    refine enterable_run lines ?_
    intro name binding found
    cases found
  have all : ∀ entry ∈ (start.run host lines).environment.bindings.entries,
      Bindable entry.1 ∧ Enterable entry.2.value := fun entry he =>
    enterable entry.1 entry.2 (Table.get?_of_mem _ he)
  have ascending := (start.run host lines).environment.bindings.ascending
  rw [← List.nil_append (start.run host lines).environment.bindings.entries] at ascending
  have none : start.environment.bindings.entries = [] := rfl
  obtain ⟨bound, silent⟩ := run_entryLines other r all ascending none
  rw [Session.replay, List.map_map, List.map_map]
  exact ⟨congrArg Environment.mk (Table.eq_of_entries bound), silent⟩

end

end Interactive

end Criterion
