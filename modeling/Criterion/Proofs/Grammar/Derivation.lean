import Criterion.Numeral
import Criterion.Proofs.Rendering.Legible

/-!
The grammar of conditions, apart from any way to read them: its words, its levels, its derivations,
and the tree that a derivation stands for.
-/

namespace Criterion

namespace Grammar

/-- The words of the grammar. No condition contains a `stray` one. -/
inductive Word
  | name (text : String)
  | numeral (text : String)
  | quotation (content : String)
  | truth (value : Bool)
  | sign (op : BinaryOp)
  | bang
  | leftParen | rightParen | leftBracket | rightBracket | comma
  | stray
  deriving DecidableEq, Repr

/-- The levels of the grammar, loosest first. -/
inductive Level
  | logical | equality | relation | sum | product | unary | call | atom
  deriving DecidableEq, Repr

namespace Level

/-- The level of the right operands of a level, and of what stands there without an operator. -/
def tighter : Level → Level
  | logical => equality
  | equality => relation
  | relation => sum
  | sum => product
  | product => unary
  | unary => call
  | call | atom => atom

/-- The operators of a level, all of which associate to the left. -/
def operators : Level → List BinaryOp
  | logical => [.and, .or]
  | equality => [.equal, .notEqual]
  | relation => [.less, .lessEqual, .greater, .greaterEqual]
  | sum => [.add, .subtract]
  | product => [.multiply, .divide, .member]
  | unary | call | atom => []

def rank : Level → Nat
  | logical => 1
  | equality => 2
  | relation => 3
  | sum => 4
  | product => 5
  | unary => 6
  | call => 7
  | atom => 8

theorem rank_pos (level : Level) : 1 ≤ level.rank := by
  cases level <;> decide

theorem rank_tighter {level : Level} (h : level ≠ .atom) : level.tighter.rank = level.rank + 1 := by
  cases level <;> first | rfl | exact absurd rfl h

theorem rank_le_tighter (level : Level) : level.rank ≤ level.tighter.rank := by
  cases level <;> decide

theorem ne_atom_of_operator {level : Level} {op : BinaryOp} (h : op ∈ level.operators) :
    level ≠ .atom := by
  rintro rfl
  exact nomatch h

theorem rank_le_of_operator {level : Level} {op : BinaryOp} (h : op ∈ level.operators) :
    level.rank ≤ 5 := by
  cases level <;> first | decide | exact nomatch h

theorem rank_le (level : Level) : level.rank ≤ 8 := by
  cases level <;> decide

theorem rank_injective {level other : Level} (h : level.rank = other.rank) : level = other := by
  cases level <;> cases other <;> first | rfl | exact absurd h (by decide)

end Level

end Grammar

open Grammar in
/-- Every operator belongs to one of the levels, in the order in which they bind. -/
theorem BinaryOp.exists_level (op : BinaryOp) :
    ∃ level : Level, op ∈ level.operators ∧ op.precedence = level.rank + 1 := by
  cases op with
  | and => exact ⟨.logical, by decide, rfl⟩
  | or => exact ⟨.logical, by decide, rfl⟩
  | equal => exact ⟨.equality, by decide, rfl⟩
  | notEqual => exact ⟨.equality, by decide, rfl⟩
  | less => exact ⟨.relation, by decide, rfl⟩
  | lessEqual => exact ⟨.relation, by decide, rfl⟩
  | greater => exact ⟨.relation, by decide, rfl⟩
  | greaterEqual => exact ⟨.relation, by decide, rfl⟩
  | add => exact ⟨.sum, by decide, rfl⟩
  | subtract => exact ⟨.sum, by decide, rfl⟩
  | multiply => exact ⟨.product, by decide, rfl⟩
  | divide => exact ⟨.product, by decide, rfl⟩
  | member => exact ⟨.product, by decide, rfl⟩

namespace Grammar

inductive Element
  | numeral (text : String)
  | quotation (content : String)
  deriving DecidableEq, Repr

def Element.word : Element → Word
  | numeral text => .numeral text
  | quotation content => .quotation content

mutual

/-- A derivation of the grammar from one of its levels. -/
inductive Derivation : Level → Type
  | tighter {level : Level} (loose : level ≠ .atom) (d : Derivation level.tighter) :
      Derivation level
  | binary {level : Level} (left : Derivation level) (op : BinaryOp) (known : op ∈ level.operators)
      (right : Derivation level.tighter) : Derivation level
  | negation (operand : Derivation .unary) : Derivation .unary
  | call (function : Derivation .call) : Derivation .call
  | callWith (function : Derivation .call) (arguments : Arguments) : Derivation .call
  | name (text : String) : Derivation .atom
  | numeral (text : String) : Derivation .atom
  | quotation (content : String) : Derivation .atom
  | truth (value : Bool) : Derivation .atom
  | array (elements : List Element) : Derivation .atom
  | group (inner : Derivation .logical) : Derivation .atom

/-- The derivations of one or more arguments, the last one apart from those before it. -/
inductive Arguments : Type
  | one (d : Derivation .logical)
  | snoc (before : Arguments) (d : Derivation .logical)

end

mutual

def Derivation.words {level : Level} : Derivation level → List Word
  | .tighter _ d => d.words
  | .binary left op _ right => left.words ++ .sign op :: right.words
  | .negation operand => .bang :: operand.words
  | .call function => function.words ++ [.leftParen, .rightParen]
  | .callWith function arguments =>
    function.words ++ .leftParen :: (arguments.words ++ [.rightParen])
  | .name text => [.name text]
  | .numeral text => [.numeral text]
  | .quotation content => [.quotation content]
  | .truth value => [.truth value]
  | .array elements =>
    .leftBracket :: ((elements.map Element.word).intersperse .comma ++ [.rightBracket])
  | .group inner => .leftParen :: (inner.words ++ [.rightParen])

def Arguments.words : Arguments → List Word
  | .one d => d.words
  | .snoc before d => before.words ++ .comma :: d.words

end

def Element.content? : Element → Option String
  | quotation content => some content
  | numeral _ => none

def Element.value? : Element → Option Int
  | numeral text => (Numeral.read text).toOption
  | quotation _ => none

/-- The array of some elements, which must be quotations only or numerals of words only. -/
def arrayTree? (elements : List Element) : Option Expr :=
  if elements = [] then none
  else match elements.mapM Element.content? with
    | some contents => some (.strings contents)
    | none => (elements.mapM Element.value?).map .integers

mutual

/-- The tree that a derivation stands for, if all its literals stand for values. -/
def Derivation.tree? {level : Level} : Derivation level → Option Expr
  | .tighter _ d => d.tree?
  | .binary left op _ right => do return .binary (← left.tree?) op.text (← right.tree?)
  | .negation operand => do return .unary UnaryOp.not.text (← operand.tree?)
  | .call function => do return .call (← function.tree?) []
  | .callWith function arguments => do return .call (← function.tree?) (← arguments.trees?)
  | .name text => some (.identifier text)
  | .numeral text => (Numeral.read text).toOption.map .integer
  | .quotation content => some (.string content)
  | .truth value => some (.boolean value)
  | .array elements => arrayTree? elements
  | .group inner => inner.tree?

def Arguments.trees? : Arguments → Option (List Expr)
  | .one d => do return [← d.tree?]
  | .snoc before d => do return (← before.trees?) ++ [← d.tree?]

end

theorem mem_intersperse {α : Type} {c a : α} : ∀ {xs : List α},
    a ∈ xs.intersperse c → a = c ∨ a ∈ xs
  | [], h => nomatch h
  | [_], h => .inr h
  | x :: y :: xs, h => by
    rcases List.mem_cons.1 h with rfl | h
    · exact .inr (List.mem_cons_self ..)
    · rcases List.mem_cons.1 h with rfl | h
      · exact .inl rfl
      · exact (mem_intersperse h).imp_right (List.mem_cons_of_mem _)

mutual

theorem Derivation.stray_notMem {level : Level} :
    ∀ d : Derivation level, .stray ∉ d.words
  | .tighter _ d => d.stray_notMem
  | .binary left _ _ right => by
    simp [Derivation.words, left.stray_notMem, right.stray_notMem]
  | .negation operand => by simp [Derivation.words, operand.stray_notMem]
  | .call function => by simp [Derivation.words, function.stray_notMem]
  | .callWith function arguments => by
    simp [Derivation.words, function.stray_notMem, arguments.stray_notMem]
  | .name _ => by simp [Derivation.words]
  | .numeral _ => by simp [Derivation.words]
  | .quotation _ => by simp [Derivation.words]
  | .truth _ => by simp [Derivation.words]
  | .array elements => by
    intro h
    rw [Derivation.words, List.mem_cons, List.mem_append, List.mem_singleton] at h
    rcases h with h | h | h
    · cases h
    · rcases mem_intersperse h with h | h
      · cases h
      · obtain ⟨e, -, he⟩ := List.mem_map.1 h
        cases e with
        | numeral text => cases he
        | quotation content => cases he
    · cases h
  | .group inner => by simp [Derivation.words, inner.stray_notMem]

theorem Arguments.stray_notMem : ∀ as : Arguments, .stray ∉ as.words
  | .one d => d.stray_notMem
  | .snoc before d => by simp [Arguments.words, before.stray_notMem, d.stray_notMem]

end

def Word.opens : Word → Bool
  | name _ | numeral _ | quotation _ | truth _ | bang | leftParen | leftBracket => true
  | _ => false

theorem Derivation.exists_first {level : Level} :
    ∀ d : Derivation level, ∃ w ws, d.words = w :: ws ∧ w.opens
  | .tighter _ d => d.exists_first
  | .binary left op _ right => by
    obtain ⟨w, ws, hw, ho⟩ := left.exists_first
    exact ⟨w, ws ++ .sign op :: right.words, by simp [words, hw], ho⟩
  | .negation operand => ⟨.bang, operand.words, rfl, rfl⟩
  | .call function => by
    obtain ⟨w, ws, hw, ho⟩ := function.exists_first
    exact ⟨w, ws ++ [.leftParen, .rightParen], by simp [words, hw], ho⟩
  | .callWith function arguments => by
    obtain ⟨w, ws, hw, ho⟩ := function.exists_first
    exact ⟨w, ws ++ .leftParen :: (arguments.words ++ [.rightParen]), by simp [words, hw], ho⟩
  | .name text => ⟨.name text, [], rfl, rfl⟩
  | .numeral text => ⟨.numeral text, [], rfl, rfl⟩
  | .quotation content => ⟨.quotation content, [], rfl, rfl⟩
  | .truth value => ⟨.truth value, [], rfl, rfl⟩
  | .array elements => ⟨.leftBracket, _, rfl, rfl⟩
  | .group inner => ⟨.leftParen, _, rfl, rfl⟩

/-- A text that is the numeral of a word. -/
def Readable (text : String) : Prop := ∃ n, Numeral.read text = .ok n

mutual

/-- All numerals of a derivation are those of words, and each array of it lists quotations only or
numerals only, and at least one. -/
def Derivation.Meaningful {level : Level} : Derivation level → Prop
  | .tighter _ d => d.Meaningful
  | .binary left _ _ right => left.Meaningful ∧ right.Meaningful
  | .negation operand => operand.Meaningful
  | .call function => function.Meaningful
  | .callWith function arguments => function.Meaningful ∧ arguments.Meaningful
  | .numeral text => Readable text
  | .name _ | .quotation _ | .truth _ => True
  | .array elements =>
    elements ≠ [] ∧
      ((∀ e ∈ elements, ∃ content, e = .quotation content) ∨
        ∀ e ∈ elements, ∃ text, e = .numeral text ∧ Readable text)
  | .group inner => inner.Meaningful

def Arguments.Meaningful : Arguments → Prop
  | .one d => d.Meaningful
  | .snoc before d => before.Meaningful ∧ d.Meaningful

end

theorem content?_eq_some (e : Element) (content : String) :
    e.content? = some content ↔ e = .quotation content := by
  cases e <;> simp [Element.content?]

theorem mapM_content?_eq_some {elements : List Element} {contents : List String} :
    elements.mapM Element.content? = some contents ↔ elements = contents.map .quotation :=
  mapM_eq_some_iff_map content?_eq_some

theorem value?_eq_some {e : Element} {value : Int} :
    e.value? = some value ↔ ∃ text, e = .numeral text ∧ Numeral.read text = .ok value := by
  cases e with
  | numeral text => cases h : Numeral.read text <;> simp [Element.value?, h, Except.toOption]
  | quotation content => simp [Element.value?]

theorem mapM_value?_eq_some {elements : List Element} {values : List Int} :
    elements.mapM Element.value? = some values ↔
      ∃ texts : List String, elements = texts.map .numeral ∧
        texts.map Numeral.read = values.map .ok := by
  induction elements generalizing values with
  | nil => cases values <;> simp
  | cons e es ih =>
    constructor
    · intro h
      simp only [List.mapM_cons, Option.pure_def, Option.bind_eq_bind, Option.bind_eq_some_iff,
        Option.some.injEq] at h
      obtain ⟨value, he, values', hes, rfl⟩ := h
      obtain ⟨text, rfl, hr⟩ := value?_eq_some.1 he
      obtain ⟨texts, rfl, hrs⟩ := ih.1 hes
      exact ⟨text :: texts, rfl, by simp [hr, hrs]⟩
    · rintro ⟨_ | ⟨text, texts⟩, he, hr⟩
      · exact nomatch he
      · cases values with
        | nil => exact nomatch hr
        | cons value values =>
          obtain ⟨rfl, rfl⟩ := List.cons.inj he
          obtain ⟨hv, hvs⟩ := List.cons.inj hr
          simp [value?_eq_some.2 ⟨text, rfl, hv⟩, ih.2 ⟨texts, rfl, hvs⟩]

theorem arrayTree?_eq_some {elements : List Element} {tree : Expr} :
    arrayTree? elements = some tree ↔
      elements ≠ [] ∧
        ((∃ contents, elements = contents.map .quotation ∧ tree = .strings contents) ∨
          ∃ (texts : List String) (values : List Int), elements = texts.map .numeral ∧
            texts.map Numeral.read = values.map .ok ∧ tree = .integers values) := by
  constructor
  · intro h
    simp only [arrayTree?] at h
    split at h
    · exact nomatch h
    · refine ⟨‹_›, ?_⟩
      split at h
      · next contents hc => exact .inl ⟨contents, mapM_content?_eq_some.1 hc, by simpa using h.symm⟩
      · obtain ⟨values, hv, rfl⟩ := Option.map_eq_some_iff.1 h
        obtain ⟨texts, he, hr⟩ := mapM_value?_eq_some.1 hv
        exact .inr ⟨texts, values, he, hr, rfl⟩
  · rintro ⟨some, ⟨contents, rfl, rfl⟩ | ⟨texts, values, rfl, hr, rfl⟩⟩
    · rw [arrayTree?, if_neg some, mapM_content?_eq_some.2 rfl]
    · rw [arrayTree?, if_neg some]
      split
      · next contents hc =>
        have he := mapM_content?_eq_some.1 hc
        cases texts <;> cases contents <;> simp_all
      · rw [mapM_value?_eq_some.2 ⟨texts, rfl, hr⟩, Option.map_some]

theorem exists_map_of_forall {α β : Type} {f : α → β} {p : α → Prop} :
    ∀ {ys : List β}, (∀ y ∈ ys, ∃ x, y = f x ∧ p x) → ∃ xs : List α, ys = xs.map f ∧ ∀ x ∈ xs, p x
  | [], _ => ⟨[], rfl, nofun⟩
  | _ :: ys, h => by
    obtain ⟨x, rfl, hx⟩ := h _ (List.mem_cons_self ..)
    obtain ⟨xs, rfl, hxs⟩ := exists_map_of_forall fun y hy => h y (List.mem_cons_of_mem _ hy)
    exact ⟨x :: xs, rfl, List.forall_mem_cons.2 ⟨hx, hxs⟩⟩

theorem exists_values : ∀ {texts : List String}, (∀ text ∈ texts, Readable text) →
    ∃ values : List Int, texts.map Numeral.read = values.map .ok
  | [], _ => ⟨[], rfl⟩
  | text :: texts, h => by
    obtain ⟨value, hv⟩ := h text (List.mem_cons_self ..)
    obtain ⟨values, hvs⟩ := exists_values fun t ht => h t (List.mem_cons_of_mem _ ht)
    exact ⟨value :: values, by rw [List.map_cons, List.map_cons, hv, hvs]⟩

theorem readable_of_values {texts : List String} {values : List Int}
    (h : texts.map Numeral.read = values.map .ok) : ∀ text ∈ texts, Readable text := by
  intro text ht
  obtain ⟨n, -, hn⟩ := List.mem_map.1 (h ▸ List.mem_map_of_mem ht)
  exact ⟨n, hn.symm⟩

theorem isSome_arrayTree? {elements : List Element} :
    (arrayTree? elements).isSome ↔
      (Derivation.array elements).Meaningful := by
  rw [Option.isSome_iff_exists]
  constructor
  · rintro ⟨tree, h⟩
    obtain ⟨some, ⟨contents, rfl, -⟩ | ⟨texts, values, rfl, hr, -⟩⟩ := arrayTree?_eq_some.1 h
    · exact ⟨some, .inl (by simp)⟩
    · refine ⟨some, .inr ?_⟩
      simpa using readable_of_values hr
  · rintro ⟨some, h | h⟩
    · obtain ⟨contents, rfl, -⟩ :=
        exists_map_of_forall (p := fun _ => True) fun e he => by simpa using h e he
      exact ⟨_, arrayTree?_eq_some.2 ⟨some, .inl ⟨contents, rfl, rfl⟩⟩⟩
    · obtain ⟨texts, rfl, ht⟩ := exists_map_of_forall h
      obtain ⟨values, hv⟩ := exists_values ht
      exact ⟨_, arrayTree?_eq_some.2 ⟨some, .inr ⟨texts, values, rfl, hv, rfl⟩⟩⟩

mutual

/-- The derivations that stand for a tree are the meaningful ones. -/
theorem Derivation.isSome_tree? {level : Level} :
    ∀ d : Derivation level, d.tree?.isSome ↔ d.Meaningful
  | .tighter _ d => d.isSome_tree?
  | .binary left op _ right => by
    rw [Derivation.Meaningful, ← left.isSome_tree?, ← right.isSome_tree?, Derivation.tree?]
    cases left.tree? <;> cases right.tree? <;> simp
  | .negation operand => by
    rw [Derivation.Meaningful, ← operand.isSome_tree?, Derivation.tree?]
    cases operand.tree? <;> simp
  | .call function => by
    rw [Derivation.Meaningful, ← function.isSome_tree?, Derivation.tree?]
    cases function.tree? <;> simp
  | .callWith function arguments => by
    rw [Derivation.Meaningful, ← function.isSome_tree?, ← arguments.isSome_trees?, Derivation.tree?]
    cases function.tree? <;> cases arguments.trees? <;> simp
  | .numeral text => by
    cases h : Numeral.read text <;>
      simp [Derivation.tree?, Derivation.Meaningful, Readable, h, Except.toOption]
  | .name _ => by simp [Derivation.tree?, Derivation.Meaningful]
  | .quotation _ => by simp [Derivation.tree?, Derivation.Meaningful]
  | .truth _ => by simp [Derivation.tree?, Derivation.Meaningful]
  | .array elements => isSome_arrayTree?
  | .group inner => inner.isSome_tree?

theorem Arguments.isSome_trees? : ∀ as : Arguments, as.trees?.isSome ↔ as.Meaningful
  | .one d => by
    rw [Arguments.Meaningful, ← d.isSome_tree?, Arguments.trees?]
    cases d.tree? <;> simp
  | .snoc before d => by
    rw [Arguments.Meaningful, ← before.isSome_trees?, ← d.isSome_tree?, Arguments.trees?]
    cases before.trees? <;> cases d.tree? <;> simp

end

theorem legible_of_arrayTree? {elements : List Element} {tree : Expr}
    (h : arrayTree? elements = some tree) : tree.Legible := by
  obtain ⟨-, ⟨_, -, rfl⟩ | ⟨_, _, -, -, rfl⟩⟩ := arrayTree?_eq_some.1 h
  · exact Expr.legible_of_isLiteral rfl
  · exact Expr.legible_of_isLiteral rfl

mutual

theorem Derivation.legible {level : Level} {e : Expr} :
    ∀ d : Derivation level, d.tree? = some e → e.Legible
  | .tighter _ d, h => d.legible h
  | .group inner, h => inner.legible h
  | .binary left op _ right, h => by
    rw [Derivation.tree?] at h
    obtain ⟨l, hl, h⟩ := Option.bind_eq_some_iff.1 h
    obtain ⟨r, hr, h⟩ := Option.bind_eq_some_iff.1 h
    cases h
    exact Expr.legible_binary.2 ⟨left.legible hl, right.legible hr⟩
  | .negation operand, h => by
    rw [Derivation.tree?] at h
    obtain ⟨x, hx, h⟩ := Option.bind_eq_some_iff.1 h
    cases h
    exact Expr.legible_unary.2 (operand.legible hx)
  | .call function, h => by
    rw [Derivation.tree?] at h
    obtain ⟨f, hf, h⟩ := Option.bind_eq_some_iff.1 h
    cases h
    exact Expr.legible_call.2 ⟨function.legible hf, nofun⟩
  | .callWith function arguments, h => by
    rw [Derivation.tree?] at h
    obtain ⟨f, hf, h⟩ := Option.bind_eq_some_iff.1 h
    obtain ⟨as, ha, h⟩ := Option.bind_eq_some_iff.1 h
    cases h
    exact Expr.legible_call.2 ⟨function.legible hf, arguments.legible ha⟩
  | .numeral text, h => by
    obtain ⟨n, -, rfl⟩ := Option.map_eq_some_iff.1 h
    exact Expr.legible_of_isLiteral rfl
  | .array elements, h => legible_of_arrayTree? h
  | .name _, h => by
    cases h
    exact Expr.legible_identifier
  | .quotation _, h | .truth _, h => by
    cases h
    exact Expr.legible_of_isLiteral rfl

theorem Arguments.legible {es : List Expr} : ∀ as : Arguments, as.trees? = some es →
    ∀ e ∈ es, e.Legible
  | .one d, h => by
    rw [Arguments.trees?] at h
    obtain ⟨x, hx, h⟩ := Option.bind_eq_some_iff.1 h
    cases h
    exact List.forall_mem_singleton.2 (d.legible hx)
  | .snoc before d, h => by
    rw [Arguments.trees?] at h
    obtain ⟨xs, hxs, h⟩ := Option.bind_eq_some_iff.1 h
    obtain ⟨x, hx, h⟩ := Option.bind_eq_some_iff.1 h
    cases h
    exact List.forall_mem_append.2
      ⟨before.legible hxs, List.forall_mem_singleton.2 (d.legible hx)⟩

end

/-- A tree has a derivation from a level with the given words. -/
def Derives (level : Level) (tree : Expr) (words : List Word) : Prop :=
  ∃ d : Derivation level, d.words = words ∧ d.tree? = some tree

def DerivesAll (trees : List Expr) (words : List Word) : Prop :=
  ∃ as : Arguments, as.words = words ∧ as.trees? = some trees

/-- Whatever holds of a derivation and is kept by a looser level holds of one from any looser
level. -/
theorem Derivation.exists_loose {p : ∀ level, Derivation level → Prop}
    (keep : ∀ level (loose : level ≠ .atom) (d : Derivation level.tighter),
      p _ d → p level (.tighter loose d))
    {level other : Level} (h : ∃ d : Derivation level, p level d)
    (le : other.rank ≤ level.rank) : ∃ d : Derivation other, p other d := by
  induction k : level.rank - other.rank generalizing other with
  | zero =>
    obtain rfl : other = level := Level.rank_injective (by omega)
    exact h
  | succ k ih =>
    have loose : other ≠ .atom := by
      rintro rfl
      have hr := level.rank_le
      have ha : Level.atom.rank = 8 := rfl
      omega
    have hr := Level.rank_tighter loose
    obtain ⟨d, hd⟩ : ∃ d : Derivation other.tighter, p _ d := ih (by omega) (by omega)
    exact ⟨.tighter loose d, keep other loose d hd⟩

theorem Derives.loosen {level other : Level} {e : Expr} {ws : List Word} (h : Derives level e ws)
    (le : other.rank ≤ level.rank) : Derives other e ws :=
  Derivation.exists_loose (p := fun _ d => d.words = ws ∧ d.tree? = some e)
    (fun _ _ _ hd => hd) h le

theorem Derives.binary {level : Level} {l r : Expr} {us vs : List Word} {op : BinaryOp}
    (hl : Derives level l us) (known : op ∈ level.operators) (hr : Derives level.tighter r vs) :
    Derives level (.binary l op.text r) (us ++ .sign op :: vs) := by
  obtain ⟨dl, rfl, hl⟩ := hl
  obtain ⟨dr, rfl, hr⟩ := hr
  exact ⟨.binary dl op known dr, rfl, by rw [Derivation.tree?, hl, hr]; rfl⟩

theorem Derives.negation {e : Expr} {ws : List Word} (h : Derives .unary e ws) :
    Derives .unary (.unary UnaryOp.not.text e) (.bang :: ws) := by
  obtain ⟨d, rfl, h⟩ := h
  exact ⟨.negation d, rfl, by rw [Derivation.tree?, h]; rfl⟩

theorem Derives.call {f : Expr} {us : List Word} (hf : Derives .call f us) :
    Derives .call (.call f []) (us ++ [.leftParen, .rightParen]) := by
  obtain ⟨d, rfl, hf⟩ := hf
  exact ⟨.call d, rfl, by rw [Derivation.tree?, hf]; rfl⟩

theorem Derives.callWith {f : Expr} {es : List Expr} {us vs : List Word}
    (hf : Derives .call f us) (he : DerivesAll es vs) :
    Derives .call (.call f es) (us ++ .leftParen :: (vs ++ [.rightParen])) := by
  obtain ⟨d, rfl, hf⟩ := hf
  obtain ⟨as, rfl, he⟩ := he
  exact ⟨.callWith d as, rfl, by rw [Derivation.tree?, hf, he]; rfl⟩

theorem Derives.group {e : Expr} {ws : List Word} (h : Derives .logical e ws) :
    Derives .atom e (.leftParen :: (ws ++ [.rightParen])) := by
  obtain ⟨d, rfl, h⟩ := h
  exact ⟨.group d, rfl, h⟩

theorem DerivesAll.one {e : Expr} {ws : List Word} (h : Derives .logical e ws) :
    DerivesAll [e] ws := by
  obtain ⟨d, rfl, h⟩ := h
  exact ⟨.one d, rfl, by rw [Arguments.trees?, h]; rfl⟩

theorem DerivesAll.snoc {e : Expr} {es : List Expr} {us vs : List Word} (hb : DerivesAll es us)
    (h : Derives .logical e vs) : DerivesAll (es ++ [e]) (us ++ .comma :: vs) := by
  obtain ⟨as, rfl, hb⟩ := hb
  obtain ⟨d, rfl, h⟩ := h
  exact ⟨.snoc as d, rfl, by rw [Arguments.trees?, hb, h]; rfl⟩

end Grammar

end Criterion
