import Criterion.Proofs.Grammar.Drafts

namespace Criterion.Grammar

inductive LiteralFault
  | numeral (fault : Numeral.Fault)
  | emptyArray
  | mixedArray (elements : List Element)
  deriving DecidableEq, Repr

namespace Element

def describe : Element → String
  | numeral text => "INT " ++ Text.quoted text
  | quotation content => "STRING " ++ Text.quoted content

def isQuotation : Element → Bool
  | numeral _ => false
  | quotation _ => true

def fault? : Element → Option LiteralFault
  | numeral text =>
    match Numeral.read text with
    | .ok _ => none
    | .error fault => some (.numeral fault)
  | quotation _ => none

theorem isQuotation_iff {e : Element} : e.isQuotation ↔ ∃ content, e = .quotation content := by
  cases e <;> simp [isQuotation]

theorem fault?_numeral {text : String} {f : LiteralFault} :
    (numeral text).fault? = some f ↔
      ∃ fault, Numeral.read text = .error fault ∧ f = .numeral fault := by
  cases h : Numeral.read text with
  | ok value => simp [fault?, h]
  | error fault => simp [fault?, h, eq_comm]

theorem fault?_numeral_eq_none {text : String} :
    (numeral text).fault? = none ↔ Readable text := by
  cases h : Numeral.read text with
  | ok value => simp [fault?, h, Readable]
  | error fault => simp [fault?, h, Readable]

theorem readable_iff {e : Element} :
    (∃ text, e = .numeral text ∧ Readable text) ↔ e.isQuotation = false ∧ e.fault? = none := by
  cases e with
  | numeral text => simp [isQuotation, fault?_numeral_eq_none]
  | quotation content => simp [isQuotation]

end Element

def LiteralFault.message : LiteralFault → String
  | numeral fault => fault.message
  | emptyArray => "empty array is not allowed"
  | mixedArray elements =>
    "mixed-type array literal [" ++ ", ".intercalate (elements.map Element.describe) ++ "]"

/-- The fault of an array of some elements. That they are not alike counts before what they are. -/
def arrayFault? (elements : List Element) : Option LiteralFault :=
  if elements = [] then some .emptyArray
  else if elements.all Element.isQuotation then none
  else if elements.all (!·.isQuotation) then elements.findSome? Element.fault?
  else some (.mixedArray elements)

theorem arrayFault?_map {α : Type} {element : α → Element} {isQuotation isNumeral : α → Bool}
    {xs : List α} (hq : ∀ x ∈ xs, (element x).isQuotation = isQuotation x)
    (hn : ∀ x ∈ xs, (!(element x).isQuotation) = isNumeral x) :
    arrayFault? (xs.map element) =
      if xs = [] then some .emptyArray
      else if xs.all isQuotation then none
      else if xs.all isNumeral then (xs.map element).findSome? Element.fault?
      else some (.mixedArray (xs.map element)) := by
  have quotations : (xs.map element).all Element.isQuotation = xs.all isQuotation := by
    rw [List.all_map, Bool.eq_iff_iff, List.all_eq_true, List.all_eq_true]
    exact forall₂_congr fun x hx => by rw [← hq x hx, Function.comp_apply]
  have numerals : (xs.map element).all (!·.isQuotation) = xs.all isNumeral := by
    rw [List.all_map, Bool.eq_iff_iff, List.all_eq_true, List.all_eq_true]
    exact forall₂_congr fun x hx => by rw [← hn x hx, Function.comp_apply]
  rw [arrayFault?, quotations, numerals]
  simp only [List.map_eq_nil_iff]

mutual

/-- The fault of the first literal, from left to right, that stands for no value. -/
def Derivation.fault? {level : Level} : Derivation level → Option LiteralFault
  | .tighter _ d => d.fault?
  | .binary left _ _ right => left.fault?.or right.fault?
  | .negation operand => operand.fault?
  | .call function => function.fault?
  | .callWith function arguments => function.fault?.or arguments.fault?
  | .numeral text => (Element.numeral text).fault?
  | .name _ | .quotation _ | .truth _ => none
  | .array elements => arrayFault? elements
  | .group inner => inner.fault?

def Arguments.fault? : Arguments → Option LiteralFault
  | .one d => d.fault?
  | .snoc before d => before.fault?.or d.fault?

end

theorem arrayFault?_eq_none {es : List Element} :
    arrayFault? es = none ↔ (Derivation.array es).Meaningful := by
  rw [arrayFault?, Derivation.Meaningful]
  by_cases some : es = []
  · simp [some]
  · have quotations : (∀ e ∈ es, ∃ content, e = .quotation content) ↔
        es.all Element.isQuotation := by
      simp [Element.isQuotation_iff]
    have numerals : (∀ e ∈ es, ∃ text, e = .numeral text ∧ Readable text) ↔
        es.all (!·.isQuotation) ∧ es.findSome? Element.fault? = none := by
      simp [Element.readable_iff, forall_and]
    rw [if_neg some, quotations, numerals]
    by_cases hq : es.all Element.isQuotation
    · simp [some, hq]
    · by_cases hn : es.all (!·.isQuotation)
      · rw [if_neg hq, if_pos hn]
        simp [some, hq, hn]
      · rw [if_neg hq, if_neg hn]
        simp [hq, hn]

mutual

/-- A derivation without a fault is a meaningful one. -/
theorem Derivation.fault?_eq_none {level : Level} :
    ∀ d : Derivation level, d.fault? = none ↔ d.Meaningful
  | .tighter _ d => d.fault?_eq_none
  | .binary left op _ right => by
    rw [Derivation.fault?, Derivation.Meaningful, Option.or_eq_none_iff, left.fault?_eq_none,
      right.fault?_eq_none]
  | .negation operand => operand.fault?_eq_none
  | .call function => function.fault?_eq_none
  | .callWith function arguments => by
    rw [Derivation.fault?, Derivation.Meaningful, Option.or_eq_none_iff, function.fault?_eq_none,
      arguments.fault?_eq_none]
  | .numeral text => Element.fault?_numeral_eq_none
  | .name _ => by simp [Derivation.fault?, Derivation.Meaningful]
  | .quotation _ => by simp [Derivation.fault?, Derivation.Meaningful]
  | .truth _ => by simp [Derivation.fault?, Derivation.Meaningful]
  | .array elements => arrayFault?_eq_none
  | .group inner => inner.fault?_eq_none

theorem Arguments.fault?_eq_none : ∀ as : Arguments, as.fault? = none ↔ as.Meaningful
  | .one d => d.fault?_eq_none
  | .snoc before d => by
    rw [Arguments.fault?, Arguments.Meaningful, Option.or_eq_none_iff, before.fault?_eq_none,
      d.fault?_eq_none]

end

theorem Derivation.exists_tree {level : Level} {d : Derivation level} (h : d.fault? = none) :
    ∃ e, d.tree? = some e :=
  Option.isSome_iff_exists.1 (d.isSome_tree?.2 (d.fault?_eq_none.1 h))

theorem Arguments.exists_trees {as : Arguments} (h : as.fault? = none) :
    ∃ es, as.trees? = some es :=
  Option.isSome_iff_exists.1 (as.isSome_trees?.2 (as.fault?_eq_none.1 h))

/-- An attempt ends because of a fault. -/
def Refuses {α : Type} (x : Except Refusal α) (f : LiteralFault) : Prop :=
  ∃ refusal, x = .error refusal ∧ refusal.message = f.message

theorem Refuses.bind {α β : Type} {x : Except Refusal α} {f : LiteralFault}
    {g : α → Except Refusal β} (h : Refuses x f) : Refuses (x >>= g) f := by
  obtain ⟨refusal, rfl, h⟩ := h
  exact ⟨refusal, rfl, h⟩

theorem Refuses.map {α β : Type} {x : Except Refusal α} {f : LiteralFault} (g : α → β)
    (h : Refuses x f) : Refuses (x.map g) f := by
  obtain ⟨refusal, rfl, h⟩ := h
  exact ⟨refusal, rfl, h⟩

/-- An attempt ends because of a fault, or of too deep a nesting. -/
def Fails {α : Type} (x : Except Refusal α) (f : LiteralFault) : Prop :=
  Refuses x f ∨ x = .error .nestedTooDeeply

theorem Fails.bind {α β : Type} {x : Except Refusal α} {f : LiteralFault} {g : α → Except Refusal β}
    (h : Fails x f) : Fails (x >>= g) f := by
  rcases h with ⟨refusal, rfl, h⟩ | rfl
  · exact .inl ⟨refusal, rfl, h⟩
  · exact .inr rfl

theorem Becomes.bind_fails {α β : Type} {x : Except Refusal α} {a : α} {f : LiteralFault}
    {g : α → Except Refusal β} (h : Becomes x a) (hg : Fails (g a) f) : Fails (x >>= g) f := by
  rcases h with rfl | rfl
  · exact hg
  · exact .inr rfl

theorem integerOf_refuses {text : String} {f : LiteralFault}
    (h : (Element.numeral text).fault? = some f) : Refuses (integerOf text) f := by
  obtain ⟨fault, hr, rfl⟩ := Element.fault?_numeral.1 h
  rw [integerOf, hr]
  exact ⟨.numeral fault, rfl, rfl⟩

theorem Lexeme.describe_element {l : Lexeme} (h : l.IsElement) :
    l.element.describe = l.describe := by
  rcases h with h | h
  · simp [element, describe, h, Element.describe, Terminal.label]
  · simp [element, describe, h, Element.describe, Terminal.label]

theorem Lexeme.isQuotation_element (l : Lexeme) :
    l.element.isQuotation = decide (l.terminal = .quotation) := by
  by_cases h : l.terminal = .quotation
  · simp [element, h, Element.isQuotation]
  · simp [element, h, Element.isQuotation]

theorem Lexeme.not_isQuotation_element {l : Lexeme} (h : l.IsElement) :
    (!l.element.isQuotation) = decide (l.terminal = .number) := by
  rw [isQuotation_element]
  rcases h with h | h
  · simp [h]
  · simp [h]

theorem mapM_integerOf_refuses {ls : List Lexeme} {f : LiteralFault}
    (h : ∀ l ∈ ls, l.terminal = .number)
    (hf : (ls.map Lexeme.element).findSome? Element.fault? = some f) :
    Refuses (ls.mapM fun l => integerOf l.text) f := by
  induction ls with
  | nil => cases hf
  | cons l ls ih =>
    obtain ⟨hl, hls⟩ := List.forall_mem_cons.1 h
    have he : l.element = .numeral l.text := by simp [Lexeme.element, hl]
    rw [List.map_cons, List.findSome?_cons, he] at hf
    rw [List.mapM_cons]
    cases hv : (Element.numeral l.text).fault? with
    | some f' =>
      rw [hv] at hf
      cases hf
      exact (integerOf_refuses hv).bind
    | none =>
      rw [hv] at hf
      obtain ⟨value, hr⟩ := Element.fault?_numeral_eq_none.1 hv
      rw [integerOf_eq_ok.2 hr]
      exact (ih hls hf).bind

theorem arrayOf_refuses {ls : List Lexeme} {f : LiteralFault} (hk : ∀ l ∈ ls, l.IsElement)
    (h : arrayFault? (ls.map Lexeme.element) = some f) : Refuses (arrayOf ls) f := by
  rw [arrayFault?_map (fun l _ => l.isQuotation_element)
    fun l hl => Lexeme.not_isQuotation_element (hk l hl)] at h
  split at h
  · next none =>
    subst none
    cases h
    exact ⟨.emptyArray, rfl, rfl⟩
  · next some =>
    rw [arrayOf, if_neg (by simpa using some)]
    split at h
    · cases h
    · next hq =>
      rw [if_neg hq]
      split at h
      · next hn =>
        rw [if_pos hn]
        exact (mapM_integerOf_refuses (by simpa using hn) h).map Expr.integers
      · next hn =>
        cases h
        rw [if_neg hn]
        refine ⟨.mixedArray ls, rfl, ?_⟩
        have described : ls.map Lexeme.describe = (ls.map Lexeme.element).map Element.describe := by
          rw [List.map_map]
          exact List.map_congr_left fun l hl => (Lexeme.describe_element (hk l hl)).symm
        exact congrArg (fun texts => "mixed-type array literal [" ++ ", ".intercalate texts ++ "]")
          described

mutual

/-- The draft of a derivation is refused for its fault, unless it is nested too deeply. -/
theorem Derivation.fails {level : Level} {draft : Draft} {f : LiteralFault} {room : Nat} :
    ∀ d : Derivation level, d.Drafts draft → d.fault? = some f → Free d.words →
      Fails (draft.resolve room) f
  | .tighter _ d, hd, h, free => d.fails hd h free
  | .group inner, hd, h, free => inner.fails hd h (free_append.1 ((free_cons rfl).1 free)).1
  | .binary left op _ right, hd, h, free => by
    obtain ⟨l, r, rfl, hl, hr⟩ := hd
    cases room with
    | zero => exact .inr rfl
    | succ room =>
      obtain ⟨freel, freer⟩ := free_append.1 free
      rw [Draft.resolve]
      rcases Option.or_eq_some_iff.1 h with h | ⟨none, h⟩
      · exact (left.fails hl h freel).bind
      · obtain ⟨e, he⟩ := Derivation.exists_tree none
        exact (left.becomes_tree hl he freel).bind_fails
          (right.fails hr h ((free_cons rfl).1 freer)).bind
  | .negation operand, hd, h, free => by
    obtain ⟨x, rfl, hx⟩ := hd
    cases room with
    | zero => exact .inr rfl
    | succ room =>
      rw [Draft.resolve]
      exact (operand.fails hx h ((free_cons rfl).1 free)).bind
  | .call function, hd, h, free => by
    obtain ⟨x, rfl, hx⟩ := hd
    cases room with
    | zero => exact .inr rfl
    | succ room =>
      rw [Draft.resolve]
      exact (function.fails hx h (free_append.1 free).1).bind
  | .callWith function arguments, hd, h, free => by
    obtain ⟨x, xs, rfl, hx, hxs⟩ := hd
    cases room with
    | zero => exact .inr rfl
    | succ room =>
      obtain ⟨freef, freea⟩ := free_append.1 free
      have freea' := (free_append.1 ((free_cons rfl).1 freea)).1
      rw [Draft.resolve]
      rcases Option.or_eq_some_iff.1 h with h | ⟨none, h⟩
      · exact (function.fails hx h freef).bind
      · obtain ⟨e, he⟩ := Derivation.exists_tree none
        exact (function.becomes_tree hx he freef).bind_fails (arguments.fails hxs h freea').bind
  | .numeral text, hd, h, free => by
    cases hd
    cases room with
    | zero => exact .inr rfl
    | succ room =>
      rw [Draft.resolve]
      exact .inl ((integerOf_refuses h).map Expr.integer)
  | .array elements, hd, h, free => by
    obtain ⟨ls, rfl, hw⟩ := hd
    cases room with
    | zero => exact .inr rfl
    | succ room =>
      obtain ⟨hk, rfl⟩ := Lexeme.elements_of_words hw
      exact .inl (arrayOf_refuses hk h)
  | .name _, _, h, _ => by cases h
  | .quotation _, _, h, _ => by cases h
  | .truth _, _, h, _ => by cases h

theorem Arguments.fails {drafts : List Draft} {f : LiteralFault} {room : Nat} :
    ∀ as : Arguments, as.Drafts drafts → as.fault? = some f → Free as.words →
      Fails (resolveAll room drafts) f
  | .one d, hd, h, free => by
    obtain ⟨x, rfl, hx⟩ := hd
    rw [resolveAll]
    exact (d.fails hx h free).bind
  | .snoc before d, hd, h, free => by
    obtain ⟨xs, x, rfl, hxs, hx⟩ := hd
    obtain ⟨freeb, freed⟩ := free_append.1 free
    rw [resolveAll_concat]
    rcases Option.or_eq_some_iff.1 h with h | ⟨none, h⟩
    · exact (before.fails hxs h freeb).bind
    · obtain ⟨es, hes⟩ := Arguments.exists_trees none
      exact (before.becomes_trees hxs hes freeb).bind_fails
        (d.fails hx h ((free_cons rfl).1 freed)).bind

end

end Criterion.Grammar
