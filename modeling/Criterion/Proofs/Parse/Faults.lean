import Criterion.Proofs.Grammar.Faults
import Criterion.Proofs.Parse.Completeness

namespace Criterion

open Grammar

def Parse.Blames (complaints : List Parse.Complaint) (f : LiteralFault) : Prop :=
  ∃ c cs, complaints = c :: cs ∧ c.problem.message = f.message

theorem Token.describe_element {t : Token} (h : t.IsElement) : t.element.describe = t.describe := by
  rcases h with h | h
  · simp [element, describe, h, Element.describe, TokenKind.label]
  · simp [element, describe, h, Element.describe, TokenKind.label]

theorem Token.isQuotation_element (t : Token) :
    t.element.isQuotation = decide (t.kind = .string) := by
  by_cases h : t.kind = .string
  · simp [element, h, Element.isQuotation]
  · simp [element, h, Element.isQuotation]

theorem Token.not_isQuotation_element {t : Token} (h : t.IsElement) :
    (!t.element.isQuotation) = decide (t.kind = .integer) := by
  rw [isQuotation_element]
  rcases h with h | h
  · simp [h]
  · simp [h]

namespace Parse

variable {s : Stream} {room floor : Nat} {rest : List Word} {f : LiteralFault}

theorem Blames.append {cs : List Complaint} (h : Blames cs f) (ds : List Complaint) :
    Blames (cs ++ ds) f := by
  obtain ⟨c, cs, rfl, hc⟩ := h
  exact ⟨c, cs ++ ds, rfl, hc⟩

theorem numbers_blamed {ts : List Token} (h : ∀ t ∈ ts, t.kind = .integer)
    (hf : (ts.map Token.element).findSome? Element.fault? = some f) :
    ∃ fault faults, (numbers ts).2 = fault :: faults ∧ f = .numeral fault := by
  induction ts with
  | nil => cases hf
  | cons t ts ih =>
    obtain ⟨ht, hts⟩ := List.forall_mem_cons.1 h
    have he : t.element = .numeral t.text := by simp [Token.element, ht]
    rw [List.map_cons, List.findSome?_cons, he] at hf
    rw [numbers]
    cases hv : (Element.numeral t.text).fault? with
    | some f' =>
      rw [hv] at hf
      cases hf
      obtain ⟨fault, hr, rfl⟩ := Element.fault?_numeral.1 hv
      rw [hr]
      exact ⟨fault, _, rfl, rfl⟩
    | none =>
      rw [hv] at hf
      obtain ⟨value, hr⟩ := Element.fault?_numeral_eq_none.1 hv
      rw [hr]
      exact ih hts hf

theorem arrayOf_blamed {ts : List Token} (nonempty : ts ≠ []) (hk : ∀ t ∈ ts, t.IsElement)
    (h : arrayFault? (ts.map Token.element) = some f) :
    ∃ p ps, arrayOf ts = .error (p :: ps) ∧ p.message = f.message := by
  rw [arrayFault?_map (fun t _ => t.isQuotation_element)
    fun t ht => Token.not_isQuotation_element (hk t ht), if_neg nonempty] at h
  rw [arrayOf]
  split at h
  · cases h
  · next hq =>
    rw [if_neg hq]
    split at h
    · next hn =>
      rw [if_pos hn]
      obtain ⟨fault, faults, hf, rfl⟩ := numbers_blamed (by simpa using hn) h
      cases hv : Parse.numbers ts with
      | mk values more =>
        rw [hv] at hf
        cases hf
        exact ⟨.numeral fault, faults.map .numeral, rfl, rfl⟩
    · next hn =>
      rw [if_neg hn]
      cases h
      have described : ts.map Token.describe = (ts.map Token.element).map Element.describe := by
        rw [List.map_map]
        exact List.map_congr_left fun t ht => (Token.describe_element (hk t ht)).symm
      refine ⟨.mixedArray ts, [], rfl, ?_⟩
      exact congrArg (fun texts => "mixed-type array literal [" ++ ", ".intercalate texts ++ "]")
        described

theorem array_blamed {es : List Element} (hf : arrayFault? es = some f)
    (hw : s.words = listed es ++ .rightBracket :: rest) : Blames (array s).complaints f := by
  by_cases some : es = []
  · subst some
    cases hf
    have hb : s.kind = .rightBracket := Stream.kind_of_words hw (by decide)
    rw [array, if_pos hb]
    exact ⟨_, [], rfl, rfl⟩
  · obtain ⟨ts, hr, hc, -, hk, rfl⟩ := elements_complete some hw
    obtain ⟨p, ps, ha, hp⟩ := arrayOf_blamed (by simpa using some) hk hf
    rw [array, if_neg (kind_ne_rightBracket some hw)]
    simp only [hr, hc, ha]
    exact ⟨⟨_, p⟩, _, rfl, hp⟩

/-- What is complained about in an operand comes first in an expression that starts with it. -/
theorem blames_of_operand (start : s.kind.startsOperand)
    (h : ∀ room', Shallow (operand room' s).complaints → Blames (operand room' s).complaints f)
    (shallow : Shallow (expression room floor s).complaints) :
    Blames (expression room floor s).complaints f := by
  obtain ⟨room, rfl⟩ := expression_of_shallow shallow
  rw [expression_of_start start] at shallow ⊢
  exact (h room (shallow_append.1 shallow).1).append _

end Parse

namespace Grammar

open Parse

variable {level : Level}

/-- Where a derivation is at fault, its reading complains about that fault first. -/
def Derivation.Blamed (d : Derivation level) : Prop :=
  ∀ f, d.fault? = some f → ∀ room floor (s : Stream) rest, s.words = d.words ++ rest →
    floor ≤ level.ceiling → Shallow (expression room floor s).complaints →
    Blames (expression room floor s).complaints f

def Arguments.Blamed (as : Arguments) : Prop :=
  ∀ f, as.fault? = some f → ∀ room (s : Stream) rest, s.words = as.words ++ rest →
    Shallow (arguments room s).complaints → Blames (arguments room s).complaints f

theorem Derivation.Blamed.tighter {d : Derivation level.tighter} (h : d.Blamed)
    (loose : level ≠ .atom) : (Derivation.tighter loose d).Blamed := by
  intro f hf room floor s rest hw hfloor shallow
  exact h f hf room floor s rest hw (Nat.le_trans hfloor level.ceiling_le_tighter) shallow

theorem Derivation.Blamed.binary {left : Derivation level} {right : Derivation level.tighter}
    {op : BinaryOp} (hl : left.Blamed) (hr : right.Blamed) (known : op ∈ level.operators) :
    (Derivation.binary left op known right).Blamed := by
  intro f hf room floor s rest hw hfloor shallow
  have hw' : s.words = left.words ++ (.sign op :: (right.words ++ rest)) := by
    simpa [words] using hw
  rcases Option.or_eq_some_iff.1 hf with hf | ⟨none, hf⟩
  · exact hl f hf room floor s _ hw' hfloor shallow
  · -- The left operand is read without complaint, and the right one is at fault.
    obtain ⟨-, -, hhigh⟩ := Level.ceiling_of_operator known
    obtain ⟨e, he⟩ := Derivation.exists_tree none
    obtain ⟨room', t, rfl, ht, -, hc, -⟩ := left.read.operator he known hw' hfloor shallow
    rw [hc] at shallow ⊢
    exact (hr f hf room' _ t rest ht hhigh (shallow_append.1 shallow).1).append _

theorem Derivation.Blamed.negation {operand : Derivation .unary} (h : operand.Blamed) :
    (Derivation.negation operand).Blamed := by
  intro f hf room floor s rest hw hfloor
  have hk : s.kind = .bang := Stream.kind_of_words hw (by decide)
  apply blames_of_operand (by rw [hk]; rfl)
  intro room' shallow
  rw [operand_bang hk] at shallow ⊢
  exact h f hf room' _ s.next rest (Stream.words_eq_cons hw).2.2 (Nat.le_refl Precedence.unary)
    shallow

theorem Derivation.Blamed.group {inner : Derivation .logical} (h : inner.Blamed) :
    (Derivation.group inner).Blamed := by
  intro f hf room floor s rest hw hfloor
  have hk : s.kind = .leftParen := Stream.kind_of_words hw (by decide)
  have hw' : s.next.words = inner.words ++ .rightParen :: rest := by
    simpa using (Stream.words_eq_cons hw).2.2
  apply blames_of_operand (by rw [hk]; rfl)
  intro room' shallow
  rw [operand_leftParen hk] at shallow ⊢
  exact (h f hf room' _ s.next _ hw' (Nat.le_refl Precedence.lowest)
    (shallow_append.1 shallow).1).append _

theorem Derivation.Blamed.array (elements : List Element) :
    (Derivation.array elements).Blamed := by
  intro f hf room floor s rest hw hfloor
  have hk : s.kind = .leftBracket := Stream.kind_of_words hw (by decide)
  have hw' : s.next.words = listed elements ++ .rightBracket :: rest := by
    simpa [listed] using (Stream.words_eq_cons hw).2.2
  apply blames_of_operand (by rw [hk]; rfl)
  intro room' _
  rw [operand_leftBracket hk]
  exact array_blamed hf hw'

theorem Derivation.blamed_numeral (text : String) : (Derivation.numeral text).Blamed := by
  intro f hf room floor s rest hw hfloor
  obtain ⟨hk, ht⟩ := Token.word_eq_numeral.1 (Stream.words_eq_cons hw).2.1
  have hk : s.kind = .integer := hk
  obtain ⟨fault, hr, rfl⟩ := Element.fault?_numeral.1 hf
  apply blames_of_operand (by rw [hk]; rfl)
  intro room' _
  rw [operand_integer hk, integer, ht, hr]
  exact ⟨_, [], rfl, rfl⟩

theorem Derivation.Blamed.call {function : Derivation .call} (h : function.Blamed) :
    (Derivation.call function).Blamed := by
  intro f hf room floor s rest hw hfloor shallow
  have hw' : s.words = function.words ++ (.leftParen :: .rightParen :: rest) := by
    simpa [words] using hw
  exact h f hf room floor s _ hw' hfloor shallow

theorem Derivation.Blamed.callWith {function : Derivation .call} {arguments : Arguments}
    (h : function.Blamed) (ha : arguments.Blamed) :
    (Derivation.callWith function arguments).Blamed := by
  intro f hf room floor s rest hw hfloor shallow
  have hw' : s.words =
      function.words ++ (.leftParen :: (arguments.words ++ .rightParen :: rest)) := by
    simpa [words] using hw
  rcases Option.or_eq_some_iff.1 hf with hf | ⟨none, hf⟩
  · exact h f hf room floor s _ hw' hfloor shallow
  · obtain ⟨e, he⟩ := Derivation.exists_tree none
    obtain ⟨room', t, rfl, ht, -, hc, -⟩ := function.read.opening he hw' hfloor shallow
    rw [hc] at shallow ⊢
    exact (ha f hf room' t _ ht (shallow_append.1 shallow).1).append _

theorem Arguments.Blamed.one {d : Derivation .logical} (h : d.Blamed) :
    (Arguments.one d).Blamed := by
  intro f hf room s rest hw shallow
  rw [arguments_of_more (d.kind_ne_rightParen hw)] at shallow ⊢
  exact (h f hf room _ s rest hw (Nat.le_refl Precedence.lowest)
    (shallow_append.1 shallow).1).append _

theorem Arguments.Blamed.snoc {before : Arguments} {d : Derivation .logical} (hb : before.Blamed)
    (h : d.Blamed) : (Arguments.snoc before d).Blamed := by
  intro f hf room s rest hw shallow
  have hw' : s.words = before.words ++ (.comma :: (d.words ++ rest)) := by
    simpa [words] using hw
  rcases Option.or_eq_some_iff.1 hf with hf | ⟨none, hf⟩
  · exact hb f hf room s _ hw' shallow
  · obtain ⟨es, hes⟩ := Arguments.exists_trees none
    obtain ⟨t, ht, -, hc, -⟩ := before.read es hes room s _ hw' rfl shallow
    rw [hc, moreArguments_of_comma (Stream.kind_of_words ht (by decide))] at shallow ⊢
    exact (h f hf room _ t.next rest (Stream.words_eq_cons ht).2.2 (Nat.le_refl Precedence.lowest)
      (shallow_append.1 shallow).1).append _

mutual

theorem Derivation.blamed {level : Level} : ∀ d : Derivation level, d.Blamed
  | .tighter loose d => d.blamed.tighter loose
  | .binary left _ known right => left.blamed.binary right.blamed known
  | .negation operand => operand.blamed.negation
  | .call function => function.blamed.call
  | .callWith function arguments => function.blamed.callWith arguments.blamed
  | .numeral text => Derivation.blamed_numeral text
  | .name _ | .quotation _ | .truth _ => by
    intro f hf
    cases hf
  | .array elements => .array elements
  | .group inner => inner.blamed.group

theorem Arguments.blamed : ∀ as : Arguments, as.Blamed
  | .one d => .one d.blamed
  | .snoc before d => .snoc before.blamed d.blamed

end

end Grammar

end Criterion
