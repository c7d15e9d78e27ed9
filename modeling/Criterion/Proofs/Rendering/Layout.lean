import Criterion.Expr.Text
import Criterion.Token.Scan
import Criterion.Word

namespace Criterion

/-- A text that names something: a run of letters with no meaning of its own. -/
def IsName (text : String) : Prop :=
  text ≠ "" ∧ (∀ c ∈ text.toList, isLetter c) ∧ text ∉ keywords.map Prod.fst ∧ text ∉ reservedWords

def Quotable (s : String) : Prop := Text.quotationMark ∉ s.toList

def Writable (n : Int) : Prop := 0 ≤ n ∧ n ≤ Word.maximum

theorem IsName.ofWord {text : String} (h : IsName text) : TokenKind.ofWord text = .identifier := by
  obtain ⟨-, -, keyword, reserved⟩ := h
  have none : keywords.lookup text = none := by
    rw [List.lookup_eq_none_iff]
    intro entry he
    exact bne_iff_ne.2 fun hn => keyword (List.mem_map.2 ⟨entry, he, hn.symm⟩)
  rw [TokenKind.ofWord, none]
  exact if_neg (by simpa using reserved)

namespace Expr

theorem toList_unary (op : String) (operand : Expr) :
    (unary op operand).text.toList = '(' :: (op.toList ++ (operand.text.toList ++ [')'])) := by
  simp [text]

theorem toList_binary (left : Expr) (op : String) (right : Expr) :
    (binary left op right).text.toList =
      '(' :: (left.text.toList ++ ' ' :: (op.toList ++ ' ' :: (right.text.toList ++ [')']))) := by
  simp [text]

theorem toList_call (function : Expr) (arguments : List Expr) :
    (call function arguments).text.toList =
      function.text.toList ++ '(' :: ((", ".intercalate (texts arguments)).toList ++ [')']) := by
  rw [text]
  simp only [String.toList_append, List.append_assoc]
  rfl

theorem toList_array (listing : String) :
    ("[" ++ listing ++ "]").toList = '[' :: (listing.toList ++ [']']) := by
  simp only [String.toList_append, List.append_assoc]
  rfl

end Expr

end Criterion
