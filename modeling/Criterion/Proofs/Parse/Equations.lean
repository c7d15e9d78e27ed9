import Criterion.Parse.Expression

namespace Criterion.Parse

variable {s : Stream} {room floor : Nat}

theorem expression_of_start (h : s.kind.startsOperand) :
    expression (room + 1) floor s =
      (operators room floor (operand room s).result (operand room s).after).following
        (operand room s).complaints (operand room s).left_le := by
  rw [expression]
  simp only [h, if_true]

theorem expression_of_no_start (h : ¬ s.kind.startsOperand) :
    expression (room + 1) floor s = .refuseToken (noOperand s.current) := by
  rw [expression]
  simp only [h, if_false, Bool.false_eq_true]

theorem operators_stop {left : Option Expr}
    (h : ¬ (s.kind ≠ .endOfInput ∧ floor < s.kind.precedence)) :
    operators room floor left s = ⟨left, [], s, Nat.le_refl _⟩ := by
  rw [operators.eq_def, dif_neg h]

theorem operators_missing (h : s.kind ≠ .endOfInput ∧ floor < s.kind.precedence) :
    operators room floor none s =
      (operators room floor none (expression room s.next.kind.precedence s.next).after).following
        (expression room s.next.kind.precedence s.next).complaints
        (Nat.le_trans (expression room s.next.kind.precedence s.next).left_le s.left_next_le) := by
  rw [operators, dif_pos h]

theorem operators_binary {l : Expr} {op : BinaryOp}
    (h : s.kind ≠ .endOfInput ∧ floor < s.kind.precedence) (hop : s.kind.binaryOp? = some op) :
    operators room floor (some l) s =
      (operators room floor
        ((expression room op.precedence s.next).result.map (.binary l op.text))
        (expression room op.precedence s.next).after).following
        (expression room op.precedence s.next).complaints
        (Nat.le_trans (expression room op.precedence s.next).left_le s.left_next_le) := by
  rw [operators, dif_pos h]
  simp only
  split
  · next op' hop' =>
    cases hop.symm.trans hop'
    rfl
  · next hop' => cases hop.symm.trans hop'

theorem operators_call {l : Expr}
    (h : s.kind ≠ .endOfInput ∧ floor < s.kind.precedence) (hop : s.kind.binaryOp? = none) :
    operators room floor (some l) s =
      (operators room floor ((arguments room s.next).result.map (.call l))
        (arguments room s.next).after).following (arguments room s.next).complaints
        (Nat.le_trans (arguments room s.next).left_le s.left_next_le) := by
  rw [operators, dif_pos h]
  simp only
  split
  · next op' hop' => cases hop.symm.trans hop'
  · rfl

theorem operand_identifier (h : s.kind = .identifier) :
    operand room s = .accept (.identifier s.current.text) s.next s.left_next_le := by
  rw [operand]
  split <;> simp_all

theorem operand_integer (h : s.kind = .integer) : operand room s = integer s := by
  rw [operand]
  split <;> simp_all

theorem operand_string (h : s.kind = .string) :
    operand room s = .accept (.string s.current.text) s.next s.left_next_le := by
  rw [operand]
  split <;> simp_all

theorem operand_trueWord (h : s.kind = .trueWord) :
    operand room s = .accept (.boolean true) s.next s.left_next_le := by
  rw [operand]
  split <;> simp_all

theorem operand_falseWord (h : s.kind = .falseWord) :
    operand room s = .accept (.boolean false) s.next s.left_next_le := by
  rw [operand]
  split <;> simp_all

theorem operand_leftBracket (h : s.kind = .leftBracket) :
    operand room s = (array s.next).following [] s.left_next_le := by
  rw [operand]
  split <;> simp_all

theorem operand_bang (h : s.kind = .bang) :
    operand room s =
      ⟨(expression room Precedence.unary s.next).result.map (.unary UnaryOp.not.text),
        (expression room Precedence.unary s.next).complaints,
        (expression room Precedence.unary s.next).after,
        Nat.le_trans (expression room Precedence.unary s.next).left_le s.left_next_le⟩ := by
  rw [operand]
  split <;> simp_all

theorem operand_leftParen (h : s.kind = .leftParen) :
    operand room s =
      let o := expression room Precedence.lowest s.next
      let closing := expect .rightParen o.after
      ⟨closing.result.bind fun _ => o.result, o.complaints ++ closing.complaints, closing.after,
        Nat.le_trans closing.left_le (Nat.le_trans o.left_le s.left_next_le)⟩ := by
  rw [operand]
  split <;> simp_all

theorem not_startsOperand {kind : TokenKind} (identifier : kind ≠ .identifier)
    (integer : kind ≠ .integer) (string : kind ≠ .string) (trueWord : kind ≠ .trueWord)
    (falseWord : kind ≠ .falseWord) (leftBracket : kind ≠ .leftBracket) (bang : kind ≠ .bang)
    (leftParen : kind ≠ .leftParen) : ¬ kind.startsOperand := by
  cases kind <;> simp_all [TokenKind.startsOperand]

theorem operand_of_no_start (h : ¬ s.kind.startsOperand) :
    operand room s = .refuseToken (noOperand s.current) := by
  rw [operand]
  split <;> simp_all [TokenKind.startsOperand]

theorem arguments_of_end (h : s.kind = .rightParen) :
    arguments room s = .accept [] s.next s.left_next_le := by
  rw [arguments, if_pos h]

theorem arguments_of_more (h : s.kind ≠ .rightParen) :
    arguments room s =
      let o := expression room Precedence.lowest s
      let more := moreArguments room o.after
      ⟨o.result.bind fun e => more.result.map (e :: ·), o.complaints ++ more.complaints, more.after,
        Nat.le_trans more.left_le o.left_le⟩ := by
  rw [arguments, if_neg h]

theorem moreArguments_of_comma (h : s.kind = .comma) :
    moreArguments room s =
      let o := expression room Precedence.lowest s.next
      let more := moreArguments room o.after
      ⟨o.result.bind fun e => more.result.map (e :: ·), o.complaints ++ more.complaints, more.after,
        Nat.le_trans more.left_le (Nat.le_trans o.left_le s.left_next_le)⟩ := by
  rw [moreArguments, dif_pos h]

theorem moreArguments_of_end (h : s.kind ≠ .comma) :
    moreArguments room s =
      let closing := expect .rightParen s
      ⟨closing.result.map fun _ => [], closing.complaints, closing.after, closing.left_le⟩ := by
  rw [moreArguments, dif_neg h]

theorem expect_of_kind {wanted : TokenKind} (h : s.kind = wanted) :
    expect wanted s = .accept () s.next s.left_next_le := by
  rw [expect, if_pos h]

theorem moreArguments_of_rightParen (h : s.kind = .rightParen) :
    moreArguments room s = .accept [] s.next s.left_next_le := by
  rw [moreArguments_of_end (by simp [h])]
  simp only [expect_of_kind h]
  rfl

theorem expect_of_other {wanted : TokenKind} (h : s.kind ≠ wanted) :
    expect wanted s = .refuse (.expected wanted s.current) := by
  rw [expect, if_neg h]

end Criterion.Parse
