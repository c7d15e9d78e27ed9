import Criterion.Parse.Array

namespace Criterion

def TokenKind.startsOperand : TokenKind → Bool
  | identifier | integer | string | trueWord | falseWord | leftBracket | bang | leftParen => true
  | _ => false

namespace Parse

def noOperand (t : Token) : Problem := if t.kind = .illegal then .illegal t else .noOperand t.kind

def integer (s : Stream) : Outcome Expr s :=
  match Numeral.read s.current.text with
  | .ok value => .accept (.integer value) s.next s.left_next_le
  | .error fault => .refuseToken (.numeral fault)

mutual

/-- Reads an expression whose operators bind more tightly than `floor`, with `room` levels of
nesting left. -/
def expression (room floor : Nat) (s : Stream) : Outcome Expr s :=
  match room with
  | 0 => .refuseToken .nestedTooDeeply
  | room + 1 =>
    if s.kind.startsOperand then
      let o := operand room s
      (operators room floor o.result o.after).following o.complaints o.left_le
    else .refuseToken (noOperand s.current)
termination_by (s.left, 2)
decreasing_by
  · exact .right _ (by decide)
  · exact .right' _ o.left_le (by decide)

/-- Reads an operand: what stands before the first operator. -/
def operand (room : Nat) (s : Stream) : Outcome Expr s :=
  match _ : s.kind with
  | .identifier => .accept (.identifier s.current.text) s.next s.left_next_le
  | .integer => integer s
  | .string => .accept (.string s.current.text) s.next s.left_next_le
  | .trueWord => .accept (.boolean true) s.next s.left_next_le
  | .falseWord => .accept (.boolean false) s.next s.left_next_le
  | .leftBracket => (array s.next).following [] s.left_next_le
  | .bang =>
    let o := expression room Precedence.unary s.next
    ⟨o.result.map (.unary UnaryOp.not.text), o.complaints, o.after,
      Nat.le_trans o.left_le s.left_next_le⟩
  | .leftParen =>
    let o := expression room Precedence.lowest s.next
    let closing := expect .rightParen o.after
    ⟨closing.result.bind fun _ => o.result, o.complaints ++ closing.complaints, closing.after,
      Nat.le_trans closing.left_le (Nat.le_trans o.left_le s.left_next_le)⟩
  | _ => .refuseToken (noOperand s.current)
termination_by (s.left, 1)
decreasing_by all_goals exact .left _ _ (Stream.left_next_lt (by simp [*]))

/-- Reads the operators after an operand that bind more tightly than `floor`. Where the operand is
missing they are passed over with what follows them. -/
def operators (room floor : Nat) (left : Option Expr) (s : Stream) : Outcome Expr s :=
  if _ : s.kind ≠ .endOfInput ∧ floor < s.kind.precedence then
    match left with
    | none =>
      let o := expression room s.next.kind.precedence s.next
      (operators room floor none o.after).following o.complaints
        (Nat.le_trans o.left_le s.left_next_le)
    | some l =>
      match s.kind.binaryOp? with
      | some op =>
        let o := expression room op.precedence s.next
        (operators room floor (o.result.map (.binary l op.text)) o.after).following o.complaints
          (Nat.le_trans o.left_le s.left_next_le)
      | none =>
        let o := arguments room s.next
        (operators room floor (o.result.map (.call l)) o.after).following o.complaints
          (Nat.le_trans o.left_le s.left_next_le)
  else ⟨left, [], s, Nat.le_refl _⟩
termination_by (s.left, 0)
decreasing_by
  all_goals
    have shorter := Stream.left_next_lt (‹s.kind ≠ .endOfInput ∧ _›).1
    first
    | exact .left _ _ shorter
    | exact .left _ _ (Nat.lt_of_le_of_lt o.left_le shorter)

def arguments (room : Nat) (s : Stream) : Outcome (List Expr) s :=
  if s.kind = .rightParen then .accept [] s.next s.left_next_le
  else
    let o := expression room Precedence.lowest s
    let more := moreArguments room o.after
    ⟨o.result.bind fun e => more.result.map (e :: ·), o.complaints ++ more.complaints, more.after,
      Nat.le_trans more.left_le o.left_le⟩
termination_by (s.left, 3)
decreasing_by
  · exact .right _ (by decide)
  · exact .right' _ o.left_le (by decide)

def moreArguments (room : Nat) (s : Stream) : Outcome (List Expr) s :=
  if _ : s.kind = .comma then
    let o := expression room Precedence.lowest s.next
    let more := moreArguments room o.after
    ⟨o.result.bind fun e => more.result.map (e :: ·), o.complaints ++ more.complaints, more.after,
      Nat.le_trans more.left_le (Nat.le_trans o.left_le s.left_next_le)⟩
  else
    let closing := expect .rightParen s
    ⟨closing.result.map fun _ => [], closing.complaints, closing.after, closing.left_le⟩
termination_by (s.left, 0)
decreasing_by
  all_goals have shorter := s.left_next_lt (by simp [*])
  · exact .left _ _ shorter
  · exact .left _ _ (Nat.lt_of_le_of_lt o.left_le shorter)

end

/-- Complaints up to the first about nesting, with which a parser gives up. -/
def upToNesting : List Complaint → List Complaint
  | [] => []
  | c :: cs => if c.problem = .nestedTooDeeply then [c] else c :: upToNesting cs

/-- Reads tokens as one expression and nothing else: the expression, where one is left to speak of,
and the complaints. -/
def program [Nesting] (tokens : List Token) : Option Expr × List Complaint :=
  let s := Stream.start tokens
  if s.kind = .endOfInput then (none, [⟨s.position, .empty⟩])
  else
    let o := expression Nesting.limit Precedence.lowest s
    if o.complaints.any (·.problem = .nestedTooDeeply) then (none, upToNesting o.complaints)
    else if o.after.kind = .endOfInput then (o.result, o.complaints)
    else (o.result, o.complaints ++ [⟨o.after.position, .trailing o.after.current⟩])

end Parse

end Criterion
