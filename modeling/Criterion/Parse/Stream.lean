import Criterion.Numeral
import Criterion.Token

namespace Criterion.Parse

/-- The tokens from some position on. -/
structure Stream where
  position : Nat
  rest : List Token
  deriving DecidableEq, Repr

namespace Stream

def start (tokens : List Token) : Stream := ⟨0, tokens⟩

/-- The token at the front, or the end token where none is left. -/
def current (s : Stream) : Token := s.rest.head?.getD .finish

def kind (s : Stream) : TokenKind := s.current.kind

/-- The stream past its front token; one without tokens moves on all the same. -/
def next (s : Stream) : Stream := ⟨s.position + 1, s.rest.tail⟩

def left (s : Stream) : Nat := s.rest.length

theorem left_next_le (s : Stream) : s.next.left ≤ s.left := by
  simp only [left, next, List.length_tail]
  omega

theorem left_next_lt {s : Stream} (h : s.kind ≠ .endOfInput) : s.next.left < s.left := by
  rcases s with ⟨_, _ | ⟨_, _⟩⟩
  · exact absurd rfl h
  · exact Nat.lt_succ_self _

end Stream

inductive Problem
  | empty
  | illegal (t : Token)
  | noOperand (kind : TokenKind)
  | expected (wanted : TokenKind) (found : Token)
  | trailing (t : Token)
  | emptyArray
  | arrayElement (found : Token)
  | mixedArray (elements : List Token)
  | numeral (fault : Numeral.Fault)
  | nestedTooDeeply
  deriving DecidableEq, Repr

def Problem.message : Problem → String
  | .empty => "empty condition expression"
  | .illegal t =>
    "illegal token " ++ Text.quoted t.text ++ " at line " ++ Text.decimal t.line ++ ", col " ++
      Text.decimal t.column
  | .noOperand kind => "no prefix parse function for " ++ kind.label ++ " found"
  | .expected wanted found =>
    "expected next token to be " ++ wanted.label ++ ", got " ++ found.describe ++ " instead"
  | .trailing t => "unexpected token " ++ t.describe ++ " after expression"
  | .emptyArray => "empty array is not allowed"
  | .arrayElement found => "unknown array element type " ++ found.describe
  | .mixedArray elements =>
    "mixed-type array literal [" ++ ", ".intercalate (elements.map Token.describe) ++ "]"
  | .numeral fault => fault.message
  | .nestedTooDeeply => "expression nested too deeply"

/-- A problem, with the position that the parser was at when it noticed. -/
structure Complaint where
  position : Nat
  problem : Problem
  deriving DecidableEq, Repr

/-- What reading a part of a stream comes to: its result, unless something was wrong with it, the
complaints made, and the stream after it, in which no more tokens are left than before. -/
structure Outcome (α : Type) (s : Stream) where
  result : Option α
  complaints : List Complaint
  after : Stream
  left_le : after.left ≤ s.left

namespace Outcome

variable {α : Type} {s : Stream}

def refuse (problem : Problem) : Outcome α s :=
  ⟨none, [⟨s.position, problem⟩], s, Nat.le_refl _⟩

def refuseToken (problem : Problem) : Outcome α s :=
  ⟨none, [⟨s.position, problem⟩], s.next, s.left_next_le⟩

def accept (a : α) (after : Stream) (h : after.left ≤ s.left) : Outcome α s :=
  ⟨some a, [], after, h⟩

/-- The outcome as that of a stream from which another part was read first, with the complaints
about that part. -/
def following {t : Stream} (o : Outcome α t) (complaints : List Complaint) (h : t.left ≤ s.left) :
    Outcome α s :=
  ⟨o.result, complaints ++ o.complaints, o.after, Nat.le_trans o.left_le h⟩

end Outcome

def expect (wanted : TokenKind) (s : Stream) : Outcome Unit s :=
  if s.kind = wanted then .accept () s.next s.left_next_le
  else .refuse (.expected wanted s.current)

/-- The stream past the next token of a kind, or where it ends if there is none before the end
token. -/
def skipPast (kind : TokenKind) (s : Stream) : Stream :=
  if s.kind = .endOfInput then s
  else if s.kind = kind then s.next
  else skipPast kind s.next
termination_by s.left
decreasing_by exact Stream.left_next_lt ‹_›

theorem left_skipPast_le (kind : TokenKind) (s : Stream) : (skipPast kind s).left ≤ s.left := by
  induction s using skipPast.induct kind with
  | case1 s h => simp [skipPast, h]
  | case2 s h hk =>
    rw [skipPast, if_neg h, if_pos hk]
    exact s.left_next_le
  | case3 s h hk ih =>
    rw [skipPast, if_neg h, if_neg hk]
    exact Nat.le_trans ih s.left_next_le

end Criterion.Parse
