import Criterion.Expr
import Criterion.Parse.Stream

namespace Criterion.Parse

/-- The numbers that several tokens write, and the faults of those that write none. -/
def numbers : List Token → List Int × List Numeral.Fault
  | [] => ([], [])
  | t :: ts =>
    let (values, faults) := numbers ts
    match Numeral.read t.text with
    | .ok value => (value :: values, faults)
    | .error fault => (values, fault :: faults)

def arrayOf (elements : List Token) : Except (List Problem) Expr :=
  if elements.all (·.kind = .string) then .ok (.strings (elements.map (·.text)))
  else if elements.all (·.kind = .integer) then
    match numbers elements with
    | (values, []) => .ok (.integers values)
    | (_, faults) => .error (faults.map .numeral)
  else .error [.mixedArray elements]

/-- Reads the elements of an array, from the first on, and its closing bracket. -/
def elements (s : Stream) : Outcome (List Token) s :=
  if _ : s.kind = .integer ∨ s.kind = .string then
    let t := s.next
    if t.kind = .comma then
      let o := elements t.next
      ⟨o.result.map (s.current :: ·), o.complaints, o.after,
        Nat.le_trans o.left_le (Nat.le_trans t.left_next_le s.left_next_le)⟩
    else if t.kind = .rightBracket then
      .accept [s.current] t.next (Nat.le_trans t.left_next_le s.left_next_le)
    else
      ⟨none, [⟨t.position, .expected .rightBracket t.current⟩], skipPast .rightBracket t,
        Nat.le_trans (left_skipPast_le _ t) s.left_next_le⟩
  else
    ⟨none, [⟨s.position, .arrayElement s.current⟩], skipPast .rightBracket s,
      left_skipPast_le _ s⟩
termination_by s.left
decreasing_by
  have more : s.kind ≠ .endOfInput := fun e => by
    rcases ‹s.kind = .integer ∨ s.kind = .string› with h | h <;> simp [e] at h
  exact Nat.lt_of_le_of_lt s.next.left_next_le (Stream.left_next_lt more)

def array (s : Stream) : Outcome Expr s :=
  if s.kind = .rightBracket then .refuseToken .emptyArray
  else
    let o := elements s
    match o.result with
    | none => ⟨none, o.complaints, o.after, o.left_le⟩
    | some tokens =>
      match arrayOf tokens with
      | .ok e => ⟨some e, o.complaints, o.after, o.left_le⟩
      | .error problems =>
        ⟨none, o.complaints ++ problems.map (⟨o.after.position, ·⟩), o.after, o.left_le⟩

end Criterion.Parse
