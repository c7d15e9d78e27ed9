import Criterion.Proofs.Parse.Equations

namespace Criterion.Parse

variable {s t : Stream} {room floor : Nat}

/-- The loops of the readers: over the operators after an operand, over the elements of an array,
over further arguments of a call, and over the tokens that follow what is wrong with an array. -/
inductive Loop
  | operators | elements | arguments | skipping
  deriving DecidableEq, Repr

/-- What a reader does: it passes over a token, calls for an expression, or goes into the body of a
loop. The last two tell where what they begin starts and where it stops. -/
inductive Event
  | advance (t : Token)
  | call (start stop : Nat)
  | turn (loop : Loop) (start stop : Nat)
  deriving DecidableEq, Repr

def skipLog (kind : TokenKind) (s : Stream) : List Event :=
  if s.kind = .endOfInput then []
  else
    .turn .skipping s.position s.next.position :: .advance s.current ::
      if s.kind = kind then [] else skipLog kind s.next
termination_by s.left
decreasing_by exact Stream.left_next_lt ‹_›

def expectLog (wanted : TokenKind) (s : Stream) : List Event :=
  if s.kind = wanted then [.advance s.current] else []

/-- What reading the elements of an array does. Every element, and whatever stands where one is
missing, is met at the head of the loop. -/
def elementsLog (s : Stream) : List Event :=
  if _ : s.kind = .integer ∨ s.kind = .string then
    let t := s.next
    if t.kind = .comma then
      .turn .elements s.position t.next.position :: .advance s.current :: .advance t.current ::
        elementsLog t.next
    else if t.kind = .rightBracket then
      [.turn .elements s.position t.next.position, .advance s.current, .advance t.current]
    else
      .turn .elements s.position (skipPast .rightBracket t).position :: .advance s.current ::
        skipLog .rightBracket t
  else
    .turn .elements s.position (skipPast .rightBracket s).position :: skipLog .rightBracket s
termination_by s.left
decreasing_by
  have more : s.kind ≠ .endOfInput := fun e => by
    rcases ‹s.kind = .integer ∨ s.kind = .string› with h | h <;> simp [e] at h
  exact Nat.lt_of_le_of_lt s.next.left_next_le (Stream.left_next_lt more)

def arrayLog (s : Stream) : List Event :=
  if s.kind = .rightBracket then [.advance s.current] else elementsLog s

mutual

def expressionLog (room floor : Nat) (s : Stream) : List Event :=
  .call s.position (expression room floor s).after.position ::
  match room with
  | 0 => [.advance s.current]
  | room + 1 =>
    if s.kind.startsOperand then
      operandLog room s ++ operatorsLog room floor (operand room s).result (operand room s).after
    else [.advance s.current]
termination_by (s.left, 2)
decreasing_by
  · exact .right _ (by decide)
  · exact .right' _ (operand room s).left_le (by decide)

def operandLog (room : Nat) (s : Stream) : List Event :=
  .advance s.current ::
  match _ : s.kind with
  | .leftBracket => arrayLog s.next
  | .bang => expressionLog room Precedence.unary s.next
  | .leftParen =>
    expressionLog room Precedence.lowest s.next ++
      expectLog .rightParen (expression room Precedence.lowest s.next).after
  | _ => []
termination_by (s.left, 1)
decreasing_by all_goals exact .left _ _ (Stream.left_next_lt (by simp [*]))

def operatorsLog (room floor : Nat) (left : Option Expr) (s : Stream) : List Event :=
  if _ : s.kind ≠ .endOfInput ∧ floor < s.kind.precedence then
    match left with
    | none =>
      let o := expression room s.next.kind.precedence s.next
      .turn .operators s.position o.after.position :: .advance s.current ::
        (expressionLog room s.next.kind.precedence s.next ++ operatorsLog room floor none o.after)
    | some l =>
      match s.kind.binaryOp? with
      | some op =>
        let o := expression room op.precedence s.next
        .turn .operators s.position o.after.position :: .advance s.current ::
          (expressionLog room op.precedence s.next ++
            operatorsLog room floor (o.result.map (.binary l op.text)) o.after)
      | none =>
        let o := arguments room s.next
        .turn .operators s.position o.after.position :: .advance s.current ::
          (argumentsLog room s.next ++ operatorsLog room floor (o.result.map (.call l)) o.after)
  else []
termination_by (s.left, 0)
decreasing_by
  all_goals
    have shorter := Stream.left_next_lt (‹s.kind ≠ .endOfInput ∧ _›).1
    first
    | exact .left _ _ shorter
    | exact .left _ _ (Nat.lt_of_le_of_lt (Outcome.left_le _) shorter)

def argumentsLog (room : Nat) (s : Stream) : List Event :=
  if s.kind = .rightParen then [.advance s.current]
  else
    expressionLog room Precedence.lowest s ++
      moreArgumentsLog room (expression room Precedence.lowest s).after
termination_by (s.left, 3)
decreasing_by
  · exact .right _ (by decide)
  · exact .right' _ (Outcome.left_le _) (by decide)

def moreArgumentsLog (room : Nat) (s : Stream) : List Event :=
  if _ : s.kind = .comma then
    let o := expression room Precedence.lowest s.next
    .turn .arguments s.position o.after.position :: .advance s.current ::
      (expressionLog room Precedence.lowest s.next ++ moreArgumentsLog room o.after)
  else expectLog .rightParen s
termination_by (s.left, 0)
decreasing_by
  all_goals have shorter := s.left_next_lt (by simp [*])
  · exact .left _ _ shorter
  · exact .left _ _ (Nat.lt_of_le_of_lt (Outcome.left_le _) shorter)

end

/-- What reading tokens as one expression and nothing else does, with room for some levels of
nesting. Where there is too little room the log goes on, though a parser gives up there: what it has
done then is the beginning of the log. -/
def log (room : Nat) (tokens : List Token) : List Event :=
  if (Stream.start tokens).kind = .endOfInput then []
  else expressionLog room Precedence.lowest (.start tokens)

def reached (room : Nat) (tokens : List Token) : Stream :=
  if (Stream.start tokens).kind = .endOfInput then .start tokens
  else (expression room Precedence.lowest (.start tokens)).after

theorem expressionLog_of_start (h : s.kind.startsOperand) :
    expressionLog (room + 1) floor s =
      .call s.position (expression (room + 1) floor s).after.position ::
        (operandLog room s ++
          operatorsLog room floor (operand room s).result (operand room s).after) := by
  rw [expressionLog]
  simp only [h, if_true]

theorem expressionLog_of_no_start (h : ¬ s.kind.startsOperand) :
    expressionLog (room + 1) floor s =
      [.call s.position (expression (room + 1) floor s).after.position, .advance s.current] := by
  rw [expressionLog]
  simp only [h, if_false, Bool.false_eq_true]

theorem exists_operandLog (room : Nat) (s : Stream) :
    ∃ l, operandLog room s = .advance s.current :: l := by
  rw [operandLog]
  exact ⟨_, rfl⟩

theorem operandLog_word (leftBracket : s.kind ≠ .leftBracket) (bang : s.kind ≠ .bang)
    (leftParen : s.kind ≠ .leftParen) : operandLog room s = [.advance s.current] := by
  rw [operandLog]
  split <;> simp_all

theorem operandLog_leftBracket (h : s.kind = .leftBracket) :
    operandLog room s = .advance s.current :: arrayLog s.next := by
  rw [operandLog]
  split <;> simp_all

theorem operandLog_bang (h : s.kind = .bang) :
    operandLog room s = .advance s.current :: expressionLog room Precedence.unary s.next := by
  rw [operandLog]
  split <;> simp_all

theorem operandLog_leftParen (h : s.kind = .leftParen) :
    operandLog room s =
      .advance s.current :: (expressionLog room Precedence.lowest s.next ++
        expectLog .rightParen (expression room Precedence.lowest s.next).after) := by
  rw [operandLog]
  split <;> simp_all

theorem operatorsLog_stop {left : Option Expr}
    (h : ¬ (s.kind ≠ .endOfInput ∧ floor < s.kind.precedence)) :
    operatorsLog room floor left s = [] := by
  rw [operatorsLog.eq_def, dif_neg h]

theorem operatorsLog_binary {l : Expr} {op : BinaryOp}
    (h : s.kind ≠ .endOfInput ∧ floor < s.kind.precedence) (hop : s.kind.binaryOp? = some op) :
    operatorsLog room floor (some l) s =
      .turn .operators s.position (expression room op.precedence s.next).after.position ::
        .advance s.current :: (expressionLog room op.precedence s.next ++
          operatorsLog room floor
            ((expression room op.precedence s.next).result.map (.binary l op.text))
            (expression room op.precedence s.next).after) := by
  rw [operatorsLog, dif_pos h]
  simp only
  split
  · next op' hop' =>
    cases hop.symm.trans hop'
    rfl
  · next hop' => cases hop.symm.trans hop'

theorem operatorsLog_call {l : Expr}
    (h : s.kind ≠ .endOfInput ∧ floor < s.kind.precedence) (hop : s.kind.binaryOp? = none) :
    operatorsLog room floor (some l) s =
      .turn .operators s.position (arguments room s.next).after.position :: .advance s.current ::
        (argumentsLog room s.next ++
          operatorsLog room floor ((arguments room s.next).result.map (.call l))
            (arguments room s.next).after) := by
  rw [operatorsLog, dif_pos h]
  simp only
  split
  · next op' hop' => cases hop.symm.trans hop'
  · rfl

/-- A stream goes on as another one past some tokens, end tokens among them. -/
inductive Stream.Walks : Stream → List Token → Stream → Prop
  | refl (s : Stream) : s.Walks [] s
  | next {s t : Stream} {ts : List Token} (h : s.next.Walks ts t) : s.Walks (s.current :: ts) t

variable {u : Stream} {ts us : List Token} {e e' x : Event} {l l' before after : List Event}

theorem Stream.Walks.trans (h : s.Walks ts t) (h' : t.Walks us u) : s.Walks (ts ++ us) u := by
  induction h with
  | refl => exact h'
  | next _ ih => exact .next (ih h')

theorem Stream.Walks.position (h : s.Walks ts t) : t.position = s.position + ts.length := by
  induction h with
  | refl => rfl
  | next _ ih =>
    rw [ih, List.length_cons, Nat.add_comm _ 1, ← Nat.add_assoc]
    rfl

theorem Stream.Walks.rest (h : s.Walks ts t) : t.rest = s.rest.drop ts.length := by
  induction h with
  | refl => rfl
  | next _ ih => rw [ih, Stream.next, List.length_cons, List.drop_tail]

def Event.taken? : Event → Option Token
  | advance t => some t
  | _ => none

def taken (l : List Event) : List Token := l.filterMap Event.taken?

namespace Event

/-- What tells a place starts where the tokens taken before have led, and stops where those that it
takes lead. -/
def Spans (place : Nat) (after : List Event) : Event → Prop
  | advance _ => True
  | call start stop | turn _ start stop =>
    start = place ∧ ∃ inside later, after = inside ++ later ∧
      stop = place + (taken inside).length

def opens : Event → Bool
  | advance t => t.kind ≠ .endOfInput
  | _ => false

def ends : Event → Bool
  | advance t => t.kind = .endOfInput
  | _ => false

def isCall : Event → Bool
  | call .. => true
  | _ => false

/-- A loop goes round without taking a token. -/
def Stalls : Event → Prop
  | turn _ start stop => ¬ start < stop
  | _ => False

/-- What is begun takes tokens, but for an element that is missing. -/
def Moves : Event → Prop
  | advance _ => True
  | call start stop => start < stop
  | turn loop start stop => start < stop ∨ loop = .elements ∧ stop = start

/-- What is done right after something else: nothing after a loop has stalled, a call only after a
token other than the end token, and an end token is taken by a call alone. -/
def Follows (e : Event) : Event → Prop
  | advance t => ¬ e.Stalls ∧ (t.kind = .endOfInput → e.isCall)
  | call .. => e.opens
  | turn .. => ¬ e.Stalls

/-- Events that follow one another, after a first one and up to a last one. -/
inductive Leads : Event → List Event → Event → Prop
  | refl (e : Event) : e.Leads [] e
  | cons {e x e' : Event} {l : List Event} (h : e.Follows x) (h' : x.Leads l e') :
    e.Leads (x :: l) e'

/-- If a loop has stalled it has done so at the end token to which a stream has come. -/
def Steady (s : Stream) : Event → Prop
  | turn _ start stop => ¬ start < stop → s.kind = .endOfInput ∧ s.position = start
  | _ => True

theorem not_stalls_of_opens (h : e.opens) : ¬ e.Stalls := by
  cases e with
  | advance => exact id
  | _ => cases h

theorem not_stalls_of_isCall (h : e.isCall) : ¬ e.Stalls := by
  cases e with
  | call => exact id
  | _ => cases h

theorem steady_of_not_stalls (h : ¬ e.Stalls) : e.Steady s := by
  cases e with
  | turn => exact fun stalls => absurd stalls h
  | _ => trivial

theorem Steady.not_stalls (h : e.Steady s) (more : s.kind ≠ .endOfInput) : ¬ e.Stalls := by
  cases e with
  | turn => exact fun stalls => more (h stalls).1
  | _ => exact id

theorem Leads.trans (h : e.Leads l x) (h' : x.Leads l' e') : e.Leads (l ++ l') e' := by
  induction h with
  | refl => exact h'
  | cons follows _ ih => exact .cons follows (ih h')

theorem Leads.split (h : e.Leads (before ++ x :: after) e') :
    ∃ y, e.Leads before y ∧ y.Follows x ∧ x.Leads after e' := by
  induction before generalizing e with
  | nil =>
    cases h with
    | cons follows leads => exact ⟨e, .refl e, follows, leads⟩
  | cons z before ih =>
    cases h with
    | cons follows leads =>
      obtain ⟨y, first, second, third⟩ := ih leads
      exact ⟨y, .cons follows first, second, third⟩

theorem Leads.last (h : e.Leads l e') : l = [] ∨ ∃ earlier, l = earlier ++ [e'] := by
  induction h with
  | refl => exact .inl rfl
  | @cons _ x e' l _ leads ih =>
    rcases ih with rfl | ⟨earlier, rfl⟩
    · cases leads with
      | refl => exact .inr ⟨[], rfl⟩
    · exact .inr ⟨x :: earlier, rfl⟩

theorem exists_of_opens (h : e.opens) : ∃ t, e = advance t ∧ t.kind ≠ .endOfInput := by
  cases e with
  | advance t => exact ⟨t, rfl, of_decide_eq_true h⟩
  | _ => cases h

/-- Nothing follows a loop that has stalled. -/
theorem Leads.eq_nil_of_stalls (h : e.Leads l e') (stalls : e.Stalls) : l = [] ∧ e' = e := by
  cases h with
  | refl => exact ⟨rfl, rfl⟩
  | @cons _ x _ _ follows =>
    exfalso
    cases x with
    | advance => exact follows.1 stalls
    | call => exact not_stalls_of_opens follows stalls
    | turn => exact follows stalls

/-- Where one kind of event only follows another, it happens at most as often. -/
theorem Leads.countP_le {p q : Event → Bool} (h : e.Leads l e')
    (hf : ∀ e x : Event, e.Follows x → q x → p e) : l.countP q ≤ (e :: l).countP p := by
  induction h with
  | refl => exact Nat.zero_le _
  | @cons e x _ l follows _ ih =>
    rw [List.countP_cons, List.countP_cons]
    have first : (if q x then 1 else 0) ≤ if p e then 1 else 0 := by
      by_cases hq : q x
      · exact Nat.le_of_eq (by rw [if_pos hq, if_pos (hf e x follows hq)])
      · rw [if_neg hq]
        exact Nat.zero_le _
    exact Nat.add_le_add ih first

theorem opens_of_follows (h : e.Follows x) (called : x.isCall) : e.opens := by
  cases x with
  | call => exact h
  | _ => cases called

theorem isCall_of_follows (h : e.Follows x) (hx : x.ends) : e.isCall := by
  cases x with
  | advance => exact h.2 (of_decide_eq_true hx)
  | _ => cases hx

end Event

end Criterion.Parse
