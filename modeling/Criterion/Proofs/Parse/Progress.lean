import Criterion.Proofs.Parse.Literals
import Criterion.Proofs.Parse.Log

/-!
The readers make progress. Every call for an expression and every time round a loop takes tokens,
but for the loop over the elements of an array, which an end token brings to a stop along with all
other readers. A call comes right after a token of its own and is all that passes over an end token,
so that a reading takes at most two steps for each token that is not one, and one more.
-/

namespace Criterion.Parse

variable {s t u : Stream} {first : Token} {ts : List Token} {l l' : List Event}
  {P Q : Event → Prop} {loop : Loop} {stop : Nat}

theorem taken_append (l l' : List Event) : taken (l ++ l') = taken l ++ taken l' :=
  List.filterMap_append

theorem length_taken_cons (e : Event) (l : List Event) :
    (taken (e :: l)).length = (taken [e]).length + (taken l).length := by
  rw [← List.singleton_append, taken_append, List.length_append]

theorem Event.Spans.append {place : Nat} {e : Event} (h : e.Spans place l) (l' : List Event) :
    e.Spans place (l ++ l') := by
  cases e with
  | advance => trivial
  | _ =>
    obtain ⟨rfl, inside, later, rfl, stop⟩ := h
    exact ⟨rfl, inside, later ++ l', List.append_assoc .., stop⟩

/-- Events that start from a place and all tell the places to which they lead. -/
def Placed (place : Nat) : List Event → Prop
  | [] => True
  | e :: l => e.Spans place l ∧ Placed (place + (taken [e]).length) l

theorem Placed.append {place : Nat} (h : Placed place l)
    (h' : Placed (place + (taken l).length) l') : Placed place (l ++ l') := by
  induction l generalizing place with
  | nil => exact h'
  | cons e l ih =>
    rw [length_taken_cons, ← Nat.add_assoc] at h'
    exact ⟨h.1.append l', ih h.2 h'⟩

theorem Placed.split {place : Nat} {before after : List Event} {e : Event}
    (h : Placed place (before ++ e :: after)) :
    e.Spans (place + (taken before).length) after := by
  induction before generalizing place with
  | nil => exact h.1
  | cons x before ih =>
    rw [length_taken_cons, ← Nat.add_assoc]
    exact ih h.2

theorem countP_opens (l : List Event) :
    l.countP Event.opens = (taken l).countP (·.kind ≠ .endOfInput) := by
  rw [taken, List.countP_filterMap]
  congr 1
  funext e
  cases e <;> rfl

theorem countP_ends (l : List Event) :
    l.countP Event.ends = (taken l).countP (·.kind = .endOfInput) := by
  rw [taken, List.countP_filterMap]
  congr 1
  funext e
  cases e <;> rfl

theorem length_taken (l : List Event) :
    (taken l).length = l.countP Event.opens + l.countP Event.ends := by
  rw [countP_opens, countP_ends,
    List.length_eq_countP_add_countP fun t : Token => decide (t.kind ≠ .endOfInput)]
  simp only [decide_eq_true_eq, Decidable.not_not]

/-- No token but the end token is passed over twice. -/
theorem Stream.Walks.countP_le (h : s.Walks ts t) :
    ts.countP (·.kind ≠ .endOfInput) ≤ s.rest.countP (·.kind ≠ .endOfInput) := by
  induction h with
  | refl => exact Nat.zero_le _
  | @next s t ts _ ih =>
    rcases s with ⟨position, _ | ⟨first, rest⟩⟩
    · have finish : ¬ decide (Token.finish.kind ≠ .endOfInput) := by decide
      exact Nat.le_trans (Nat.le_of_eq (List.countP_cons_of_neg finish)) ih
    · rw [current, List.head?_cons, Option.getD_some, List.countP_cons, List.countP_cons]
      exact Nat.add_le_add_right ih _

/-- What is done between two streams: it takes the tokens between them and tells their places, all
that it begins moves, and it can be done after any event with a property. -/
structure Records (P : Event → Prop) (s : Stream) (l : List Event) (t : Stream) : Prop where
  walks : s.Walks (taken l) t
  placed : Placed s.position l
  moves : ∀ e ∈ l, e.Moves
  leads : ∀ e, P e → ∃ e', e.Leads l e' ∧ e'.Steady t

namespace Records

theorem mono (h : Records P s l t) (hp : ∀ e, Q e → P e) : Records Q s l t :=
  ⟨h.walks, h.placed, h.moves, fun e he => h.leads e (hp e he)⟩

theorem nil (s : Stream) : Records (·.Steady s) s [] s :=
  ⟨.refl s, trivial, List.forall_mem_nil _, fun e he => ⟨e, .refl e, he⟩⟩

theorem append (h : Records P s l t) (h' : Records (·.Steady t) t l' u) :
    Records P s (l ++ l') u where
  walks := by
    rw [taken_append]
    exact h.walks.trans h'.walks
  placed := h.placed.append (h.walks.position ▸ h'.placed)
  moves := List.forall_mem_append.2 ⟨h.moves, h'.moves⟩
  leads := by
    intro e he
    obtain ⟨x, hx, steady⟩ := h.leads e he
    obtain ⟨e', he', steady'⟩ := h'.leads x steady
    exact ⟨e', hx.trans he', steady'⟩

theorem le (h : Records P s l t) : s.position ≤ t.position := by
  rw [h.walks.position]
  exact Nat.le_add_right _ _

theorem lt (h : Records P s (.advance first :: l) t) : s.position < t.position := by
  rw [h.walks.position]
  exact Nat.lt_add_of_pos_right (Nat.succ_pos _)

theorem after_token (h : Records (·.Steady s) s l t) : Records (·.opens = true) s l t :=
  h.mono fun _ he => Event.steady_of_not_stalls (Event.not_stalls_of_opens he)

theorem advance (more : s.kind ≠ .endOfInput) (h : Records (·.opens = true) s.next l t) :
    Records (·.Steady s) s (.advance s.current :: l) t where
  walks := .next h.walks
  placed := ⟨trivial, h.placed⟩
  moves := List.forall_mem_cons.2 ⟨trivial, h.moves⟩
  leads := by
    intro e he
    obtain ⟨e', leads, steady⟩ := h.leads (.advance s.current) (decide_eq_true more)
    exact ⟨e', .cons ⟨he.not_stalls more, fun ends => absurd ends more⟩ leads, steady⟩

theorem token (more : s.kind ≠ .endOfInput) :
    Records (·.Steady s) s [.advance s.current] s.next :=
  advance more (nil s.next).after_token

theorem refused (s : Stream) : Records (·.isCall = true) s [.advance s.current] s.next where
  walks := .next (.refl _)
  placed := ⟨trivial, trivial⟩
  moves := List.forall_mem_singleton.2 trivial
  leads := by
    intro e he
    exact ⟨_, .cons ⟨Event.not_stalls_of_isCall he, fun _ => he⟩ (.refl _), trivial⟩

theorem spans (h : Records P s l t) :
    ∃ inside later, l = inside ++ later ∧
      t.position = s.position + (taken inside).length :=
  ⟨l, [], (List.append_nil l).symm, h.walks.position⟩

theorem call (later : s.position < t.position) (h : Records (·.isCall = true) s l t) :
    Records (·.opens = true) s (.call s.position t.position :: l) t where
  walks := h.walks
  placed := ⟨⟨rfl, h.spans⟩, h.placed⟩
  moves := List.forall_mem_cons.2 ⟨later, h.moves⟩
  leads := by
    intro e he
    obtain ⟨e', leads, steady⟩ := h.leads (.call s.position t.position) rfl
    exact ⟨e', .cons he leads, steady⟩

/-- A loop goes round, with a token first, and then does what it does from there on. -/
theorem turn (more : s.kind ≠ .endOfInput) (h : Records (·.opens = true) s.next l t)
    (h' : Records (·.Steady t) t l' u) :
    Records (·.Steady s) s
      (.turn loop s.position t.position :: .advance s.current :: (l ++ l')) u where
  walks := (advance more (h.append h')).walks
  placed := ⟨⟨rfl, .advance s.current :: l, l', rfl, (advance more h).walks.position⟩,
    (advance more (h.append h')).placed⟩
  moves := List.forall_mem_cons.2 ⟨.inl h.le, (advance more (h.append h')).moves⟩
  leads := by
    intro e he
    have later : s.position < t.position := h.le
    obtain ⟨e', leads, steady⟩ := (advance more (h.append h')).leads
      (.turn loop s.position t.position) fun stalls => absurd later stalls
    exact ⟨e', .cons (he.not_stalls more) leads, steady⟩

theorem element (stalls : s.position < stop ∨ stop = s.position ∧ s.kind = .endOfInput)
    (spans : ∃ inside later, l = inside ++ later ∧
      stop = s.position + (taken inside).length)
    (h : Records (·.Steady s) s l t) :
    Records (·.opens = true) s (.turn .elements s.position stop :: l) t where
  walks := h.walks
  placed := ⟨⟨rfl, spans⟩, h.placed⟩
  moves := by
    refine List.forall_mem_cons.2 ⟨?_, h.moves⟩
    exact stalls.imp_right fun stalled => ⟨rfl, stalled.1⟩
  leads := by
    intro e he
    obtain ⟨e', leads, steady⟩ := h.leads (.turn .elements s.position stop) fun stalled =>
      ⟨(stalls.resolve_left stalled).2, rfl⟩
    exact ⟨e', .cons (Event.not_stalls_of_opens he) leads, steady⟩

end Records

theorem records_skip (kind : TokenKind) (s : Stream) :
    Records (·.Steady s) s (skipLog kind s) (skipPast kind s) := by
  induction s using skipPast.induct kind with
  | case1 s h =>
    rw [skipPast, if_pos h, skipLog, if_pos h]
    exact .nil s
  | case2 s h hk =>
    rw [skipPast, if_neg h, if_pos hk, skipLog, if_neg h, if_pos hk]
    exact .turn h (Records.nil _).after_token (.nil _)
  | case3 s h hk ih =>
    rw [skipPast, if_neg h, if_neg hk, skipLog, if_neg h, if_neg hk]
    exact .turn h (Records.nil _).after_token ih

theorem records_expect {wanted : TokenKind} (more : wanted ≠ .endOfInput) (s : Stream) :
    Records (·.Steady s) s (expectLog wanted s) (expect wanted s).after := by
  by_cases h : s.kind = wanted
  · rw [expect_of_kind h, expectLog, if_pos h]
    exact .token (h ▸ more)
  · rw [expect_of_other h, expectLog, if_neg h]
    exact .nil s

theorem skipPast_of_end {kind : TokenKind} (h : s.kind = .endOfInput) : skipPast kind s = s := by
  rw [skipPast, if_pos h]

theorem position_lt_skipPast {kind : TokenKind} (h : s.kind ≠ .endOfInput) :
    s.position < (skipPast kind s).position := by
  rw [skipPast, if_neg h]
  split
  · exact Nat.lt_succ_self _
  · exact (records_skip kind s.next).le

theorem records_elements (s : Stream) :
    Records (·.opens = true) s (elementsLog s) (elements s).after := by
  induction s using elements.induct with
  | case1 s hk t hc _ ih =>
    have first := kind_ne_end_of_element hk
    have comma : t.kind ≠ .endOfInput := by simp [hc]
    rw [elements, dif_pos hk, if_pos hc, elementsLog, dif_pos hk, if_pos hc]
    exact .element (.inl (Nat.lt_add_of_pos_right Nat.two_pos))
      ⟨[.advance s.current, .advance t.current], _, rfl, rfl⟩
      (.advance first (Records.advance comma ih).after_token)
  | case2 s hk t hc hb =>
    have first := kind_ne_end_of_element hk
    have bracket : t.kind ≠ .endOfInput := by simp [hb]
    rw [elements, dif_pos hk, if_neg hc, if_pos hb, elementsLog, dif_pos hk, if_neg hc, if_pos hb]
    have both := Records.advance first (Records.token bracket).after_token
    exact .element (.inl (Nat.lt_add_of_pos_right Nat.two_pos)) both.spans both
  | case3 s hk t hc hb =>
    have first := kind_ne_end_of_element hk
    rw [elements, dif_pos hk, if_neg hc, if_neg hb, elementsLog, dif_pos hk, if_neg hc, if_neg hb]
    have whole := Records.advance first (records_skip .rightBracket t).after_token
    exact .element (.inl whole.lt) whole.spans whole
  | case4 s hk =>
    rw [elements, dif_neg hk, elementsLog, dif_neg hk]
    refine .element ?_ (records_skip .rightBracket s).spans (records_skip .rightBracket s)
    by_cases h : s.kind = .endOfInput
    · exact .inr ⟨congrArg Stream.position (skipPast_of_end h), h⟩
    · exact .inl (position_lt_skipPast h)

theorem records_array (s : Stream) :
    Records (·.opens = true) s (arrayLog s) (array s).after := by
  by_cases h : s.kind = .rightBracket
  · rw [array, if_pos h, arrayLog, if_pos h]
    exact (Records.token (by simp [h])).after_token
  · have after : (array s).after = (elements s).after := by
      rw [array, if_neg h]
      dsimp only
      split
      · rfl
      · split <;> rfl
    rw [after, arrayLog, if_neg h]
    exact records_elements s

theorem after_integer (s : Stream) : (integer s).after = s.next := by
  rw [integer]
  split <;> rfl

theorem records_word {room : Nat} {kind : TokenKind} (hk : s.kind = kind)
    (word : kind ∉ [.leftBracket, .bang, .leftParen, .endOfInput])
    (after : (operand room s).after = s.next) :
    Records (·.Steady s) s (operandLog room s) (operand room s).after := by
  subst hk
  rw [operandLog_word (fun h => word (by simp [h])) (fun h => word (by simp [h]))
    (fun h => word (by simp [h])), after]
  exact .token fun h => word (by simp [h])

/-- What the readers of expressions do can be done after a token of its own, and what the others do
at any event. -/
theorem readers_record :
    (∀ room floor s, Records (·.opens = true) s (expressionLog room floor s)
      (expression room floor s).after) ∧
    (∀ room floor left s, Records (·.Steady s) s (operatorsLog room floor left s)
      (operators room floor left s).after) ∧
    (∀ room s, Records (·.opens = true) s (argumentsLog room s) (arguments room s).after) ∧
    (∀ room s, Records (·.Steady s) s (moreArgumentsLog room s) (moreArguments room s).after) ∧
    ∀ room s, s.kind.startsOperand →
      Records (·.Steady s) s (operandLog room s) (operand room s).after := by
  apply expression.mutual_induct
    (fun room floor s => Records (·.opens = true) s (expressionLog room floor s)
      (expression room floor s).after)
    (fun room floor left s => Records (·.Steady s) s (operatorsLog room floor left s)
      (operators room floor left s).after)
    (fun room s => Records (·.opens = true) s (argumentsLog room s) (arguments room s).after)
    (fun room s => Records (·.Steady s) s (moreArgumentsLog room s) (moreArguments room s).after)
    (fun room s => s.kind.startsOperand →
      Records (·.Steady s) s (operandLog room s) (operand room s).after)
  case case1 => -- no room
    intro floor s
    rw [expressionLog]
    refine .call ?_ ?_
    · rw [expression]
      exact Nat.lt_succ_self _
    · rw [expression]
      exact .refused s
  case case2 => -- an operand, then operators
    intro floor s room start o ho hs
    have whole := (ho start).append hs
    rw [expressionLog_of_start start, expression_of_start start]
    refine .call ?_ (whole.mono ?_)
    · obtain ⟨l, hl⟩ := exists_operandLog room s
      exact Nat.lt_of_lt_of_le (hl ▸ ho start).lt hs.le
    · intro e he
      exact Event.steady_of_not_stalls (Event.not_stalls_of_isCall he)
  case case3 => -- no operand
    intro floor s room start
    rw [expressionLog_of_no_start start, expression_of_no_start start]
    exact .call (Nat.lt_succ_self _) (.refused s)
  case case4 => -- an operator without a left operand
    intro room floor s more o ho hs
    rw [operatorsLog, dif_pos more, operators_missing more]
    exact .turn more.1 ho hs
  case case5 => -- an operator
    intro room floor s more l op hop o ho hs
    rw [operatorsLog_binary more hop, operators_binary more hop]
    exact .turn more.1 ho hs
  case case6 => -- a call
    intro room floor s more l hop o ho hs
    rw [operatorsLog_call more hop, operators_call more hop]
    exact .turn more.1 ho hs
  case case7 => -- no further operator
    intro room floor left s stop
    rw [operatorsLog_stop stop, operators_stop stop]
    exact .nil s
  case case8 => -- no arguments
    intro room s hk
    rw [argumentsLog, if_pos hk, arguments_of_end hk]
    exact (Records.token (by simp [hk])).after_token
  case case9 => -- a first argument
    intro room s hk o ho _ hm
    rw [argumentsLog, if_neg hk, arguments_of_more hk]
    exact ho.append hm
  case case10 => -- a further argument
    intro room s hk o ho _ hm
    have comma : s.kind ≠ .endOfInput := by simp [hk]
    rw [moreArgumentsLog, dif_pos hk, moreArguments_of_comma hk]
    exact .turn comma ho hm
  case case11 => -- no further argument
    intro room s hk
    rw [moreArgumentsLog, dif_neg hk, moreArguments_of_end hk]
    exact records_expect (by decide) s
  case case12 => -- a name
    intro room s hk _
    exact records_word hk (by decide) (congrArg Outcome.after (operand_identifier hk))
  case case13 => -- a numeral
    intro room s hk _
    exact records_word hk (by decide) (by rw [operand_integer hk, after_integer])
  case case14 => -- a quotation
    intro room s hk _
    exact records_word hk (by decide) (congrArg Outcome.after (operand_string hk))
  case case15 => -- true
    intro room s hk _
    exact records_word hk (by decide) (congrArg Outcome.after (operand_trueWord hk))
  case case16 => -- false
    intro room s hk _
    exact records_word hk (by decide) (congrArg Outcome.after (operand_falseWord hk))
  case case17 => -- an array
    intro room s hk _
    rw [operandLog_leftBracket hk, operand_leftBracket hk]
    exact .advance (by simp [hk]) (records_array s.next)
  case case18 => -- a negation
    intro room s hk ho _
    rw [operandLog_bang hk, operand_bang hk]
    exact .advance (by simp [hk]) ho
  case case19 => -- a group
    intro room s hk ho _
    rw [operandLog_leftParen hk, operand_leftParen hk]
    exact .advance (by simp [hk]) (ho.append (records_expect (by decide) _))
  case case20 => -- nothing that an operand starts with
    intro room s h₁ h₂ h₃ h₄ h₅ h₆ h₇ h₈ start
    exact absurd start (not_startsOperand h₁ h₂ h₃ h₄ h₅ h₆ h₇ h₈)

theorem records_log (room : Nat) (tokens : List Token) :
    Records (·.opens = true) (.start tokens) (log room tokens) (reached room tokens) := by
  rw [log, reached]
  split
  · exact (Records.nil _).after_token
  · exact readers_record.1 room Precedence.lowest (.start tokens)

theorem Stream.Walks.current {tokens : List Token} (h : (Stream.start tokens).Walks ts t) :
    t.current = tokens[t.position]?.getD .finish := by
  have position : t.position = ts.length := h.position.trans (Nat.zero_add _)
  rw [Stream.current, h.rest, position, List.head?_drop]
  rfl

/-- Whatever the tokens and the room for nesting, a reading passes over the tokens one by one, and
the log tells where it is. Every expression that it calls for takes tokens, and so does every time
round a loop, except where an element of an array should stand and an end token does: with that the
reading is over. Every call but the first comes right after a token of its own, and no more steps
are taken than two for each token that is no end token, and one. -/
theorem log_progresses (room : Nat) (tokens : List Token) :
    (Stream.start tokens).Walks (taken (log room tokens)) (reached room tokens) ∧
      (∀ before e after, log room tokens = before ++ e :: after →
        e.Spans (taken before).length after) ∧
      (∀ start stop, .call start stop ∈ log room tokens → start < stop) ∧
      (∀ before loop start stop after,
        log room tokens = before ++ .turn loop start stop :: after →
          start < stop ∨ loop = .elements ∧ stop = start ∧
            (tokens[start]?.getD .finish).kind = .endOfInput ∧ after = []) ∧
      (∀ before start stop after, log room tokens = before ++ .call start stop :: after →
        before = [] ∨ ∃ earlier t, before = earlier ++ [.advance t] ∧ t.kind ≠ .endOfInput) ∧
      (taken (log room tokens)).length ≤ 2 * tokens.countP (·.kind ≠ .endOfInput) + 1 := by
  have h := records_log room tokens
  -- any token can stand before the first call
  obtain ⟨last, leads, steady⟩ := h.leads (.advance ⟨.comma, ",", 0, 0⟩) rfl
  refine ⟨h.walks, ?_, ?_, ?_, ?_, ?_⟩
  · intro before e after split
    have placed := h.placed
    rw [split] at placed
    exact Nat.zero_add (taken before).length ▸ placed.split
  · intro start stop called
    exact h.moves _ called
  · intro before loop start stop after split
    have turned : Event.turn loop start stop ∈ log room tokens := by simp [split]
    rw [split] at leads
    obtain ⟨_, -, -, later⟩ := leads.split
    refine (h.moves _ turned).imp_right ?_
    rintro ⟨elements, rfl⟩
    obtain ⟨none, rfl⟩ := later.eq_nil_of_stalls (Nat.lt_irrefl stop)
    obtain ⟨kind, position⟩ := steady (Nat.lt_irrefl stop)
    refine ⟨elements, rfl, ?_, none⟩
    rw [← position, ← h.walks.current]
    exact kind
  · intro before start stop after split
    rw [split] at leads
    obtain ⟨opener, first, follows, -⟩ := leads.split
    obtain ⟨t, rfl, more⟩ := Event.exists_of_opens follows
    refine first.last.imp_right ?_
    rintro ⟨earlier, rfl⟩
    exact ⟨earlier, t, rfl, more⟩
  · have calls := leads.countP_le fun _ _ => Event.opens_of_follows
    have ends := leads.countP_le fun _ _ => Event.isCall_of_follows
    have once := h.walks.countP_le
    rw [List.countP_cons_of_pos rfl] at calls
    rw [List.countP_cons_of_neg (by decide)] at ends
    rw [← countP_opens] at once
    change _ ≤ tokens.countP _ at once
    rw [length_taken]
    omega

open Nesting

/-- The loop over the elements of an array can go round without taking a token. -/
theorem log_stalls :
    ¬ ∀ loop start stop,
      .turn loop start stop ∈ log Nesting.limit
        [⟨.leftParen, "(", 1, 1⟩, ⟨.leftBracket, "[", 1, 2⟩, ⟨.endOfInput, "", 1, 3⟩,
          ⟨.rightParen, ")", 1, 3⟩] → start < stop := by
  intro h
  have limit : Nesting.limit = 480 := rfl
  refine Nat.lt_irrefl 2 (h .elements 2 2 ?_)
  rw [log, if_neg (by decide), limit, expressionLog_of_start rfl, operandLog_leftParen rfl,
    expressionLog_of_start rfl, operandLog_leftBracket rfl, arrayLog, if_neg (by decide),
    elementsLog, dif_neg (by decide), skipPast_of_end rfl]
  simp [Stream.start, Stream.next]

end Criterion.Parse
