import Criterion.Proofs.Parse.Equations
import Criterion.Reading

/-!
The places of tokens: reading by descent does not look at them. Tokens without their places are read
as the same tree, and complained about in the same words, but for the words that tell a place.
-/

namespace Criterion

def Token.placeless (t : Token) : Token := { t with line := 0, column := 0 }

@[simp] theorem Token.kind_placeless (t : Token) : t.placeless.kind = t.kind := rfl

@[simp] theorem Token.text_placeless (t : Token) : t.placeless.text = t.text := rfl

@[simp] theorem Token.describe_placeless (t : Token) : t.placeless.describe = t.describe := rfl

namespace Parse

def Problem.placeless : Problem → Problem
  | illegal t => illegal t.placeless
  | expected wanted found => expected wanted found.placeless
  | trailing t => trailing t.placeless
  | arrayElement found => arrayElement found.placeless
  | mixedArray elements => mixedArray (elements.map Token.placeless)
  | p => p

def Complaint.placeless (c : Complaint) : Complaint := { c with problem := c.problem.placeless }

theorem Problem.placeless_eq_nested {p : Problem} :
    p.placeless = .nestedTooDeeply ↔ p = .nestedTooDeeply := by
  cases p <;> simp [placeless]

theorem Complaint.placeless_eq_nested {c : Complaint} :
    c.placeless.problem = .nestedTooDeeply ↔ c.problem = .nestedTooDeeply :=
  Problem.placeless_eq_nested

theorem Problem.eq_illegal {p : Problem} {t : Token} (h : p.placeless = .illegal t) :
    ∃ t', p = .illegal t' := by
  cases p with
  | illegal t' => exact ⟨t', rfl⟩
  | _ => cases h

theorem Problem.message_placeless {p : Problem} (h : ∀ t, p ≠ .illegal t) :
    p.placeless.message = p.message := by
  cases p with
  | illegal t => exact absurd rfl (h t)
  | expected wanted found =>
    exact congrArg
      (fun shown => "expected next token to be " ++ wanted.label ++ ", got " ++ shown ++ " instead")
      found.describe_placeless
  | trailing t =>
    exact congrArg (fun shown => "unexpected token " ++ shown ++ " after expression")
      t.describe_placeless
  | arrayElement found =>
    exact congrArg ("unknown array element type " ++ ·) found.describe_placeless
  | mixedArray elements =>
    have described : (elements.map Token.placeless).map Token.describe =
        elements.map Token.describe := by simp
    exact congrArg (fun texts => "mixed-type array literal [" ++ ", ".intercalate texts ++ "]")
      described
  | _ => exact congrArg message rfl

namespace Stream

def placeless (s : Stream) : Stream := { s with rest := s.rest.map Token.placeless }

@[simp] theorem current_placeless (s : Stream) : s.placeless.current = s.current.placeless := by
  rcases s with ⟨position, _ | ⟨t, ts⟩⟩ <;> rfl

@[simp] theorem kind_placeless (s : Stream) : s.placeless.kind = s.kind := by
  rw [kind, current_placeless, Token.kind_placeless, kind]

@[simp] theorem next_placeless (s : Stream) : s.placeless.next = s.next.placeless := by
  rcases s with ⟨position, _ | ⟨t, ts⟩⟩ <;> rfl

end Stream

variable {α : Type} {s s' t t' : Stream} {room floor : Nat}

/-- Tokens without their places are read with the outcome of the tokens that have one. -/
structure Alike (bare : Outcome α s') (o : Outcome α s) : Prop where
  result : bare.result = o.result
  complaints : bare.complaints = o.complaints.map Complaint.placeless
  after : bare.after = o.after.placeless

theorem Alike.accept {a : α} {h : t'.left ≤ s'.left} {h' : t.left ≤ s.left}
    (after : t' = t.placeless) : Alike (.accept a t' h : Outcome α s') (.accept a t h') :=
  ⟨rfl, rfl, after⟩

theorem Alike.refuseToken {p p' : Problem} (problem : p' = p.placeless) :
    Alike (.refuseToken p' : Outcome α s.placeless) (.refuseToken p : Outcome α s) :=
  ⟨rfl, by rw [problem]; rfl, s.next_placeless⟩

theorem Alike.following {bare : Outcome α t'} {o : Outcome α t} (h : Alike bare o)
    {cs cs' : List Complaint} {le : t.left ≤ s.left} {le' : t'.left ≤ s'.left}
    (complaints : cs' = cs.map Complaint.placeless) :
    Alike (bare.following cs' le') (o.following cs le) := by
  refine ⟨h.result, ?_, h.after⟩
  simp only [Outcome.following, complaints, h.complaints, List.map_append]

theorem placeless_noOperand (t : Token) : noOperand t.placeless = (noOperand t).placeless := by
  rw [noOperand, noOperand, t.kind_placeless]
  split <;> rfl

theorem alike_expect (kind : TokenKind) (s : Stream) :
    Alike (expect kind s.placeless) (expect kind s) := by
  by_cases h : s.kind = kind
  · rw [expect_of_kind h, expect_of_kind (s.kind_placeless.trans h)]
    exact .accept s.next_placeless
  · rw [expect_of_other h, expect_of_other (by rwa [s.kind_placeless]), s.current_placeless]
    exact ⟨rfl, rfl, rfl⟩

theorem alike_integer (s : Stream) : Alike (integer s.placeless) (integer s) := by
  rw [integer, integer, s.current_placeless, Token.text_placeless]
  cases Numeral.read s.current.text with
  | ok value => exact .accept s.next_placeless
  | error fault => exact .refuseToken rfl

theorem skipPast_placeless (kind : TokenKind) (s : Stream) :
    skipPast kind s.placeless = (skipPast kind s).placeless := by
  induction s using skipPast.induct kind with
  | case1 s h =>
    rw [skipPast.eq_def kind s, skipPast.eq_def, s.kind_placeless, if_pos h, if_pos h]
  | case2 s h hk =>
    rw [skipPast.eq_def kind s, skipPast.eq_def, s.kind_placeless, if_neg h, if_neg h, if_pos hk,
      if_pos hk, s.next_placeless]
  | case3 s h hk ih =>
    rw [skipPast.eq_def kind s, skipPast.eq_def, s.kind_placeless, if_neg h, if_neg h, if_neg hk,
      if_neg hk, s.next_placeless, ih]

theorem elements_placeless (s : Stream) :
    (elements s.placeless).result = (elements s).result.map (List.map Token.placeless) ∧
      (elements s.placeless).complaints = (elements s).complaints.map Complaint.placeless ∧
      (elements s.placeless).after = (elements s).after.placeless := by
  induction s using elements.induct with
  | case1 s hk t hc _ ih =>
    obtain ⟨result, complaints, after⟩ := ih
    rw [elements.eq_def s, elements.eq_def, dif_pos hk, dif_pos (by simpa using hk), if_pos hc,
      if_pos (by simpa using hc)]
    dsimp only
    rw [s.next_placeless, s.next.next_placeless, s.current_placeless]
    refine ⟨?_, complaints, after⟩
    rw [result, Option.map_map, Option.map_map]
    rfl
  | case2 s hk t hc hb =>
    rw [elements.eq_def s, elements.eq_def, dif_pos hk, dif_pos (by simpa using hk), if_neg hc,
      if_neg (by simpa using hc), if_pos hb, if_pos (by simpa using hb)]
    dsimp only [Outcome.accept]
    rw [s.next_placeless, s.next.next_placeless, s.current_placeless]
    exact ⟨rfl, rfl, rfl⟩
  | case3 s hk t hc hb =>
    rw [elements.eq_def s, elements.eq_def, dif_pos hk, dif_pos (by simpa using hk), if_neg hc,
      if_neg (by simpa using hc), if_neg hb, if_neg (by simpa using hb)]
    dsimp only
    rw [s.next_placeless, s.next.current_placeless, skipPast_placeless]
    exact ⟨rfl, rfl, rfl⟩
  | case4 s hk =>
    rw [elements.eq_def s, elements.eq_def, dif_neg hk, dif_neg (by simpa using hk)]
    dsimp only
    rw [s.current_placeless, skipPast_placeless]
    exact ⟨rfl, rfl, rfl⟩

theorem numbers_placeless (ts : List Token) : numbers (ts.map Token.placeless) = numbers ts := by
  induction ts with
  | nil => rfl
  | cons t ts ih =>
    rw [List.map_cons, numbers, numbers, ih]
    rfl

theorem arrayOf_placeless (ts : List Token) :
    arrayOf (ts.map Token.placeless) = (arrayOf ts).mapError (List.map Problem.placeless) := by
  have kinds (kind : TokenKind) : (ts.map Token.placeless).all (·.kind = kind) =
      ts.all (·.kind = kind) := by
    rw [List.all_map]
    rfl
  rw [arrayOf, arrayOf, kinds, kinds, numbers_placeless, List.map_map]
  split
  · rfl
  · split
    · split
      · rfl
      · next _ faults _ _ =>
        change Except.error (faults.map Problem.numeral) =
          .error ((faults.map Problem.numeral).map Problem.placeless)
        rw [List.map_map]
        rfl
    · rfl

theorem alike_array (s : Stream) : Alike (array s.placeless) (array s) := by
  obtain ⟨result, complaints, after⟩ := elements_placeless s
  rw [array, array]
  by_cases hb : s.kind = .rightBracket
  · rw [if_pos hb, if_pos (by simpa using hb)]
    exact .refuseToken rfl
  · rw [if_neg hb, if_neg (by simpa using hb)]
    dsimp only
    cases hr : (elements s).result with
    | none =>
      rw [hr] at result
      simp only [result, Option.map_none]
      exact ⟨rfl, complaints, after⟩
    | some ts =>
      rw [hr] at result
      simp only [result, Option.map_some, arrayOf_placeless]
      cases arrayOf ts with
      | ok e => exact ⟨rfl, complaints, after⟩
      | error problems =>
        refine ⟨rfl, ?_, after⟩
        change (elements s.placeless).complaints ++
          (problems.map Problem.placeless).map (⟨(elements s.placeless).after.position, ·⟩) = _
        rw [complaints, after, List.map_append, List.map_map, List.map_map]
        rfl

theorem alike_cons {bare : Outcome Expr t'} {o : Outcome Expr t}
    {le : (moreArguments room bare.after).after.left ≤ s'.left}
    {le' : (moreArguments room o.after).after.left ≤ s.left} (h : Alike bare o)
    (hm : Alike (moreArguments room o.after.placeless) (moreArguments room o.after)) :
    Alike
      (⟨bare.result.bind fun e => (moreArguments room bare.after).result.map (e :: ·),
        bare.complaints ++ (moreArguments room bare.after).complaints,
        (moreArguments room bare.after).after, le⟩ : Outcome (List Expr) s')
      (⟨o.result.bind fun e => (moreArguments room o.after).result.map (e :: ·),
        o.complaints ++ (moreArguments room o.after).complaints,
        (moreArguments room o.after).after, le'⟩ : Outcome (List Expr) s) := by
  rw [← h.after] at hm
  refine ⟨?_, ?_, hm.after⟩
  · simp only [h.result, hm.result]
  · simp only [h.complaints, hm.complaints, List.map_append]

theorem alike_expression_next (floor : Nat)
    (h : Alike (expression room floor s.next.placeless) (expression room floor s.next)) :
    Alike (expression room floor s.placeless.next) (expression room floor s.next) := by
  rw [s.next_placeless]
  exact h

/-- The readers come to the same, with the places of the tokens and without them. -/
theorem readers_alike :
    (∀ room floor s, Alike (expression room floor s.placeless) (expression room floor s)) ∧
    (∀ room floor left s,
      Alike (operators room floor left s.placeless) (operators room floor left s)) ∧
    (∀ room s, Alike (arguments room s.placeless) (arguments room s)) ∧
    (∀ room s, Alike (moreArguments room s.placeless) (moreArguments room s)) ∧
    ∀ room s, Alike (operand room s.placeless) (operand room s) := by
  apply expression.mutual_induct
    (fun room floor s => Alike (expression room floor s.placeless) (expression room floor s))
    (fun room floor left s =>
      Alike (operators room floor left s.placeless) (operators room floor left s))
    (fun room s => Alike (arguments room s.placeless) (arguments room s))
    (fun room s => Alike (moreArguments room s.placeless) (moreArguments room s))
    (fun room s => Alike (operand room s.placeless) (operand room s))
  case case1 => -- no room
    intro floor s
    rw [expression, expression]
    exact .refuseToken rfl
  case case2 => -- an operand, then operators
    intro floor s room start o ho hs
    rw [expression_of_start start, expression_of_start (by rwa [s.kind_placeless])]
    refine .following ?_ ho.complaints
    rw [ho.result, ho.after]
    exact hs
  case case3 => -- no operand
    intro floor s room start
    rw [expression_of_no_start start, expression_of_no_start (by rwa [s.kind_placeless]),
      s.current_placeless]
    exact .refuseToken (placeless_noOperand _)
  case case4 => -- an operator without a left operand
    intro room floor s more o ho hs
    have ho' : Alike (expression room s.placeless.next.kind.precedence s.placeless.next) o := by
      rw [s.next_placeless, s.next.kind_placeless]
      exact ho
    rw [operators_missing more, operators_missing (by rwa [s.kind_placeless])]
    refine .following ?_ ho'.complaints
    rw [ho'.after]
    exact hs
  case case5 => -- an operator
    intro room floor s more l op hop o ho hs
    have ho' := alike_expression_next op.precedence ho
    rw [operators_binary more hop,
      operators_binary (by rwa [s.kind_placeless]) (by rwa [s.kind_placeless])]
    refine .following ?_ ho'.complaints
    rw [ho'.result, ho'.after]
    exact hs
  case case6 => -- a call
    intro room floor s more l hop o ho hs
    have ho' : Alike (arguments room s.placeless.next) o := by
      rw [s.next_placeless]
      exact ho
    rw [operators_call more hop,
      operators_call (by rwa [s.kind_placeless]) (by rwa [s.kind_placeless])]
    refine .following ?_ ho'.complaints
    rw [ho'.result, ho'.after]
    exact hs
  case case7 => -- no further operator
    intro room floor left s stop
    rw [operators_stop stop, operators_stop (by rwa [s.kind_placeless])]
    exact ⟨rfl, rfl, rfl⟩
  case case8 => -- no arguments
    intro room s hk
    rw [arguments_of_end hk, arguments_of_end (by rwa [s.kind_placeless])]
    exact .accept s.next_placeless
  case case9 => -- a first argument
    intro room s hk o ho _ hm
    rw [arguments_of_more hk, arguments_of_more (by rwa [s.kind_placeless])]
    exact alike_cons ho hm
  case case10 => -- a further argument
    intro room s hk o ho _ hm
    rw [moreArguments_of_comma hk, moreArguments_of_comma (by rwa [s.kind_placeless])]
    exact alike_cons (alike_expression_next _ ho) hm
  case case11 => -- no further argument
    intro room s hk
    obtain ⟨result, complaints, after⟩ := alike_expect .rightParen s
    rw [moreArguments_of_end hk, moreArguments_of_end (by rwa [s.kind_placeless])]
    exact ⟨by simp only [result], complaints, after⟩
  case case12 => -- a name
    intro room s hk
    rw [operand_identifier hk, operand_identifier (by rwa [s.kind_placeless]), s.current_placeless]
    exact .accept s.next_placeless
  case case13 => -- a numeral
    intro room s hk
    rw [operand_integer hk, operand_integer (by rwa [s.kind_placeless])]
    exact alike_integer s
  case case14 => -- a quotation
    intro room s hk
    rw [operand_string hk, operand_string (by rwa [s.kind_placeless]), s.current_placeless]
    exact .accept s.next_placeless
  case case15 => -- true
    intro room s hk
    rw [operand_trueWord hk, operand_trueWord (by rwa [s.kind_placeless])]
    exact .accept s.next_placeless
  case case16 => -- false
    intro room s hk
    rw [operand_falseWord hk, operand_falseWord (by rwa [s.kind_placeless])]
    exact .accept s.next_placeless
  case case17 => -- an array
    intro room s hk
    have array : Alike (array s.placeless.next) (array s.next) := by
      rw [s.next_placeless]
      exact alike_array s.next
    rw [operand_leftBracket hk, operand_leftBracket (by rwa [s.kind_placeless])]
    exact array.following rfl
  case case18 => -- a negation
    intro room s hk ho
    obtain ⟨result, complaints, after⟩ := alike_expression_next _ ho
    rw [operand_bang hk, operand_bang (by rwa [s.kind_placeless])]
    exact ⟨by simp only [result], complaints, after⟩
  case case19 => -- a group
    intro room s hk ho
    obtain ⟨result, complaints, after⟩ := alike_expression_next _ ho
    rw [operand_leftParen hk, operand_leftParen (by rwa [s.kind_placeless])]
    have closing : Alike
        (expect .rightParen (expression room Precedence.lowest s.placeless.next).after)
        (expect .rightParen (expression room Precedence.lowest s.next).after) := by
      rw [after]
      exact alike_expect .rightParen _
    obtain ⟨result', complaints', after'⟩ := closing
    refine ⟨?_, ?_, after'⟩
    · simp only [result, result']
    · simp only [complaints, complaints', List.map_append]
  case case20 => -- nothing that an operand starts with
    intro room s h₁ h₂ h₃ h₄ h₅ h₆ h₇ h₈
    have none := not_startsOperand h₁ h₂ h₃ h₄ h₅ h₆ h₇ h₈
    rw [operand_of_no_start none, operand_of_no_start (by rwa [s.kind_placeless]),
      s.current_placeless]
    exact .refuseToken (placeless_noOperand _)

theorem any_placeless (cs : List Complaint) :
    (cs.map Complaint.placeless).any (·.problem = .nestedTooDeeply) =
      cs.any (·.problem = .nestedTooDeeply) := by
  rw [List.any_map]
  congr 1
  funext c
  exact decide_eq_decide.2 Complaint.placeless_eq_nested

theorem upToNesting_placeless (cs : List Complaint) :
    upToNesting (cs.map Complaint.placeless) = (upToNesting cs).map Complaint.placeless := by
  induction cs with
  | nil => rfl
  | cons c cs ih =>
    rw [List.map_cons, upToNesting, upToNesting, ih]
    by_cases h : c.problem = .nestedTooDeeply
    · rw [if_pos h, if_pos (Complaint.placeless_eq_nested.2 h)]
      rfl
    · rw [if_neg h, if_neg (mt Complaint.placeless_eq_nested.1 h)]
      rfl

theorem program_placeless [Nesting] (tokens : List Token) :
    program (tokens.map Token.placeless) =
      ((program tokens).1, (program tokens).2.map Complaint.placeless) := by
  have start : Stream.start (tokens.map Token.placeless) = (Stream.start tokens).placeless := rfl
  obtain ⟨result, complaints, after⟩ :=
    readers_alike.1 Nesting.limit Precedence.lowest (.start tokens)
  rw [program, program, start, Stream.kind_placeless]
  by_cases hend : (Stream.start tokens).kind = .endOfInput
  · rw [if_pos hend, if_pos hend]
    rfl
  · rw [if_neg hend, if_neg hend]
    simp only [result, complaints, after, any_placeless, upToNesting_placeless,
      Stream.kind_placeless, Stream.current_placeless]
    split
    · rfl
    · split
      · rfl
      · rw [List.map_append]
        rfl

end Parse

def Diagnostic.placeless : Diagnostic → Diagnostic
  | problem p => problem p.placeless
  | d => d

namespace Reading

theorem diagnostics_checked [Nesting] (r : Registry) (body : Option Expr) :
    (checked r body).diagnostics.map Diagnostic.placeless = (checked r body).diagnostics := by
  rw [checked]
  split <;> rfl

theorem ofTokens_placeless [Nesting] (r : Registry) (tokens : List Token) :
    ofTokens r (tokens.map Token.placeless) =
      ⟨(ofTokens r tokens).body, (ofTokens r tokens).diagnostics.map Diagnostic.placeless⟩ := by
  rw [ofTokens, ofTokens, Parse.program_placeless]
  obtain ⟨body, complaints⟩ := Parse.program tokens
  cases complaints with
  | nil =>
    change checked r body = ⟨(checked r body).body, _⟩
    rw [diagnostics_checked]
  | cons c complaints =>
    simp only [List.map_cons, List.map_map]
    rfl

end Reading

end Criterion
