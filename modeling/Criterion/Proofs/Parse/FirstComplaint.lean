import Mathlib
import Criterion.Proofs.Grammar.Prefixes
import Criterion.Proofs.Parse.Acceptance
import Criterion.Proofs.Parse.Passing
import Criterion.Token.Scan

/-!
The first complaint comes as early as it can: some condition begins with the tokens before the one
that is complained about, and none goes on with that one. The machine of the grammar is taken along
with the readers, and refuses the token that they complain about.
-/

namespace Criterion

open Grammar
open Grammar.Machine (settle step stepOperand stepAfter stepElement finish pass passAll passAll_cons
  passAll_append after element afterElement)

def Grammar.Word.text : Word → String
  | name text | numeral text | quotation text => text
  | _ => ""

def Grammar.Word.token (w : Word) : Token := ⟨w.kind, w.text, 0, 0⟩

theorem Grammar.Word.word_token (w : Word) : w.token.word = w := by
  cases w with
  | truth value => cases value <;> rfl
  | sign op => cases op <;> rfl
  | _ => rfl

namespace Parse

/-- A problem is with what a literal stands for, not with where a token stands. -/
def Problem.IsLiteral : Problem → Prop
  | .emptyArray | .mixedArray _ | .numeral _ => True
  | _ => False

def Problem.Misplaced (p : Problem) : Prop := ¬ p.IsLiteral ∧ p ≠ .nestedTooDeeply

def Problem.About (t : Token) : Problem → Prop
  | .empty => t.kind = .endOfInput
  | .illegal found | .trailing found | .arrayElement found | .expected _ found => found = t
  | .noOperand kind => kind = t.kind
  | .emptyArray | .mixedArray _ | .numeral _ | .nestedTooDeeply => False

theorem noOperand_about (t : Token) : (noOperand t).About t := by
  rw [noOperand]
  split <;> rfl

variable {s t : Stream} {ts : List Token} {c : Complaint} {cs ds : List Complaint}
  {m m' : Machine} {stack frames below : List Frame} {draft whole f : Draft} {as : List Draft}
  {level : Level} {room floor : Nat}

/-- The grammar allows no token like this one where the machine is, nor an end if it is one. -/
def Refuses (m : Machine) (t : Token) : Prop :=
  m.pass t.word = none ∧ (t.kind = .endOfInput → m.finish = none)

/-- The machine passes the tokens of a stream up to the one that is complained about and refuses
that one. -/
def StopsAt (m : Machine) (s : Stream) (c : Complaint) : Prop :=
  ∃ ts t m', s.Passes ts t ∧ m.passAll (ts.map Token.word) = some m' ∧
    c.position = t.position ∧ c.problem.About t.current ∧ Refuses m' t.current

/-- The machine stops at the first of some complaints if that one is about a misplaced token. -/
def Halts (m : Machine) (s : Stream) (cs : List Complaint) : Prop :=
  ∀ c, cs.head? = some c → c.problem.Misplaced → StopsAt m s c

theorem Halts.nil : Halts m s [] := by
  intro c h
  cases h

theorem Halts.append (h : Halts m s cs) (h' : cs = [] → Halts m s ds) : Halts m s (cs ++ ds) := by
  intro c hc misplaced
  rw [List.head?_append, Option.or_eq_some_iff, List.head?_eq_none_iff] at hc
  rcases hc with hc | ⟨none, hc⟩
  · exact h c hc misplaced
  · exact h' none c hc misplaced

theorem Halts.after (hp : s.Passes ts t) (hm : m.passAll (ts.map Token.word) = some m')
    (h : Halts m' t cs) : Halts m s cs := by
  intro c hc misplaced
  obtain ⟨us, u, last, hu, hl, position, about, refuses⟩ := h c hc misplaced
  refine ⟨ts ++ us, u, last, hp.trans hu, ?_, position, about, refuses⟩
  rw [List.map_append, passAll_append, hm, Option.bind_some, hl]

theorem Halts.next (more : s.kind ≠ .endOfInput) (hm : m.pass s.current.word = some m')
    (h : Halts m' s.next cs) : Halts m s cs := by
  refine .after (.next more) ?_ h
  rw [List.map_singleton, passAll_cons, hm]
  rfl

theorem Halts.here {problem : Problem} (about : problem.About s.current)
    (h : Refuses m s.current) : Halts m s [⟨s.position, problem⟩] := by
  intro c hc _
  cases hc
  exact ⟨[], s, m, .refl s, rfl, rfl, about, h⟩

theorem Halts.aside (h : ∀ c ∈ cs, ¬ c.problem.Misplaced) : Halts m s cs := by
  intro c hc misplaced
  exact absurd misplaced (h c (List.mem_of_head? hc))

/-- On top of a stack is a call without arguments so far, the one place where a parenthesis closes
before any operand. -/
def Fresh : List Frame → Prop
  | .call _ [] :: _ => True
  | _ => False

theorem refuses_operand {t : Token} (h : ¬ t.kind.startsOperand)
    (fresh : t.kind = .rightParen → ¬ Fresh stack) : Refuses (Machine.operand stack) t := by
  refine ⟨?_, fun _ => rfl⟩
  rcases t with ⟨kind, text, line, column⟩
  cases kind with
  | rightParen =>
    have closed := fresh rfl
    simp only [Token.word, TokenKind.word, Machine.pass, reduceCtorEq, if_false, step,
      stepOperand, Word.lexeme]
    split
    · exact absurd trivial closed
    · rfl
  | _ => first | rfl | exact absurd rfl h

theorem refuses_element {t : Token} {taken : List Lexeme}
    (h : ¬ (t.kind = .integer ∨ t.kind = .string)) (more : t.kind = .rightBracket → taken ≠ []) :
    Refuses (element stack taken) t := by
  refine ⟨?_, fun _ => rfl⟩
  rcases t with ⟨kind, text, line, column⟩
  cases kind with
  | rightBracket =>
    have some : taken ≠ [] := more rfl
    simp [Token.word, TokenKind.word, Machine.pass, step, stepElement, Word.lexeme, some]
  | integer => exact absurd (.inl rfl) h
  | string => exact absurd (.inr rfl) h
  | _ => rfl

theorem refuses_afterElement {t : Token} {taken : List Lexeme} (comma : t.kind ≠ .comma)
    (bracket : t.kind ≠ .rightBracket) : Refuses (afterElement stack taken) t := by
  refine ⟨?_, fun _ => rfl⟩
  rcases t with ⟨kind, text, line, column⟩
  cases kind with
  | comma => exact absurd rfl comma
  | rightBracket => exact absurd rfl bracket
  | _ => rfl

/-- After an operand, what is neither an operator nor an opening parenthesis can only end something:
a group, an argument, a call or the whole. -/
theorem refuses_after {t : Token} (loose : t.kind.precedence ≤ Precedence.lowest)
    (paren : t.kind = .rightParen → (after frames draft).pass .rightParen = none)
    (comma : t.kind = .comma → (after frames draft).pass .comma = none)
    (ending : t.kind = .endOfInput → (after frames draft).finish = none) :
    Refuses (after frames draft) t := by
  refine ⟨?_, ending⟩
  rcases t with ⟨kind, text, line, column⟩
  change kind.precedence ≤ Precedence.lowest at loose
  cases kind with
  | rightParen => exact paren rfl
  | comma => exact comma rfl
  | _ => first | rfl | exact absurd loose (by decide)

theorem refuses_whole {t : Token} (hs : settle 0 frames draft = ([], whole))
    (loose : t.kind.precedence ≤ Precedence.lowest) (more : t.kind ≠ .endOfInput) :
    Refuses (after frames draft) t := by
  refine refuses_after loose (fun _ => ?_) (fun _ => ?_) fun he => absurd he more
  · simp [Machine.pass, step, stepAfter, Word.lexeme, Terminal.level?, hs]
  · simp [Machine.pass, step, stepAfter, Word.lexeme, Terminal.level?, hs]

theorem refuses_group {t : Token} (hs : settle 0 frames draft = (.group :: below, whole))
    (loose : t.kind.precedence ≤ Precedence.lowest) (other : t.kind ≠ .rightParen) :
    Refuses (after frames draft) t := by
  refine refuses_after loose (fun he => absurd he other) (fun _ => ?_) fun _ => ?_
  · simp [Machine.pass, step, stepAfter, Word.lexeme, Terminal.level?, hs]
  · simp [finish, hs]

theorem refuses_call {t : Token} (hs : settle 0 frames draft = (.call f as :: below, whole))
    (loose : t.kind.precedence ≤ Precedence.lowest) (other : t.kind ≠ .rightParen)
    (comma : t.kind ≠ .comma) : Refuses (after frames draft) t := by
  refine refuses_after loose (fun he => absurd he other) (fun he => absurd he comma) fun _ => ?_
  simp [finish, hs]

theorem word_current {kind : TokenKind} (h : s.kind = kind) :
    s.current.word = kind.word s.current.text := by
  rw [← h]
  rfl

theorem operand_passed (h : (operand room s).complaints = []) (stack : List Frame) :
    ∃ ts e frames draft, s.Passes ts (operand room s).after ∧ (operand room s).result = some e ∧
      (Machine.operand stack).passAll (ts.map Token.word) = some (after frames draft) := by
  obtain ⟨e, ws, level, he, hw, ⟨d, rfl, -⟩, hl, -⟩ := readers_sound.2.2.2.2 room s h
  obtain ⟨ts, hp⟩ := readers_reach.2.2.2.2 room s h
  obtain ⟨frames, draft, hm⟩ := d.passAll stack fun low => absurd hl (by omega)
  exact ⟨ts, e, frames, draft, hp, he, by rw [hp.map_word hw, hm]⟩

theorem expression_passed {op : BinaryOp} (known : op ∈ level.operators)
    (h : (expression room op.precedence s).complaints = []) (left : Draft) (below : List Frame) :
    ∃ ts e frames draft, s.Passes ts (expression room op.precedence s).after ∧
      (expression room op.precedence s).result = some e ∧
      (Machine.operand (.pending left level.rank op.text :: below)).passAll (ts.map Token.word) =
        some (after frames draft) := by
  obtain ⟨e, ws, tight, he, hw, ⟨d, hd, -⟩, hl, -⟩ := readers_sound.1 room _ s op.precedence_pos h
  obtain ⟨ts, hp⟩ := readers_reach.1 room _ s h
  obtain ⟨known', mem, hk⟩ := op.exists_level
  obtain rfl : known' = level := Level.eq_of_operator mem known
  have low := Level.rank_le_of_operator known
  have free : known'.rank < tight.rank := by omega
  obtain ⟨frames, draft, hm⟩ :=
    d.passAll (.pending left known'.rank op.text :: below) fun _ => free
  refine ⟨ts, e, frames, draft, hp, he, ?_⟩
  rw [hp.map_word hw, ← List.nil_append ws, ← hd, hm]

theorem expression_enclosed (stack : List Frame)
    (h : (expression room Precedence.lowest s).complaints = []) (free : OpenFor 0 stack) :
    ∃ ts frames draft whole, s.Passes ts (expression room Precedence.lowest s).after ∧
      (Machine.operand stack).passAll (ts.map Token.word) = some (after frames draft) ∧
      settle 0 frames draft = (stack, whole) ∧
      (expression room Precedence.lowest s).after.kind.precedence ≤ Precedence.lowest := by
  have sound := readers_sound.1 room _ s (Nat.le_refl 1) h
  obtain ⟨e, ws, he, hw, d, hd, -⟩ := sound.logical
  obtain ⟨-, -, -, -, -, -, -, loose⟩ := sound
  obtain ⟨ts, hp⟩ := readers_reach.1 room _ s h
  obtain ⟨frames, draft, whole, hm, hs⟩ := d.passAll_enclosed stack free
  exact ⟨ts, frames, draft, whole, hp, by rw [hp.map_word hw, ← hd, hm], hs, loose⟩

theorem arguments_passed (h : (arguments room s).complaints = []) (f : Draft)
    (below : List Frame) :
    ∃ ts es draft, s.Passes ts (arguments room s).after ∧ (arguments room s).result = some es ∧
      (Machine.operand (.call f [] :: below)).passAll (ts.map Token.word) =
        some (after below draft) := by
  obtain ⟨es, ws, he, hw, ha⟩ := readers_sound.2.2.1 room s h
  obtain ⟨ts, hp⟩ := readers_reach.2.2.1 room s h
  have hts : ts.map Token.word = ws ++ [.rightParen] := hp.map_word (by rw [hw]; simp)
  rcases ha with ⟨-, rfl⟩ | ⟨as, rfl, -⟩
  · exact ⟨ts, es, .call f [], hp, he, by rw [hts]; rfl⟩
  · obtain ⟨frames, draft, before, last, hm, hs⟩ := as.passAll below f
    refine ⟨ts, es, .call f (before ++ [last]), hp, he, ?_⟩
    rw [hts, passAll_append, hm, Option.bind_some, passAll_cons,
      Machine.pass_eq _ (by decide), step_rightParen_call (Word.word_lexeme _) hs]
    rfl

theorem elements_halt (s : Stream) (stack : List Frame) (taken : List Lexeme)
    (more : s.kind = .rightBracket → taken ≠ []) :
    Halts (element stack taken) s (elements s).complaints := by
  have first : ∀ {s : Stream} (taken : List Lexeme), (s.kind = .integer ∨ s.kind = .string) →
      (element stack taken).pass s.current.word =
        some (afterElement stack (taken ++ [s.current.word.lexeme])) := by
    intro s taken hk
    rcases hk with hk | hk
    · rw [word_current hk]
      rfl
    · rw [word_current hk]
      rfl
  induction s using elements.induct generalizing taken with
  | case1 s hk t hc _ ih =>
    rw [elements, dif_pos hk, if_pos hc]
    refine .next (kind_ne_end_of_element hk) (first taken hk) ?_
    refine .next (hc ▸ by decide) (by rw [word_current hc]; rfl) ?_
    exact ih _ fun _ => by simp
  | case2 s hk t hc hb =>
    rw [elements, dif_pos hk, if_neg hc, if_pos hb]
    exact .nil
  | case3 s hk t hc hb =>
    rw [elements, dif_pos hk, if_neg hc, if_neg hb]
    refine .next (kind_ne_end_of_element hk) (first taken hk) ?_
    exact .here rfl (refuses_afterElement hc hb)
  | case4 s hk =>
    rw [elements, dif_neg hk]
    exact .here rfl (refuses_element hk more)

theorem arrayOf_literal {ts : List Token} {problems : List Problem}
    (h : arrayOf ts = .error problems) : ∀ p ∈ problems, p.IsLiteral := by
  rw [arrayOf] at h
  split at h
  · cases h
  · split at h
    · split at h
      · cases h
      · cases h
        intro p hp
        obtain ⟨fault, -, rfl⟩ := List.mem_map.1 hp
        trivial
    · cases h
      exact List.forall_mem_singleton.2 trivial

theorem array_halts (s : Stream) (stack : List Frame) :
    Halts (element stack []) s (array s).complaints := by
  rw [array]
  split
  · exact .aside (List.forall_mem_singleton.2 fun misplaced => misplaced.1 trivial)
  · next hb =>
    have inside : Halts (element stack []) s (elements s).complaints :=
      elements_halt s stack [] fun he => absurd he hb
    dsimp only
    split
    · exact inside
    · split
      · exact inside
      · next ha =>
        refine inside.append fun _ => .aside fun c hc misplaced => misplaced.1 ?_
        obtain ⟨p, hp, rfl⟩ := List.mem_map.1 hc
        exact arrayOf_literal ha p hp

theorem integer_halts (s : Stream) (m : Machine) : Halts m s (integer s).complaints := by
  rw [integer]
  split
  · exact .nil
  · exact .aside (List.forall_mem_singleton.2 fun misplaced => misplaced.1 trivial)

theorem expect_halts {kind : TokenKind} (h : s.kind ≠ kind → Refuses m s.current) :
    Halts m s (expect kind s).complaints := by
  by_cases hk : s.kind = kind
  · rw [expect_of_kind hk]
    exact .nil
  · rw [expect_of_other hk]
    exact .here rfl (h hk)

/-- Along with each reader, the machine stops at the first complaint. -/
theorem readers_halt :
    (∀ room floor s, 1 ≤ floor → ∀ stack, (s.kind = .rightParen → ¬ Fresh stack) →
      Halts (.operand stack) s (expression room floor s).complaints) ∧
    (∀ room floor left s, left ≠ none → 1 ≤ floor → ∀ frames draft,
      Halts (after frames draft) s (operators room floor left s).complaints) ∧
    (∀ room s, ∀ f below,
      Halts (.operand (.call f [] :: below)) s (arguments room s).complaints) ∧
    (∀ room s, s.kind.precedence ≤ Precedence.lowest → ∀ frames draft f as below whole,
      settle 0 frames draft = (.call f as :: below, whole) →
      Halts (after frames draft) s (moreArguments room s).complaints) ∧
    ∀ room s, s.kind.startsOperand → ∀ stack,
      Halts (.operand stack) s (operand room s).complaints := by
  apply expression.mutual_induct
    (fun room floor s => 1 ≤ floor → ∀ stack, (s.kind = .rightParen → ¬ Fresh stack) →
      Halts (.operand stack) s (expression room floor s).complaints)
    (fun room floor left s => left ≠ none → 1 ≤ floor → ∀ frames draft,
      Halts (after frames draft) s (operators room floor left s).complaints)
    (fun room s => ∀ f below,
      Halts (.operand (.call f [] :: below)) s (arguments room s).complaints)
    (fun room s => s.kind.precedence ≤ Precedence.lowest → ∀ frames draft f as below whole,
      settle 0 frames draft = (.call f as :: below, whole) →
      Halts (after frames draft) s (moreArguments room s).complaints)
    (fun room s => s.kind.startsOperand → ∀ stack,
      Halts (.operand stack) s (operand room s).complaints)
  case case1 => -- no room
    intro floor s _ stack _
    rw [expression]
    exact .aside (List.forall_mem_singleton.2 fun misplaced => misplaced.2 rfl)
  case case2 => -- an operand, then operators
    intro floor s room start o ho hs one stack _
    rw [expression_of_start start]
    refine (ho start stack).append fun none => ?_
    obtain ⟨ts, e, frames, draft, hp, he, hm⟩ := operand_passed none stack
    exact .after hp hm (hs (by rw [he]; simp) one frames draft)
  case case3 => -- no operand
    intro floor s room start _ stack fresh
    rw [expression_of_no_start start]
    exact .here (noOperand_about s.current) (refuses_operand start fresh)
  case case4 => -- an operator without a left operand
    intro room floor s _ o _ _ some
    exact absurd rfl some
  case case5 => -- an operator
    intro room floor s more l op hop o ho hs _ one frames draft
    rw [operators_binary more hop]
    obtain ⟨level, known, -⟩ := op.exists_level
    have taken := step_sign frames draft known (Word.word_lexeme (.sign op))
    refine .next more.1 (by rw [Token.word_eq_sign.2 hop]; exact taken) (.append ?_ fun none => ?_)
    · exact ho op.precedence_pos _ fun _ => id
    · obtain ⟨ts, e, frames', draft', hp, he, hm⟩ := expression_passed known none _ _
      exact .after hp hm (hs (by rw [he]; simp) one frames' draft')
  case case6 => -- a call
    intro room floor s more l hop o ho hs _ one frames draft
    have hk := TokenKind.eq_leftParen hop (Nat.lt_of_le_of_lt one more.2)
    rw [operators_call more hop]
    refine .next more.1 (by rw [word_current hk]; rfl) ((ho draft frames).append fun none => ?_)
    obtain ⟨ts, es, call, hp, he, hm⟩ := arguments_passed none draft frames
    exact .after hp hm (hs (by rw [he]; simp) one frames call)
  case case7 => -- no further operator
    intro room floor left s stop _ _ frames draft
    rw [operators_stop stop]
    exact .nil
  case case8 => -- no arguments
    intro room s hk f below
    rw [arguments_of_end hk]
    exact .nil
  case case9 => -- a first argument
    intro room s hk o ho _ hm f below
    rw [arguments_of_more hk]
    refine (ho (Nat.le_refl _) _ fun he => absurd he hk).append fun none => ?_
    obtain ⟨ts, frames, draft, whole, hp, hpass, hs, loose⟩ :=
      expression_enclosed (.call f [] :: below) none trivial
    exact .after hp hpass (hm loose frames draft f [] below whole hs)
  case case10 => -- a further argument
    intro room s hk o ho _ hm _ frames draft f as below whole hs
    rw [moreArguments_of_comma hk]
    have taken : (after frames draft).pass s.current.word =
        some (.operand (.call f (as ++ [whole]) :: below)) := by
      rw [word_current hk]
      exact step_comma (Word.word_lexeme _) hs
    have used : ¬ Fresh (.call f (as ++ [whole]) :: below) := by
      cases as <;> exact id
    refine .next (hk ▸ by decide) taken ((ho (Nat.le_refl _) _ fun _ => used).append fun none => ?_)
    obtain ⟨ts, frames', draft', whole', hp, hpass, hs', loose⟩ :=
      expression_enclosed (.call f (as ++ [whole]) :: below) none trivial
    exact .after hp hpass (hm loose frames' draft' f _ below whole' hs')
  case case11 => -- no further argument
    intro room s hk loose frames draft f as below whole hs
    rw [moreArguments_of_end hk]
    exact expect_halts fun other => refuses_call hs loose other hk
  case case12 => -- a name
    intro room s hk _ stack
    rw [operand_identifier hk]
    exact .nil
  case case13 => -- a numeral
    intro room s hk _ stack
    rw [operand_integer hk]
    exact integer_halts s _
  case case14 => -- a quotation
    intro room s hk _ stack
    rw [operand_string hk]
    exact .nil
  case case15 => -- true
    intro room s hk _ stack
    rw [operand_trueWord hk]
    exact .nil
  case case16 => -- false
    intro room s hk _ stack
    rw [operand_falseWord hk]
    exact .nil
  case case17 => -- an array
    intro room s hk _ stack
    rw [operand_leftBracket hk]
    exact .next (hk ▸ by decide) (by rw [word_current hk]; rfl) (array_halts s.next stack)
  case case18 => -- a negation
    intro room s hk ho _ stack
    rw [operand_bang hk]
    refine .next (hk ▸ by decide) (by rw [word_current hk]; rfl) ?_
    exact ho (by decide) (.negation UnaryOp.not.text :: stack) fun _ => id
  case case19 => -- a group
    intro room s hk ho _ stack
    rw [operand_leftParen hk]
    refine .next (hk ▸ by decide) (by rw [word_current hk]; rfl)
      ((ho (Nat.le_refl _) (.group :: stack) fun _ => id).append fun none => ?_)
    obtain ⟨ts, frames, draft, whole, hp, hpass, hs, loose⟩ :=
      expression_enclosed (.group :: stack) none trivial
    exact .after hp hpass (expect_halts fun other => refuses_group hs loose other)
  case case20 => -- nothing that an operand starts with
    intro room s h₁ h₂ h₃ h₄ h₅ h₆ h₇ h₈ start
    cases hk : s.kind <;> first | contradiction | simp [hk, TokenKind.startsOperand] at start

theorem program_halts [Nesting] {tokens : List Token} (shallow : Shallow (program tokens).2) :
    Halts .start (.start tokens) (program tokens).2 := by
  by_cases hend : (Stream.start tokens).kind = .endOfInput
  · rw [program_of_end hend]
    refine .here (s := .start tokens) hend ⟨?_, fun _ => rfl⟩
    rw [word_current hend]
    rfl
  · obtain ⟨-, hp⟩ := program_of_shallow hend shallow
    have inside := readers_halt.1 Nesting.limit Precedence.lowest (.start tokens) (Nat.le_refl _) []
      fun _ => id
    rw [hp]
    dsimp only
    split
    · exact inside
    · next more =>
      refine inside.append fun none => ?_
      obtain ⟨ts, frames, draft, whole, hts, hm, hs, loose⟩ :=
        expression_enclosed [] none trivial
      exact .after hts hm (.here rfl (refuses_whole hs loose more))

/-- Tokens that the grammar derives. -/
def Derivable (tokens : List Token) : Prop :=
  ∃ d : Derivation .logical, d.words = tokens.map Token.word

theorem viable_iff_derivable {ts : List Token} :
    Viable (ts.map Token.word) ↔ ∃ more, Derivable (ts ++ more) := by
  constructor
  · rintro ⟨d, more, hd⟩
    have same : Token.word ∘ Word.token = id := funext Word.word_token
    exact ⟨more.map Word.token, d, by rw [hd, List.map_append, List.map_map, same, List.map_id]⟩
  · rintro ⟨more, d, hd⟩
    exact ⟨d, more.map Token.word, by rw [hd, List.map_append]⟩

/-- Where the first complaint is not about a literal, it is about the first token that is out of
place: some condition begins with the tokens before it, none goes on with it, and at the end of the
tokens those before it make no condition themselves. -/
theorem program_complains_early [Nesting] {tokens : List Token} {c : Complaint}
    (shallow : Shallow (program tokens).2) (first : (program tokens).2.head? = some c)
    (proper : ¬ c.problem.IsLiteral) :
    let before := tokens.take c.position
    let t := tokens[c.position]?.getD .finish
    before.length = c.position ∧ c.problem.About t ∧ (∃ more, Derivable (before ++ more)) ∧
      (∀ more, ¬ Derivable (before ++ t :: more)) ∧
      (t.kind = .endOfInput → ¬ Derivable before) := by
  have misplaced : c.problem.Misplaced := ⟨proper, shallow c (List.mem_of_head? first)⟩
  obtain ⟨ts, s, m, hp, hm, position, about, refused, ending⟩ :=
    program_halts shallow c first misplaced
  have rest : tokens = ts ++ s.rest := hp.rest
  have length : c.position = ts.length := by
    rw [position, hp.position]
    exact Nat.zero_add _
  have before : tokens.take c.position = ts := by
    rw [length, rest, List.take_left]
  have current : tokens[c.position]?.getD .finish = s.current := by
    rw [length, rest, List.getElem?_append_right (Nat.le_refl _), Nat.sub_self,
      ← List.head?_eq_getElem?]
    rfl
  simp only [before, current]
  refine ⟨length.symm, about, viable_iff_derivable.1 (viable_iff.2 ⟨m, hm⟩), ?_, fun he => ?_⟩
  · intro more derivable
    refine not_viable_of_pass hm refused ?_
    have viable : Viable ((ts ++ [s.current]).map Token.word) :=
      viable_iff_derivable.2 ⟨more, by rwa [List.append_assoc]⟩
    rwa [List.map_append] at viable
  · rintro ⟨d, hd⟩
    exact not_derived_of_finish hm (ending he) d hd

open Nesting

theorem program_complains_early_array :
    (∃ more, Derivable ((tokenize "f([1 2])").take 4 ++ more)) ∧
      ∀ more, ¬ Derivable ((tokenize "f([1 2])").take 4 ++ ⟨.integer, "2", 1, 6⟩ :: more) := by
  have fifth : (tokenize "f([1 2])")[4]?.getD .finish = ⟨.integer, "2", 1, 6⟩ := by cbv
  have read : (program (tokenize "f([1 2])")).2 =
      [⟨4, .expected .rightBracket ⟨.integer, "2", 1, 6⟩⟩] := by cbv
  have shallow : Shallow (program (tokenize "f([1 2])")).2 := by
    rw [read, Shallow]
    decide
  obtain ⟨-, -, viable, refused, -⟩ := program_complains_early shallow (by rw [read]; rfl) id
  rw [fifth] at refused
  exact ⟨viable, refused⟩

end Parse

end Criterion
