import Criterion.Proofs.Grammar.Drafts

/-!
The machine recognises the words that the grammar derives. It takes the lexemes of a derivation to
where its draft is all that was added to the stack, up to operators that are not yet settled.
-/

namespace Criterion.Grammar

open Machine

variable {level : Level} {stack : List Frame} {l : Lexeme} {ls rest : List Lexeme}

/-- Nothing on top of a stack binds an operand as tightly as the operators of a level. -/
def OpenFor (level : Nat) : List Frame → Prop
  | .negation _ :: _ => False
  | .pending _ l _ :: _ => l < level
  | _ => True

theorem OpenFor.mono {k k' : Nat} (h : OpenFor k stack) (le : k ≤ k') : OpenFor k' stack := by
  cases stack with
  | nil => trivial
  | cons frame stack =>
    cases frame with
    | negation sign => exact h
    | pending left l sign => exact Nat.lt_of_lt_of_le h le
    | group => trivial
    | call function arguments => trivial

theorem settle_of_open {k : Nat} {draft : Draft} (h : OpenFor k stack) :
    settle k stack draft = (stack, draft) := by
  cases stack with
  | nil => rfl
  | cons frame stack =>
    cases frame with
    | negation sign => exact h.elim
    | pending left l sign =>
      have hl : ¬ k ≤ l := Nat.not_le_of_lt h
      rw [settle, if_neg hl]
    | group => rfl
    | call function arguments => rfl

theorem run_cons {m m' : Machine} (h : m.step l = some m') : m.run (l :: ls) = m'.run ls := by
  rw [run, h]

theorem step_leftParen {draft : Draft} (h : l.word = .leftParen) :
    (after stack draft).step l = some (operand (.call draft [] :: stack)) := by
  have ht : l.terminal = .leftParen := Lexeme.spells_of_word h nofun
  simp [step, stepAfter, ht, Terminal.level?]

theorem step_sign {op : BinaryOp} (stack : List Frame) (draft : Draft)
    (known : op ∈ level.operators) (h : l.word = .sign op) :
    (after stack draft).step l =
      some (operand (.pending (settle level.rank stack draft).2 level.rank op.text ::
        (settle level.rank stack draft).1)) := by
  obtain ⟨ht, hx⟩ := Lexeme.spells_of_word h nofun
  have hl : l.terminal.level? = some level.rank := by rw [ht, BinaryOp.level?_terminal known]
  simp [step, stepAfter, hl, hx]

theorem step_rightParen_group {draft : Draft} {frames : List Frame} {d : Draft}
    (h : l.word = .rightParen) (hs : settle 0 frames draft = (.group :: stack, d)) :
    (after frames draft).step l = some (after stack d) := by
  have ht : l.terminal = .rightParen := Lexeme.spells_of_word h nofun
  simp [step, stepAfter, ht, Terminal.level?, hs]

theorem step_rightParen_call {draft : Draft} {frames : List Frame} {d f : Draft} {as : List Draft}
    (h : l.word = .rightParen) (hs : settle 0 frames draft = (.call f as :: stack, d)) :
    (after frames draft).step l = some (after stack (.call f (as ++ [d]))) := by
  have ht : l.terminal = .rightParen := Lexeme.spells_of_word h nofun
  simp [step, stepAfter, ht, Terminal.level?, hs]

theorem step_comma {draft : Draft} {frames : List Frame} {d f : Draft} {as : List Draft}
    (h : l.word = .comma) (hs : settle 0 frames draft = (.call f as :: stack, d)) :
    (after frames draft).step l = some (operand (.call f (as ++ [d]) :: stack)) := by
  have ht : l.terminal = .comma := Lexeme.spells_of_word h nofun
  simp [step, stepAfter, ht, Terminal.level?, hs]

/-- From where an operand is due, the machine takes the lexemes of a derivation to its draft. -/
def Derivation.Taken (d : Derivation level) : Prop :=
  ∀ ls rest stack, ls.map Lexeme.word = d.words → (level.rank ≤ 5 → OpenFor level.rank stack) →
    ∃ frames draft, (operand stack).run (ls ++ rest) = (after frames draft).run rest ∧
      (7 ≤ level.rank → frames = stack ∧ d.Drafts draft) ∧
      ∃ whole, d.Drafts whole ∧ ∀ k ≤ level.rank, settle k frames draft = settle k stack whole

def Arguments.Taken (as : Arguments) : Prop :=
  ∀ ls rest stack f, ls.map Lexeme.word = as.words →
    ∃ frames draft before last,
      (operand (.call f [] :: stack)).run (ls ++ rest) = (after frames draft).run rest ∧
      settle 0 frames draft = (.call f before :: stack, last) ∧ as.Drafts (before ++ [last])

theorem Derivation.Taken.enclosed {d : Derivation .logical} (h : d.Taken) (stack : List Frame)
    (rest : List Lexeme) (hw : ls.map Lexeme.word = d.words) (free : OpenFor 0 stack) :
    ∃ frames draft whole, (operand stack).run (ls ++ rest) = (after frames draft).run rest ∧
      settle 0 frames draft = (stack, whole) ∧ d.Drafts whole := by
  obtain ⟨frames, draft, hr, -, whole, hd, hs⟩ :=
    h ls rest stack hw fun _ => free.mono (Nat.zero_le _)
  exact ⟨frames, draft, whole, hr, (hs 0 (Nat.zero_le _)).trans (settle_of_open free), hd⟩

theorem Derivation.Taken.tighter {d : Derivation level.tighter} (h : d.Taken)
    (loose : level ≠ .atom) : (Derivation.tighter loose d).Taken := by
  intro ls rest stack hw hopen
  have hrank := level.rank_le_tighter
  obtain ⟨frames, draft, hr, hs, whole, hd, hk⟩ :=
    h ls rest stack hw fun h => (hopen (by omega)).mono hrank
  exact ⟨frames, draft, hr, fun h => hs (by omega), whole, hd, fun k hk' => hk k (by omega)⟩

theorem Derivation.Taken.whole {d : Derivation level}
    (h : ∀ ls rest stack, ls.map Lexeme.word = d.words → ∃ draft,
      (operand stack).run (ls ++ rest) = (after stack draft).run rest ∧ d.Drafts draft) :
    d.Taken := by
  intro ls rest stack hw _
  obtain ⟨draft, hr, hd⟩ := h ls rest stack hw
  exact ⟨stack, draft, hr, fun _ => ⟨rfl, hd⟩, draft, hd, fun _ _ => rfl⟩

theorem Derivation.Taken.binary {left : Derivation level} {right : Derivation level.tighter}
    {op : BinaryOp} (hl : left.Taken) (hr : right.Taken) (known : op ∈ level.operators) :
    (Derivation.binary left op known right).Taken := by
  intro ls rest stack hw hopen
  have hlow := Level.rank_le_of_operator known
  have hrank := Level.rank_tighter (Level.ne_atom_of_operator known)
  obtain ⟨ls₁, ls₂', rfl, hw₁, hw₂⟩ := List.map_eq_append_iff.1 hw
  obtain ⟨l, ls₂, rfl, hw, hw₂⟩ := List.map_eq_cons_iff.1 hw₂
  obtain ⟨frames₁, draft₁, hr₁, -, whole₁, hd₁, hs₁⟩ :=
    hl ls₁ (l :: ls₂ ++ rest) stack hw₁ hopen
  have settled : settle level.rank frames₁ draft₁ = (stack, whole₁) :=
    (hs₁ _ (Nat.le_refl _)).trans (settle_of_open (hopen hlow))
  have hstep := step_sign frames₁ draft₁ known hw
  rw [settled] at hstep
  obtain ⟨frames₂, draft₂, hr₂, -, whole₂, hd₂, hs₂⟩ :=
    hr ls₂ rest (.pending whole₁ level.rank op.text :: stack) hw₂
      fun _ => by rw [hrank]; exact Nat.lt_succ_self _
  refine ⟨frames₂, draft₂, ?_, fun h => by omega, .binary whole₁ op.text whole₂,
    ⟨_, _, rfl, hd₁, hd₂⟩, fun k hk => ?_⟩
  · rw [List.append_assoc, hr₁, List.cons_append, run_cons hstep, hr₂]
  · rw [hs₂ k (by omega), settle, if_pos hk]

theorem Derivation.Taken.negation {operand : Derivation .unary} (h : operand.Taken) :
    (Derivation.negation operand).Taken := by
  intro ls rest stack hw hopen
  obtain ⟨l, ls, rfl, hw, hws⟩ := List.map_eq_cons_iff.1 hw
  obtain ⟨ht, hx⟩ := Lexeme.spells_of_word hw nofun
  obtain ⟨frames, draft, hr, -, whole, hd, hs⟩ :=
    h ls rest (.negation UnaryOp.not.text :: stack) hws fun h => absurd h (by decide)
  have hstep : (Machine.operand stack).step l =
      some (.operand (.negation UnaryOp.not.text :: stack)) := by
    simp [step, stepOperand, ht, hx]
  refine ⟨frames, draft, ?_, fun h => absurd h (by decide), .negation _ whole, ⟨_, rfl, hd⟩,
    fun k hk => ?_⟩
  · rw [List.cons_append, run_cons hstep, hr]
  · rw [hs k hk, settle]

theorem Derivation.Taken.call {function : Derivation .call} (h : function.Taken) :
    (Derivation.call function).Taken := by
  refine .whole fun ls rest stack hw => ?_
  obtain ⟨ls, ls', rfl, hf, hw⟩ := List.map_eq_append_iff.1 hw
  obtain ⟨l, ls', rfl, hl, hw⟩ := List.map_eq_cons_iff.1 hw
  obtain ⟨r, ls', rfl, hr, hw⟩ := List.map_eq_cons_iff.1 hw
  obtain rfl := List.map_eq_nil_iff.1 hw
  obtain ⟨frames, draft, hrun, hs, -⟩ :=
    h ls ([l, r] ++ rest) stack hf fun h => absurd h (by decide)
  obtain ⟨rfl, hd⟩ := hs (Nat.le_refl 7)
  have ht : r.terminal = .rightParen := Lexeme.spells_of_word hr nofun
  have hstep : (operand (.call draft [] :: frames)).step r =
      some (after frames (.call draft [])) := by
    simp [step, stepOperand, ht]
  refine ⟨.call draft [], ?_, _, rfl, hd⟩
  rw [List.append_assoc, hrun, List.cons_append, run_cons (step_leftParen hl), List.cons_append,
    run_cons hstep, List.nil_append]

theorem Derivation.Taken.callWith {function : Derivation .call} {arguments : Arguments}
    (hf : function.Taken) (ha : arguments.Taken) :
    (Derivation.callWith function arguments).Taken := by
  refine .whole fun ls rest stack hw => ?_
  obtain ⟨ls, ls', rfl, hfw, hws⟩ := List.map_eq_append_iff.1 hw
  obtain ⟨l, ls', rfl, hl, hws⟩ := List.map_eq_cons_iff.1 hws
  obtain ⟨ls₂, ls', rfl, hws₂, hws⟩ := List.map_eq_append_iff.1 hws
  obtain ⟨r, ls', rfl, hr, hws⟩ := List.map_eq_cons_iff.1 hws
  obtain rfl := List.map_eq_nil_iff.1 hws
  obtain ⟨frames, draft, hrun, hs, -⟩ :=
    hf ls (l :: (ls₂ ++ [r]) ++ rest) stack hfw fun h => absurd h (by decide)
  obtain ⟨rfl, hd⟩ := hs (Nat.le_refl 7)
  obtain ⟨frames', draft', before, last, hrun', hs', hda⟩ := ha ls₂ ([r] ++ rest) frames draft hws₂
  refine ⟨.call draft (before ++ [last]), ?_, _, _, rfl, hd, hda⟩
  rw [List.append_assoc, hrun, List.cons_append, run_cons (step_leftParen hl), List.append_assoc,
    hrun', List.cons_append, run_cons (step_rightParen_call hr hs'), List.nil_append]

theorem Derivation.Taken.group {inner : Derivation .logical} (h : inner.Taken) :
    (Derivation.group inner).Taken := by
  refine .whole fun ls rest stack hw => ?_
  obtain ⟨l, ls', rfl, hl, hw⟩ := List.map_eq_cons_iff.1 hw
  obtain ⟨ls, ls', rfl, hi, hw⟩ := List.map_eq_append_iff.1 hw
  obtain ⟨r, ls', rfl, hr, hw⟩ := List.map_eq_cons_iff.1 hw
  obtain rfl := List.map_eq_nil_iff.1 hw
  have ht : l.terminal = .leftParen := Lexeme.spells_of_word hl nofun
  have hstep : (operand stack).step l = some (operand (.group :: stack)) := by
    simp [step, stepOperand, ht]
  obtain ⟨frames, draft, whole, hrun, hs, hd⟩ :=
    h.enclosed (.group :: stack) ([r] ++ rest) hi trivial
  refine ⟨whole, ?_, hd⟩
  rw [List.cons_append, run_cons hstep, List.append_assoc, hrun, List.cons_append,
    run_cons (step_rightParen_group hr hs), List.nil_append]

theorem run_elements {elements : List Element} (stack : List Frame) (rest taken : List Lexeme)
    (some : elements ≠ [])
    (hw : ls.map Lexeme.word =
      (elements.map Element.word).intersperse .comma ++ [.rightBracket]) :
    ∃ more, (element stack taken).run (ls ++ rest) =
        (after stack (.array (taken ++ more))).run rest ∧
      more.map Lexeme.word = elements.map Element.word := by
  induction elements generalizing ls taken with
  | nil => exact absurd rfl some
  | cons e es ih =>
    have first : ∀ l : Lexeme, l.word = e.word →
        (element stack taken).step l = .some (afterElement stack (taken ++ [l])) := by
      intro l hl
      obtain ⟨hk | hk, -⟩ := Lexeme.element_of_word hl
      · simp [step, stepElement, hk]
      · simp [step, stepElement, hk]
    cases es with
    | nil =>
      obtain ⟨l, ls', rfl, hl, hw⟩ := List.map_eq_cons_iff.1 hw
      obtain ⟨r, ls', rfl, hr, hw⟩ := List.map_eq_cons_iff.1 hw
      obtain rfl := List.map_eq_nil_iff.1 hw
      have ht : r.terminal = .rightBracket := Lexeme.spells_of_word hr nofun
      have hstep : (afterElement stack (taken ++ [l])).step r =
          .some (after stack (.array (taken ++ [l]))) := by
        simp [step, stepAfterElement, ht]
      refine ⟨[l], ?_, by simp [hl]⟩
      rw [List.cons_append, run_cons (first l hl), List.cons_append, run_cons hstep,
        List.nil_append]
    | cons f es =>
      obtain ⟨l, ls', rfl, hl, hw⟩ := List.map_eq_cons_iff.1 hw
      obtain ⟨c, ls', rfl, hc, hw⟩ := List.map_eq_cons_iff.1 hw
      have ht : c.terminal = .comma := Lexeme.spells_of_word hc nofun
      have hstep : (afterElement stack (taken ++ [l])).step c =
          .some (element stack (taken ++ [l])) := by
        simp [step, stepAfterElement, ht]
      obtain ⟨more, hrun, hm⟩ := ih (taken ++ [l]) nofun hw
      refine ⟨l :: more, ?_, by rw [List.map_cons, hl, hm]; rfl⟩
      rw [List.cons_append, run_cons (first l hl), List.cons_append, run_cons hstep, hrun,
        List.append_assoc, List.singleton_append]

theorem Derivation.taken_array (elements : List Element) : (Derivation.array elements).Taken := by
  refine .whole fun ls rest stack hw => ?_
  obtain ⟨l, ls, rfl, hl, hw⟩ := List.map_eq_cons_iff.1 hw
  have ht : l.terminal = .leftBracket := Lexeme.spells_of_word hl nofun
  have hstep : (operand stack).step l = some (element stack []) := by
    simp [step, stepOperand, ht]
  by_cases hes : elements = []
  · subst hes
    obtain ⟨r, ls', rfl, hr, hw⟩ := List.map_eq_cons_iff.1 hw
    obtain rfl := List.map_eq_nil_iff.1 hw
    have ht' : r.terminal = .rightBracket := Lexeme.spells_of_word hr nofun
    have hstep' : (element stack []).step r = some (after stack (.array [])) := by
      simp [step, stepElement, ht']
    refine ⟨.array [], ?_, [], rfl, rfl⟩
    rw [List.cons_append, run_cons hstep, List.cons_append, run_cons hstep', List.nil_append]
  · obtain ⟨more, hrun, hm⟩ := run_elements stack rest [] hes hw
    refine ⟨.array more, ?_, more, rfl, hm⟩
    rw [List.cons_append, run_cons hstep, hrun, List.nil_append]

theorem Derivation.Taken.word {d : Derivation .atom} {w : Word} (hd : d.words = [w])
    (h : ∀ (l : Lexeme) (stack : List Frame), l.word = w →
      ∃ draft, (operand stack).step l = some (after stack draft) ∧ d.Drafts draft) : d.Taken := by
  refine .whole fun ls rest stack hw => ?_
  rw [hd] at hw
  obtain ⟨l, ls', rfl, hl, hw⟩ := List.map_eq_cons_iff.1 hw
  obtain rfl := List.map_eq_nil_iff.1 hw
  obtain ⟨draft, hstep, hdraft⟩ := h l stack hl
  exact ⟨draft, by rw [List.cons_append, run_cons hstep, List.nil_append], hdraft⟩

theorem Derivation.taken_name (text : String) : (Derivation.name text).Taken := by
  refine .word rfl fun l stack hl => ?_
  obtain ⟨ht, hx⟩ := Lexeme.spells_of_word hl nofun
  exact ⟨.word text, by simp [step, stepOperand, ht, hx], rfl⟩

theorem Derivation.taken_numeral (text : String) : (Derivation.numeral text).Taken := by
  refine .word rfl fun l stack hl => ?_
  obtain ⟨ht, hx⟩ := Lexeme.spells_of_word hl nofun
  exact ⟨.number text, by simp [step, stepOperand, ht, hx], rfl⟩

theorem Derivation.taken_quotation (content : String) : (Derivation.quotation content).Taken := by
  refine .word rfl fun l stack hl => ?_
  obtain ⟨ht, hx⟩ := Lexeme.spells_of_word hl nofun
  exact ⟨.quotation l, by simp [step, stepOperand, ht], l, rfl, hx⟩

theorem Derivation.taken_truth (value : Bool) : (Derivation.truth value).Taken := by
  refine .word rfl fun l stack hl => ?_
  refine ⟨.truth value, ?_, rfl⟩
  cases value with
  | true =>
    have ht : l.terminal = .trueWord := Lexeme.spells_of_word hl nofun
    simp [step, stepOperand, ht]
  | false =>
    have ht : l.terminal = .falseWord := Lexeme.spells_of_word hl nofun
    simp [step, stepOperand, ht]

theorem Arguments.Taken.one {d : Derivation .logical} (h : d.Taken) : (Arguments.one d).Taken := by
  intro ls rest stack f hw
  obtain ⟨frames, draft, whole, hr, hs, hd⟩ :=
    h.enclosed (.call f [] :: stack) rest hw trivial
  exact ⟨frames, draft, [], whole, hr, hs, whole, rfl, hd⟩

theorem Arguments.Taken.snoc {before : Arguments} {d : Derivation .logical} (hb : before.Taken)
    (h : d.Taken) : (Arguments.snoc before d).Taken := by
  intro ls rest stack f hw
  obtain ⟨ls₁, ls₂', rfl, hw₁, hw₂⟩ := List.map_eq_append_iff.1 hw
  obtain ⟨c, ls₂, rfl, hc, hw₂⟩ := List.map_eq_cons_iff.1 hw₂
  obtain ⟨frames, draft, drafts, last, hr, hs, hd⟩ := hb ls₁ (c :: ls₂ ++ rest) stack f hw₁
  obtain ⟨frames', draft', whole, hr', hs', hd'⟩ :=
    h.enclosed (.call f (drafts ++ [last]) :: stack) rest hw₂ trivial
  refine ⟨frames', draft', drafts ++ [last], whole, ?_, hs', _, whole, rfl, hd, hd'⟩
  rw [List.append_assoc, hr, List.cons_append, run_cons (step_comma hc hs), hr']

mutual

theorem Derivation.taken {level : Level} : ∀ d : Derivation level, d.Taken
  | .tighter loose d => d.taken.tighter loose
  | .binary left _ known right => left.taken.binary right.taken known
  | .negation d => d.taken.negation
  | .call function => function.taken.call
  | .callWith function arguments => .callWith function.taken arguments.taken
  | .name text => Derivation.taken_name text
  | .numeral text => Derivation.taken_numeral text
  | .quotation content => Derivation.taken_quotation content
  | .truth value => Derivation.taken_truth value
  | .array elements => Derivation.taken_array elements
  | .group inner => inner.taken.group

theorem Arguments.taken : ∀ as : Arguments, as.Taken
  | .one d => .one d.taken
  | .snoc before d => .snoc before.taken d.taken

end

/-- The machine recognises the lexemes of a condition and drafts it. -/
theorem Machine.run_complete (d : Derivation .logical) (h : ls.map Lexeme.word = d.words) :
    ∃ m draft, start.run ls = .ok m ∧ m.finish = some draft ∧ d.Drafts draft := by
  obtain ⟨frames, draft, whole, hr, hs, hd⟩ := d.taken.enclosed [] [] h trivial
  refine ⟨after frames draft, whole, ?_, ?_, hd⟩
  · rw [List.append_nil] at hr
    exact hr
  · rw [finish, hs]

end Criterion.Grammar
