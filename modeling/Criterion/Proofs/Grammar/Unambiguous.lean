import Criterion.Proofs.Grammar.Derivation

/-!
The grammar is unambiguous: the words that a derivation derives determine it. Derivations are taken
apart from their last word on, which is where operators that associate to the left come apart.
-/

namespace Criterion.Grammar

variable {level : Level}

def Word.closes : Word → Bool
  | name _ | numeral _ | quotation _ | truth _ | rightBracket | rightParen => true
  | _ => false

/-- The words before which no derivation from a level can go on to the left. -/
def Word.bounds (level : Level) : Word → Prop
  | leftParen | comma => True
  | sign op => ∃ looser : Level, op ∈ looser.operators ∧ looser.rank < level.rank
  | bang => Level.call.rank ≤ level.rank
  | _ => False

/-- The words before a derivation end where it starts. -/
def Bounded (level : Level) (before : List Word) : Prop :=
  ∀ w ∈ before.getLast?, w.bounds level

theorem bounded_nil (level : Level) : Bounded level [] := nofun

theorem bounded_concat {before : List Word} {w : Word} :
    Bounded level (before ++ [w]) ↔ w.bounds level := by
  simp [Bounded]

theorem Word.bounds.mono {w : Word} {other : Level} (h : w.bounds level)
    (le : level.rank ≤ other.rank) : w.bounds other := by
  cases w with
  | leftParen => trivial
  | comma => trivial
  | sign op =>
    obtain ⟨looser, known, lt⟩ := h
    exact ⟨looser, known, Nat.lt_of_lt_of_le lt le⟩
  | bang => exact Nat.le_trans h le
  | _ => exact h.elim

theorem Bounded.mono {before : List Word} {other : Level} (h : Bounded level before)
    (le : level.rank ≤ other.rank) : Bounded other before :=
  fun w hw => (h w hw).mono le

mutual

theorem Derivation.exists_last {level : Level} :
    ∀ d : Derivation level, ∃ ws w, d.words = ws ++ [w] ∧ w.closes
  | .name text => ⟨[], .name text, rfl, rfl⟩
  | .numeral text => ⟨[], .numeral text, rfl, rfl⟩
  | .quotation content => ⟨[], .quotation content, rfl, rfl⟩
  | .truth value => ⟨[], .truth value, rfl, rfl⟩
  | .array elements =>
    ⟨.leftBracket :: (elements.map Element.word).intersperse .comma, .rightBracket,
      by simp [Derivation.words], rfl⟩
  | .group inner => ⟨.leftParen :: inner.words, .rightParen, by simp [Derivation.words], rfl⟩
  | .call function => ⟨function.words ++ [.leftParen], .rightParen, by simp [Derivation.words], rfl⟩
  | .callWith function arguments =>
    ⟨function.words ++ .leftParen :: arguments.words, .rightParen, by simp [Derivation.words], rfl⟩
  | .negation operand => by
    obtain ⟨ws, w, hw, hc⟩ := operand.exists_last
    exact ⟨.bang :: ws, w, by simp [Derivation.words, hw], hc⟩
  | .binary left op _ right => by
    obtain ⟨ws, w, hw, hc⟩ := right.exists_last
    exact ⟨left.words ++ .sign op :: ws, w, by simp [Derivation.words, hw], hc⟩
  | .tighter _ d => d.exists_last

end

theorem Arguments.exists_last (as : Arguments) :
    ∃ ws w, as.words = ws ++ [w] ∧ w.closes := by
  cases as with
  | one d => exact d.exists_last
  | snoc before d =>
    obtain ⟨ws, w, hw, hc⟩ := d.exists_last
    exact ⟨before.words ++ .comma :: ws, w, by simp [Arguments.words, hw], hc⟩

/-- What ends with a derivation does not end where another one starts. -/
theorem Derivation.not_bounded {other : Level} (d : Derivation level) (before : List Word) :
    ¬ Bounded other (before ++ d.words) := by
  obtain ⟨ws, w, hw, hc⟩ := d.exists_last
  rw [hw, ← List.append_assoc, bounded_concat]
  cases w <;> first | exact id | exact nomatch hc

def Derivation.negations (n : Nat) (d : Derivation .call) : Derivation .unary :=
  n.repeat .negation (.tighter (by decide) d)

theorem Derivation.words_negations (n : Nat) (d : Derivation .call) :
    (negations n d).words = List.replicate n .bang ++ d.words := by
  induction n with
  | zero => rfl
  | succ n ih =>
    change Word.bang :: (negations n d).words = _
    rw [ih, List.replicate_succ, List.cons_append]

theorem Derivation.exists_negations : ∀ d : Derivation .unary, ∃ n c, d = negations n c
  | .tighter _ d => ⟨0, d, rfl⟩
  | .negation operand => by
    obtain ⟨n, c, h⟩ := operand.exists_negations
    exact ⟨n + 1, c, congrArg Derivation.negation h⟩

theorem Derivation.binary_or_tighter (h : level.rank ≤ 5) (d : Derivation level) :
    (∃ loose inner, d = .tighter loose inner) ∨
      ∃ left op known right, d = .binary left op known right := by
  cases d with
  | tighter loose inner => exact .inl ⟨loose, inner, rfl⟩
  | binary left op known right => exact .inr ⟨left, op, known, right, rfl⟩
  | negation => exact absurd h (by decide)
  | call => exact absurd h (by decide)
  | callWith => exact absurd h (by decide)
  | name => exact absurd h (by decide)
  | numeral => exact absurd h (by decide)
  | quotation => exact absurd h (by decide)
  | truth => exact absurd h (by decide)
  | array => exact absurd h (by decide)
  | group => exact absurd h (by decide)

/-- The words of a derivation, with words before them that end where it starts, tell which
derivation from its level it is and where it starts. -/
def Derivation.Determined (d : Derivation level) : Prop :=
  ∀ (e : Derivation level) (u v : List Word), Bounded level u → Bounded level v →
    u ++ d.words = v ++ e.words → d = e ∧ u = v

theorem Level.eq_of_operator {level other : Level} {op : BinaryOp} (h : op ∈ level.operators)
    (h' : op ∈ other.operators) : level = other := by
  cases op <;> cases level <;> first
    | exact absurd h (by decide)
    | cases other <;> first | rfl | exact absurd h' (by decide)

theorem not_bounded_sign {before : List Word} {op : BinaryOp} (known : op ∈ level.operators) :
    ¬ Bounded level (before ++ [.sign op]) := by
  rw [bounded_concat]
  rintro ⟨looser, known', lt⟩
  rw [Level.eq_of_operator known known'] at lt
  exact Nat.lt_irrefl _ lt

theorem bounded_sign {before : List Word} {op : BinaryOp} (known : op ∈ level.operators) :
    Bounded level.tighter (before ++ [.sign op]) := by
  rw [bounded_concat]
  refine ⟨level, known, ?_⟩
  rw [Level.rank_tighter (Level.ne_atom_of_operator known)]
  exact Nat.lt_succ_self _

theorem Derivation.Determined.tighter {d : Derivation level.tighter} (h : d.Determined)
    (hb : level.rank ≤ 5) (loose : level ≠ .atom) :
    (Derivation.tighter loose d).Determined := by
  intro e u v hu hv he
  have hu' := hu.mono level.rank_le_tighter
  rcases e.binary_or_tighter hb with ⟨_, inner, rfl⟩ | ⟨left, op, known, right, rfl⟩
  · obtain ⟨rfl, rfl⟩ := h inner u v hu' (hv.mono level.rank_le_tighter) he
    exact ⟨rfl, rfl⟩
  · have he' : u ++ d.words = (v ++ left.words ++ [.sign op]) ++ right.words := by
      simpa [Derivation.words] using he
    obtain ⟨-, rfl⟩ := h right u _ hu' (bounded_sign known) he'
    exact absurd hu (not_bounded_sign known)

theorem Derivation.Determined.binary {left : Derivation level} {right : Derivation level.tighter}
    {op : BinaryOp} (hl : left.Determined) (hr : right.Determined)
    (known : op ∈ level.operators) : (Derivation.binary left op known right).Determined := by
  intro e u v hu hv he
  have he' : (u ++ left.words ++ [.sign op]) ++ right.words = v ++ e.words := by
    simpa [Derivation.words] using he
  rcases e.binary_or_tighter (Level.rank_le_of_operator known) with
    ⟨_, inner, rfl⟩ | ⟨left', op', known', right', rfl⟩
  · obtain ⟨-, rfl⟩ := hr inner _ v (bounded_sign known) (hv.mono level.rank_le_tighter) he'
    exact absurd hv (not_bounded_sign known)
  · obtain ⟨rfl, hs⟩ := hr right' (u ++ left.words ++ [.sign op])
      (v ++ left'.words ++ [.sign op']) (bounded_sign known) (bounded_sign known')
      (by simpa [Derivation.words] using he')
    obtain ⟨hw, ho⟩ := List.append_inj' hs rfl
    cases ho
    obtain ⟨rfl, rfl⟩ := hl left' u v hu hv hw
    exact ⟨rfl, rfl⟩

theorem bounded_bangs {before : List Word} (h : Bounded .unary before) (n : Nat) :
    Bounded .call (before ++ List.replicate n .bang) := by
  cases n with
  | zero => simpa using h.mono (by decide)
  | succ n => simp [List.replicate_succ', ← List.append_assoc, bounded_concat, Word.bounds]

theorem not_bounded_bangs {before : List Word} {n : Nat} :
    ¬ Bounded .unary (before ++ List.replicate (n + 1) .bang) := by
  rw [List.replicate_succ', ← List.append_assoc, bounded_concat]
  exact (by decide : ¬ Level.call.rank ≤ Level.unary.rank)

theorem eq_of_bangs {u v : List Word} {n m : Nat} (hu : Bounded .unary u) (hv : Bounded .unary v)
    (h : u ++ List.replicate n .bang = v ++ List.replicate m .bang) : n = m ∧ u = v := by
  induction n generalizing m with
  | zero =>
    cases m with
    | zero => simpa using h
    | succ m =>
      rw [List.replicate_zero, List.append_nil] at h
      exact absurd (h ▸ hu) not_bounded_bangs
  | succ n ih =>
    cases m with
    | zero =>
      rw [List.replicate_zero, List.append_nil] at h
      exact absurd (h ▸ hv) not_bounded_bangs
    | succ m =>
      rw [List.replicate_succ', List.replicate_succ', ← List.append_assoc,
        ← List.append_assoc] at h
      obtain ⟨rfl, rfl⟩ := ih (List.append_inj' h rfl).1
      exact ⟨rfl, rfl⟩

theorem Derivation.Determined.negations {d : Derivation .call} (h : d.Determined) (n : Nat) :
    (Derivation.negations n d).Determined := by
  intro e u v hu hv he
  obtain ⟨m, c, rfl⟩ := e.exists_negations
  rw [words_negations, words_negations, ← List.append_assoc, ← List.append_assoc] at he
  obtain ⟨rfl, hs⟩ := h c _ _ (bounded_bangs hu n) (bounded_bangs hv m) he
  obtain ⟨rfl, rfl⟩ := eq_of_bangs hu hv hs
  exact ⟨rfl, rfl⟩

def Arguments.Determined : Arguments → Prop
  | .one d => d.Determined
  | .snoc before d => before.Determined ∧ d.Determined

theorem bounded_leftParen (before : List Word) : Bounded .logical (before ++ [.leftParen]) :=
  bounded_concat.2 trivial

theorem bounded_comma (before : List Word) : Bounded .logical (before ++ [.comma]) :=
  bounded_concat.2 trivial

theorem Arguments.eq_of_words {u v : List Word} : ∀ (as bs : Arguments), as.Determined →
    (u ++ [.leftParen]) ++ as.words = (v ++ [.leftParen]) ++ bs.words → as = bs ∧ u = v
  | .one d, .one e, h, he => by
    obtain ⟨rfl, hs⟩ := h e _ _ (bounded_leftParen u) (bounded_leftParen v) he
    exact ⟨rfl, (List.append_inj' hs rfl).1⟩
  | .one d, .snoc before e, h, he => by
    obtain ⟨-, hs⟩ := h e _ (v ++ [.leftParen] ++ before.words ++ [.comma]) (bounded_leftParen u)
      (bounded_comma _) (by simpa [Arguments.words] using he)
    exact nomatch (List.append_inj' hs rfl).2
  | .snoc before d, .one e, h, he => by
    obtain ⟨-, hs⟩ := h.2 e (u ++ [.leftParen] ++ before.words ++ [.comma]) _ (bounded_comma _)
      (bounded_leftParen v) (by simpa [Arguments.words] using he)
    exact nomatch (List.append_inj' hs rfl).2
  | .snoc before d, .snoc before' e, h, he => by
    obtain ⟨rfl, hs⟩ := h.2 e (u ++ [.leftParen] ++ before.words ++ [.comma])
      (v ++ [.leftParen] ++ before'.words ++ [.comma]) (bounded_comma _) (bounded_comma _)
      (by simpa [Arguments.words] using he)
    obtain ⟨rfl, rfl⟩ := eq_of_words before before' h.1 (List.append_inj' hs rfl).1
    exact ⟨rfl, rfl⟩


theorem concat_leftParen_ne {xs ys : List Word} {w : Word} (hc : w.closes) :
    xs ++ [.leftParen] ≠ ys ++ [w] := by
  intro h
  cases (List.append_inj' h rfl).2
  exact nomatch hc

theorem Derivation.concat_leftParen_ne (d : Derivation level) (xs ys : List Word) :
    xs ++ [.leftParen] ≠ ys ++ d.words := by
  obtain ⟨ws, w, hw, hc⟩ := d.exists_last
  rw [hw, ← List.append_assoc]
  exact Grammar.concat_leftParen_ne hc

theorem Arguments.concat_leftParen_ne (as : Arguments) (xs ys : List Word) :
    xs ++ [.leftParen] ≠ ys ++ as.words := by
  obtain ⟨ws, w, hw, hc⟩ := as.exists_last
  rw [hw, ← List.append_assoc]
  exact Grammar.concat_leftParen_ne hc

def Word.operand? : Word → Option (Derivation .atom)
  | name text => some (.name text)
  | numeral text => some (.numeral text)
  | quotation content => some (.quotation content)
  | truth value => some (.truth value)
  | _ => none

/-- What can be called, by its last word and the words before that. -/
inductive Ending : Derivation .call → List Word → Word → Prop
  | call (function : Derivation .call) :
      Ending (.call function) (function.words ++ [.leftParen]) .rightParen
  | callWith (function : Derivation .call) (arguments : Arguments) :
      Ending (.callWith function arguments)
        ((function.words ++ [.leftParen]) ++ arguments.words) .rightParen
  | group (loose : Level.call ≠ .atom) (inner : Derivation .logical) :
      Ending (.tighter loose (.group inner)) ([.leftParen] ++ inner.words) .rightParen
  | array (loose : Level.call ≠ .atom) (elements : List Element) :
      Ending (.tighter loose (.array elements))
        (.leftBracket :: (elements.map Element.word).intersperse .comma) .rightBracket
  | word (loose : Level.call ≠ .atom) {a : Derivation .atom} {w : Word}
      (alone : w.operand? = some a) : Ending (.tighter loose a) [] w

theorem Derivation.ending (d : Derivation .call) :
    ∃ ws w, Ending d ws w ∧ d.words = ws ++ [w] := by
  cases d with
  | binary _ _ known => cases known
  | call function => exact ⟨_, _, .call function, by simp [words]⟩
  | callWith function arguments => exact ⟨_, _, .callWith function arguments, by simp [words]⟩
  | tighter loose a =>
    cases a with
    | tighter loose => exact absurd rfl loose
    | binary _ _ known => cases known
    | group inner => exact ⟨_, _, .group loose inner, by simp [words]⟩
    | array elements => exact ⟨_, _, .array loose elements, by simp [words]⟩
    | name text => exact ⟨[], .name text, .word loose rfl, rfl⟩
    | numeral text => exact ⟨[], .numeral text, .word loose rfl, rfl⟩
    | quotation content => exact ⟨[], .quotation content, .word loose rfl, rfl⟩
    | truth value => exact ⟨[], .truth value, .word loose rfl, rfl⟩

theorem Ending.of_words (ws : List Word) (w : Word) {d e : Derivation .call} {u v : List Word}
    (hd : d.words = ws ++ [w]) (h : u ++ d.words = v ++ e.words) :
    ∃ ws', Ending e ws' w ∧ u ++ ws = v ++ ws' := by
  obtain ⟨ws', w', he, hw⟩ := e.ending
  rw [hd, hw, ← List.append_assoc, ← List.append_assoc] at h
  obtain ⟨hs, hl⟩ := List.append_inj' h rfl
  cases hl
  exact ⟨ws', he, hs⟩

theorem Derivation.Determined.call {function : Derivation .call} (h : function.Determined) :
    (Derivation.call function).Determined := by
  intro e u v hu hv he
  obtain ⟨ws, hend, hs⟩ :=
    Ending.of_words (function.words ++ [.leftParen]) .rightParen (by simp [words]) he
  rw [← List.append_assoc] at hs
  cases hend with
  | call other =>
    rw [← List.append_assoc] at hs
    obtain ⟨rfl, rfl⟩ := h other u v hu hv (List.append_inj' hs rfl).1
    exact ⟨rfl, rfl⟩
  | callWith other arguments =>
    rw [← List.append_assoc] at hs
    exact absurd hs (arguments.concat_leftParen_ne _ _)
  | group loose inner =>
    rw [← List.append_assoc] at hs
    exact absurd hs (inner.concat_leftParen_ne _ _)
  | word _ alone => cases alone

theorem Derivation.Determined.callWith {function : Derivation .call} {arguments : Arguments}
    (hf : function.Determined) (ha : arguments.Determined) :
    (Derivation.callWith function arguments).Determined := by
  intro e u v hu hv he
  obtain ⟨ws, hend, hs⟩ := Ending.of_words
    ((function.words ++ [.leftParen]) ++ arguments.words) .rightParen (by simp [words]) he
  rw [← List.append_assoc, ← List.append_assoc] at hs
  cases hend with
  | call other =>
    rw [← List.append_assoc] at hs
    exact absurd hs.symm (arguments.concat_leftParen_ne _ _)
  | callWith other arguments' =>
    rw [← List.append_assoc, ← List.append_assoc] at hs
    obtain ⟨rfl, hw⟩ := arguments.eq_of_words arguments' ha hs
    obtain ⟨rfl, rfl⟩ := hf other u v hu hv hw
    exact ⟨rfl, rfl⟩
  | group loose inner =>
    rw [← List.append_assoc] at hs
    obtain ⟨-, rfl⟩ := arguments.eq_of_words (.one inner) ha hs
    exact absurd hv (function.not_bounded u)
  | word _ alone => cases alone

theorem Derivation.Determined.group {inner : Derivation .logical} (h : inner.Determined)
    (loose : Level.call ≠ .atom) : (Derivation.tighter loose (.group inner)).Determined := by
  intro e u v hu hv he
  obtain ⟨ws, hend, hs⟩ :=
    Ending.of_words ([.leftParen] ++ inner.words) .rightParen (by simp [words]) he
  rw [← List.append_assoc] at hs
  cases hend with
  | call other =>
    rw [← List.append_assoc] at hs
    exact absurd hs.symm (inner.concat_leftParen_ne _ _)
  | callWith other arguments =>
    rw [← List.append_assoc, ← List.append_assoc] at hs
    obtain ⟨-, rfl⟩ := (Arguments.one inner).eq_of_words arguments h hs
    exact absurd hu (other.not_bounded v)
  | group _ other =>
    rw [← List.append_assoc] at hs
    obtain ⟨hi, rfl⟩ := (Arguments.one inner).eq_of_words (.one other) h hs
    cases hi
    exact ⟨rfl, rfl⟩
  | word _ alone => cases alone

theorem eq_of_intersperse {α : Type} {c : α} : ∀ {xs ys : List α},
    xs.intersperse c = ys.intersperse c → xs = ys
  | [], [], _ => rfl
  | [], [_], h => nomatch h
  | [], _ :: _ :: _, h => nomatch h
  | [_], [], h => nomatch h
  | [_], [_], h => h
  | [_], _ :: _ :: _, h => nomatch h
  | _ :: _ :: _, [], h => nomatch h
  | _ :: _ :: _, [_], h => nomatch h
  | x :: y :: xs, x' :: y' :: ys, h => by
    simp only [List.intersperse_cons_cons, List.cons.injEq, true_and] at h
    rw [h.1, eq_of_intersperse h.2]

theorem eq_of_append_cons {α : Type} {a : α} {xs ys u v : List α} (hx : a ∉ xs) (hy : a ∉ ys)
    (h : u ++ a :: xs = v ++ a :: ys) : xs = ys ∧ u = v := by
  rcases List.append_eq_append_iff.1 h with ⟨_ | ⟨w, ws⟩, rfl, h'⟩ | ⟨_ | ⟨w, ws⟩, rfl, h'⟩
  · exact ⟨(List.cons.inj h').2, (List.append_nil u).symm⟩
  · exact absurd ((List.cons.inj h').2 ▸ List.mem_append_right ws (List.mem_cons_self ..)) hx
  · exact ⟨(List.cons.inj h').2.symm, List.append_nil v⟩
  · exact absurd ((List.cons.inj h').2 ▸ List.mem_append_right ws (List.mem_cons_self ..)) hy

theorem Element.word_injective {e f : Element} (h : e.word = f.word) : e = f := by
  cases e <;> cases f <;> simp_all [Element.word]

theorem Element.leftBracket_notMem (es : List Element) :
    .leftBracket ∉ (es.map Element.word).intersperse .comma := by
  intro h
  rcases mem_intersperse h with h | h
  · exact nomatch h
  · obtain ⟨e, -, he⟩ := List.mem_map.1 h
    cases e <;> exact nomatch he

theorem Derivation.determined_array (elements : List Element) (loose : Level.call ≠ .atom) :
    (Derivation.tighter loose (.array elements)).Determined := by
  intro e u v hu hv he
  obtain ⟨ws, hend, hs⟩ := Ending.of_words
    (.leftBracket :: (elements.map Element.word).intersperse .comma) .rightBracket
    (by simp [words]) he
  cases hend with
  | array _ others =>
    obtain ⟨hi, rfl⟩ := eq_of_append_cons (Element.leftBracket_notMem elements)
      (Element.leftBracket_notMem others) hs
    obtain rfl := (List.map_inj_right fun _ _ => Element.word_injective).1 (eq_of_intersperse hi)
    exact ⟨rfl, rfl⟩
  | word _ alone => cases alone

theorem Derivation.determined_word {a : Derivation .atom} {w : Word} (ha : a.words = [w])
    (alone : w.operand? = some a) (loose : Level.call ≠ .atom) :
    (Derivation.tighter loose a).Determined := by
  intro e u v hu hv he
  obtain ⟨ws, hend, hs⟩ := Ending.of_words [] w ha he
  cases hend with
  | word _ alone' =>
    obtain rfl := Option.some.inj (alone.symm.trans alone')
    exact ⟨rfl, by simpa using hs⟩
  | _ => exact nomatch alone

theorem Derivation.sizeOf_lt_tighter (loose : level ≠ .atom) (d : Derivation level.tighter) :
    sizeOf d < sizeOf (Derivation.tighter loose d) := by
  simp only [tighter.sizeOf_spec]
  omega

theorem Derivation.sizeOf_lt_negations (n : Nat) (d : Derivation .call) :
    sizeOf d < sizeOf (negations n d) := by
  induction n with
  | zero => exact sizeOf_lt_tighter (show Level.unary ≠ .atom by decide) d
  | succ n ih =>
    change sizeOf d < sizeOf (Derivation.negation (negations n d))
    simp only [negation.sizeOf_spec]
    omega

theorem Derivation.sizeOf_lt_group (loose : Level.call ≠ .atom) (inner : Derivation .logical) :
    sizeOf inner < sizeOf (Derivation.tighter loose (.group inner)) := by
  have shorter : sizeOf inner < sizeOf (Derivation.group inner) := by simp
  exact Nat.lt_trans shorter (sizeOf_lt_tighter loose (.group inner))

theorem Level.tighter_ne_atom {level : Level} (h : level.rank ≤ 5) : level.tighter ≠ .atom := by
  cases level <;> first | decide | exact absurd h (by decide)

mutual

theorem Derivation.determined {level : Level} (d : Derivation level) (loose : level ≠ .atom) :
    d.Determined := by
  match level, d with
  | .unary, d =>
    obtain ⟨n, c, h⟩ := d.exists_negations
    have smaller : sizeOf c < sizeOf d := h ▸ Derivation.sizeOf_lt_negations n c
    exact h ▸ (c.determined (by decide)).negations n
  | .call, .call function => exact (function.determined loose).call
  | .call, .callWith function arguments =>
    exact (function.determined loose).callWith arguments.determined
  | .call, .tighter loose (.group inner) =>
    have smaller := Derivation.sizeOf_lt_group loose inner
    exact (inner.determined (by decide)).group loose
  | .call, .tighter loose (.array elements) => exact Derivation.determined_array elements loose
  | .call, .tighter loose (.name text) => exact Derivation.determined_word rfl rfl loose
  | .call, .tighter loose (.numeral text) => exact Derivation.determined_word rfl rfl loose
  | .call, .tighter loose (.quotation content) => exact Derivation.determined_word rfl rfl loose
  | .call, .tighter loose (.truth value) => exact Derivation.determined_word rfl rfl loose
  | .call, .tighter _ (.tighter loose _) => exact absurd rfl loose
  | level, .binary left op known right =>
    have hr := Level.tighter_ne_atom (Level.rank_le_of_operator known)
    exact (left.determined loose).binary (right.determined hr) known
  | .logical, .tighter _ d => exact (d.determined (by decide)).tighter (by decide) loose
  | .equality, .tighter _ d => exact (d.determined (by decide)).tighter (by decide) loose
  | .relation, .tighter _ d => exact (d.determined (by decide)).tighter (by decide) loose
  | .sum, .tighter _ d => exact (d.determined (by decide)).tighter (by decide) loose
  | .product, .tighter _ d => exact (d.determined (by decide)).tighter (by decide) loose
termination_by sizeOf d

theorem Arguments.determined (as : Arguments) : as.Determined := by
  match as with
  | .one d => exact d.determined (by decide)
  | .snoc before d => exact ⟨before.determined, d.determined (by decide)⟩
termination_by sizeOf as

end

/-- The words of a condition have one derivation only. -/
theorem Derivation.eq_of_words {d e : Derivation level} (loose : level ≠ .atom)
    (h : d.words = e.words) : d = e :=
  (d.determined loose e [] [] (bounded_nil level) (bounded_nil level) h).1

end Criterion.Grammar
