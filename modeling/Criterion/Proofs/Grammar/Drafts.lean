import Criterion.Grammar.Machine
import Criterion.Proofs.Except
import Criterion.Proofs.Grammar.Derivation

namespace Criterion

open Grammar

def BinaryOp.terminal : BinaryOp → Terminal
  | and => .andSign
  | or => .orSign
  | equal | notEqual => .equality
  | less | lessEqual | greater | greaterEqual => .relation
  | add | subtract => .sum
  | multiply | divide => .product
  | member => .inWord

theorem BinaryOp.level?_terminal {op : BinaryOp} {level : Level} (known : op ∈ level.operators) :
    op.terminal.level? = some level.rank := by
  cases level <;> cases op <;> first | rfl | exact absurd known (by decide)

namespace Grammar

def signWord (t : Terminal) (text : String) : Word :=
  match BinaryOp.ofText? text with
  | some op => if op.terminal = t then .sign op else .stray
  | none => .stray

def Lexeme.word (l : Lexeme) : Word :=
  match l.terminal with
  | .andSign | .orSign | .equality | .relation | .sum | .product | .inWord =>
    signWord l.terminal l.text
  | .bang => if l.text = UnaryOp.not.text then .bang else .stray
  | .word => .name l.text
  | .number => .numeral l.text
  | .quotation => .quotation l.content
  | .trueWord => .truth true
  | .falseWord => .truth false
  | .leftParen => .leftParen
  | .rightParen => .rightParen
  | .leftBracket => .leftBracket
  | .rightBracket => .rightBracket
  | .comma => .comma

def Lexeme.Spells (l : Lexeme) : Word → Prop
  | .name text => l.terminal = .word ∧ l.text = text
  | .numeral text => l.terminal = .number ∧ l.text = text
  | .quotation content => l.terminal = .quotation ∧ l.content = content
  | .truth true => l.terminal = .trueWord
  | .truth false => l.terminal = .falseWord
  | .sign op => l.terminal = op.terminal ∧ l.text = op.text
  | .bang => l.terminal = .bang ∧ l.text = UnaryOp.not.text
  | .leftParen => l.terminal = .leftParen
  | .rightParen => l.terminal = .rightParen
  | .leftBracket => l.terminal = .leftBracket
  | .rightBracket => l.terminal = .rightBracket
  | .comma => l.terminal = .comma
  | .stray => False

theorem Lexeme.spells_signWord {l : Lexeme} (h : signWord l.terminal l.text ≠ .stray) :
    l.Spells (signWord l.terminal l.text) := by
  rw [signWord] at h ⊢
  split at h
  · next op hop =>
    split at h
    · next ht =>
      rw [if_pos ht]
      exact ⟨ht.symm, (BinaryOp.text_of_ofText? hop).symm⟩
    · exact absurd rfl h
  · exact absurd rfl h

theorem Lexeme.spells_of_word {l : Lexeme} {w : Word} (h : l.word = w) (hw : w ≠ .stray) :
    l.Spells w := by
  subst h
  cases ht : l.terminal with
  | andSign => simp only [word, ht] at hw ⊢; exact ht ▸ spells_signWord (ht ▸ hw)
  | bang =>
    simp only [word, ht] at hw ⊢
    split at hw
    · next htext =>
      rw [if_pos htext]
      exact ⟨ht, htext⟩
    · exact absurd rfl hw
  | word => simp only [word, ht, Spells, and_self]
  | number => simp only [word, ht, Spells, and_self]
  | quotation => simp only [word, ht, Spells, and_self]
  | trueWord => simp only [word, ht, Spells]
  | falseWord => simp only [word, ht, Spells]
  | leftParen => simp only [word, ht, Spells]
  | rightParen => simp only [word, ht, Spells]
  | leftBracket => simp only [word, ht, Spells]
  | rightBracket => simp only [word, ht, Spells]
  | comma => simp only [word, ht, Spells]
  | _ => simp only [word, ht] at hw ⊢; exact ht ▸ spells_signWord (ht ▸ hw)

mutual

/-- A draft is that of a derivation. -/
def Derivation.Drafts {level : Level} : Derivation level → Draft → Prop
  | .tighter _ d, draft => d.Drafts draft
  | .binary left op _ right, draft =>
    ∃ l r, draft = .binary l op.text r ∧ left.Drafts l ∧ right.Drafts r
  | .negation operand, draft => ∃ e, draft = .negation UnaryOp.not.text e ∧ operand.Drafts e
  | .call function, draft => ∃ f, draft = .call f [] ∧ function.Drafts f
  | .callWith function arguments, draft =>
    ∃ f as, draft = .call f as ∧ function.Drafts f ∧ arguments.Drafts as
  | .name text, draft => draft = .word text
  | .numeral text, draft => draft = .number text
  | .quotation content, draft => ∃ l, draft = .quotation l ∧ l.content = content
  | .truth value, draft => draft = .truth value
  | .array elements, draft =>
    ∃ ls, draft = .array ls ∧ ls.map Lexeme.word = elements.map Element.word
  | .group inner, draft => inner.Drafts draft

def Arguments.Drafts : Arguments → List Draft → Prop
  | .one d, drafts => ∃ e, drafts = [e] ∧ d.Drafts e
  | .snoc before d, drafts => ∃ es e, drafts = es ++ [e] ∧ before.Drafts es ∧ d.Drafts e

end

def Lexeme.element (l : Lexeme) : Element :=
  if l.terminal = .quotation then .quotation l.content else .numeral l.text

def Lexeme.IsElement (l : Lexeme) : Prop := l.terminal = .number ∨ l.terminal = .quotation

theorem Lexeme.element_of_word {l : Lexeme} {e : Element} (h : l.word = e.word) :
    l.IsElement ∧ l.element = e := by
  cases e with
  | numeral text =>
    obtain ⟨ht, hx⟩ := Lexeme.spells_of_word h nofun
    exact ⟨.inl ht, by simp [element, ht, hx]⟩
  | quotation content =>
    obtain ⟨ht, hx⟩ := Lexeme.spells_of_word h nofun
    exact ⟨.inr ht, by simp [element, ht, hx]⟩

theorem Lexeme.elements_of_words {ls : List Lexeme} {es : List Element}
    (h : ls.map Lexeme.word = es.map Element.word) :
    (∀ l ∈ ls, l.IsElement) ∧ ls.map Lexeme.element = es := by
  induction ls generalizing es with
  | nil =>
    cases es with
    | nil => exact ⟨nofun, rfl⟩
    | cons e es => exact nomatch h
  | cons l ls ih =>
    cases es with
    | nil => exact nomatch h
    | cons e es =>
      obtain ⟨hl, hls⟩ := List.cons.inj h
      obtain ⟨hk, he⟩ := element_of_word hl
      obtain ⟨hks, hes⟩ := ih hls
      exact ⟨List.forall_mem_cons.2 ⟨hk, hks⟩, by rw [List.map_cons, he, hes]⟩

theorem integerOf_eq_ok {text : String} {value : Int} :
    integerOf text = .ok value ↔ Numeral.read text = .ok value := by
  rw [integerOf]
  cases Numeral.read text with
  | ok n =>
    constructor
    · intro h
      cases h
      rfl
    · intro h
      cases h
      rfl
  | error fault =>
    constructor
    · intro h
      cases h
    · intro h
      cases h

theorem mapM_integerOf_eq_ok {ls : List Lexeme} {values : List Int} :
    (ls.mapM fun l => integerOf l.text) = .ok values ↔
      (ls.map (·.text)).map Numeral.read = values.map .ok := by
  induction ls generalizing values with
  | nil => cases values <;> simp [pure, Except.pure]
  | cons l ls ih =>
    rw [List.mapM_cons, bind_eq_ok]
    constructor
    · rintro ⟨value, hv, h⟩
      obtain ⟨values', hvs, h⟩ := bind_eq_ok.1 h
      cases h
      rw [List.map_cons, List.map_cons, List.map_cons, ih.1 hvs, integerOf_eq_ok.1 hv]
    · intro h
      cases values with
      | nil => exact nomatch h
      | cons value values =>
        obtain ⟨hv, hvs⟩ := List.cons.inj h
        exact ⟨value, integerOf_eq_ok.2 hv, bind_eq_ok.2 ⟨values, ih.2 hvs, rfl⟩⟩

theorem arrayOf_quotations {ls : List Lexeme} (some : ls ≠ [])
    (h : ∀ l ∈ ls, l.terminal = .quotation) :
    arrayOf ls = .ok (.strings (ls.map Lexeme.content)) := by
  rw [arrayOf, if_neg (by simpa using some), if_pos (by simpa using h)]

theorem arrayOf_numbers {ls : List Lexeme} (some : ls ≠ [])
    (h : ∀ l ∈ ls, l.terminal = .number) :
    arrayOf ls = (ls.mapM fun l => integerOf l.text).map .integers := by
  have other : ¬ ls.all (·.terminal = .quotation) := by
    obtain ⟨l, hl⟩ := List.exists_mem_of_ne_nil ls some
    intro hq
    have hk := List.all_eq_true.1 hq l hl
    simp [h l hl] at hk
  rw [arrayOf, if_neg (by simpa using some), if_neg other, if_pos (by simpa using h)]

theorem eq_of_arrayOf {ls : List Lexeme} {e : Expr} (h : arrayOf ls = .ok e) :
    ls ≠ [] ∧ ((∀ l ∈ ls, l.terminal = .quotation) ∧ e = .strings (ls.map Lexeme.content) ∨
      ∃ values : List Int, (∀ l ∈ ls, l.terminal = .number) ∧
        (ls.map (·.text)).map Numeral.read = values.map .ok ∧ e = .integers values) := by
  rw [arrayOf] at h
  split at h
  · exact nomatch h
  · next hne =>
    refine ⟨by simpa using hne, ?_⟩
    split at h
    · next hq => exact .inl ⟨by simpa using hq, (Except.ok.inj h).symm⟩
    · split at h
      · next hi =>
        cases hv : ls.mapM fun l => integerOf l.text with
        | error refusal =>
          rw [hv] at h
          exact nomatch h
        | ok values =>
          rw [hv] at h
          exact .inr ⟨values, by simpa using hi, mapM_integerOf_eq_ok.1 hv, (Except.ok.inj h).symm⟩
      · exact nomatch h

theorem Lexeme.map_element_quotations {ls : List Lexeme} (h : ∀ l ∈ ls, l.terminal = .quotation) :
    ls.map Lexeme.element = (ls.map Lexeme.content).map .quotation := by
  rw [List.map_map]
  exact List.map_congr_left fun l hl => by simp [element, h l hl]

theorem Lexeme.map_element_numbers {ls : List Lexeme} (h : ∀ l ∈ ls, l.terminal = .number) :
    ls.map Lexeme.element = (ls.map (·.text)).map .numeral := by
  rw [List.map_map]
  exact List.map_congr_left fun l hl => by simp [element, h l hl]

theorem arrayOf_eq_ok {ls : List Lexeme} {e : Expr} (hk : ∀ l ∈ ls, l.IsElement) :
    arrayOf ls = .ok e ↔ arrayTree? (ls.map Lexeme.element) = some e := by
  rw [arrayTree?_eq_some]
  constructor
  · intro h
    obtain ⟨some, ⟨hq, rfl⟩ | ⟨values, hi, hv, rfl⟩⟩ := eq_of_arrayOf h
    · exact ⟨by simpa using some, .inl ⟨_, Lexeme.map_element_quotations hq, rfl⟩⟩
    · exact ⟨by simpa using some, .inr ⟨_, values, Lexeme.map_element_numbers hi, hv, rfl⟩⟩
  · rintro ⟨some, ⟨contents, he, rfl⟩ | ⟨texts, values, he, hv, rfl⟩⟩
    · have hq : ∀ l ∈ ls, l.terminal = .quotation := by
        intro l hl
        obtain ⟨c, -, hc⟩ := List.mem_map.1 (he ▸ List.mem_map_of_mem hl)
        rcases hk l hl with h | h
        · simp [Lexeme.element, h] at hc
        · exact h
      rw [arrayOf_quotations (by simpa using some) hq]
      rw [Lexeme.map_element_quotations hq] at he
      rw [(List.map_inj_right fun _ _ => Element.quotation.inj).1 he]
    · have hi : ∀ l ∈ ls, l.terminal = .number := by
        intro l hl
        obtain ⟨c, -, hc⟩ := List.mem_map.1 (he ▸ List.mem_map_of_mem hl)
        rcases hk l hl with h | h
        · exact h
        · simp [Lexeme.element, h] at hc
      rw [Lexeme.map_element_numbers hi] at he
      obtain rfl := (List.map_inj_right fun _ _ => Element.numeral.inj).1 he
      rw [arrayOf_numbers (by simpa using some) hi, mapM_integerOf_eq_ok.2 hv]
      rfl

/-- No name among the words is a reserved one. -/
def Free (ws : List Word) : Prop := ∀ text, .name text ∈ ws → text ∉ reservedWords

theorem free_append {us vs : List Word} : Free (us ++ vs) ↔ Free us ∧ Free vs := by
  simp only [Free, List.mem_append, or_imp, forall_and]

def Word.isName : Word → Bool
  | name _ => true
  | _ => false

theorem free_cons {w : Word} {ws : List Word} (other : w.isName = false) :
    Free (w :: ws) ↔ Free ws := by
  constructor
  · exact fun h text ht => h text (List.mem_cons_of_mem _ ht)
  · intro h text ht
    rcases List.mem_cons.1 ht with rfl | ht
    · exact nomatch other
    · exact h text ht

theorem free_nil : Free [] := fun _ h => nomatch h

theorem free_listed (es : List Element) : Free ((es.map Element.word).intersperse .comma) := by
  intro text h
  rcases mem_intersperse h with h | h
  · exact nomatch h
  · obtain ⟨e, -, he⟩ := List.mem_map.1 h
    cases e <;> exact nomatch he

theorem resolveAll_concat {room : Nat} {ds : List Draft} {d : Draft} :
    resolveAll room (ds ++ [d]) = do
      let es ← resolveAll room ds
      let e ← d.resolve room
      return es ++ [e] := by
  induction ds with
  | nil =>
    simp only [List.nil_append, resolveAll]
    cases d.resolve room <;> rfl
  | cons d' ds ih =>
    simp only [List.cons_append, resolveAll, ih]
    cases d'.resolve room with
    | error => rfl
    | ok e =>
      cases resolveAll room ds with
      | error => rfl
      | ok es => cases d.resolve room <;> rfl

mutual

/-- A draft that becomes a tree becomes the tree of its derivation, in which no name is reserved. -/
theorem Derivation.tree?_of_resolve {level : Level} {draft : Draft} {e : Expr} {room : Nat} :
    ∀ d : Derivation level, d.Drafts draft → draft.resolve room = .ok e →
      d.tree? = some e ∧ Free d.words
  | .tighter _ d, hd, h => d.tree?_of_resolve hd h
  | .group inner, hd, h => by
    obtain ⟨ht, hf⟩ := inner.tree?_of_resolve hd h
    exact ⟨ht, (free_cons rfl).2 (free_append.2 ⟨hf, (free_cons rfl).2 free_nil⟩)⟩
  | .binary left op _ right, hd, h => by
    obtain ⟨l, r, hb, hl, hr⟩ := hd
    subst hb
    cases room with
    | zero => exact nomatch h
    | succ room =>
      rw [Draft.resolve] at h
      obtain ⟨x, hx, h⟩ := bind_eq_ok.1 h
      obtain ⟨y, hy, h⟩ := bind_eq_ok.1 h
      cases h
      obtain ⟨htl, hfl⟩ := left.tree?_of_resolve hl hx
      obtain ⟨htr, hfr⟩ := right.tree?_of_resolve hr hy
      exact ⟨by rw [Derivation.tree?, htl, htr]; rfl, free_append.2 ⟨hfl, (free_cons rfl).2 hfr⟩⟩
  | .negation operand, hd, h => by
    obtain ⟨x, hb, hx⟩ := hd
    subst hb
    cases room with
    | zero => exact nomatch h
    | succ room =>
      rw [Draft.resolve] at h
      obtain ⟨y, hy, h⟩ := bind_eq_ok.1 h
      cases h
      obtain ⟨ht, hf⟩ := operand.tree?_of_resolve hx hy
      exact ⟨by rw [Derivation.tree?, ht]; rfl, (free_cons rfl).2 hf⟩
  | .call function, hd, h => by
    obtain ⟨f, hb, hf⟩ := hd
    subst hb
    cases room with
    | zero => exact nomatch h
    | succ room =>
      rw [Draft.resolve] at h
      obtain ⟨x, hx, h⟩ := bind_eq_ok.1 h
      obtain ⟨xs, hxs, h⟩ := bind_eq_ok.1 h
      cases h
      cases hxs
      obtain ⟨ht, hfree⟩ := function.tree?_of_resolve hf hx
      refine ⟨by rw [Derivation.tree?, ht]; rfl, free_append.2 ⟨hfree, ?_⟩⟩
      exact (free_cons rfl).2 ((free_cons rfl).2 free_nil)
  | .callWith function arguments, hd, h => by
    obtain ⟨f, as, hb, hf, ha⟩ := hd
    subst hb
    cases room with
    | zero => exact nomatch h
    | succ room =>
      rw [Draft.resolve] at h
      obtain ⟨x, hx, h⟩ := bind_eq_ok.1 h
      obtain ⟨xs, hxs, h⟩ := bind_eq_ok.1 h
      cases h
      obtain ⟨htf, hff⟩ := function.tree?_of_resolve hf hx
      obtain ⟨hta, hfa⟩ := arguments.trees?_of_resolveAll ha hxs
      refine ⟨by rw [Derivation.tree?, htf, hta]; rfl, free_append.2 ⟨hff, ?_⟩⟩
      exact (free_cons rfl).2 (free_append.2 ⟨hfa, (free_cons rfl).2 free_nil⟩)
  | .name text, hd, h => by
    cases hd
    cases room with
    | zero => exact nomatch h
    | succ room =>
      rw [Draft.resolve] at h
      split at h
      · exact nomatch h
      · next hr =>
        cases h
        refine ⟨rfl, fun text' ht => ?_⟩
        cases List.mem_singleton.1 ht
        simpa using hr
  | .numeral text, hd, h => by
    cases hd
    cases room with
    | zero => exact nomatch h
    | succ room =>
      rw [Draft.resolve] at h
      refine ⟨?_, (free_cons rfl).2 free_nil⟩
      cases hv : integerOf text with
      | error refusal =>
        rw [hv] at h
        exact nomatch h
      | ok value =>
        rw [hv] at h
        cases h
        rw [Derivation.tree?, integerOf_eq_ok.1 hv]
        rfl
  | .quotation content, hd, h => by
    obtain ⟨l, hb, hc⟩ := hd
    subst hb
    cases room with
    | zero => exact nomatch h
    | succ room =>
      rw [Draft.resolve, hc] at h
      cases h
      exact ⟨rfl, (free_cons rfl).2 free_nil⟩
  | .truth value, hd, h => by
    cases hd
    cases room with
    | zero => exact nomatch h
    | succ room =>
      cases h
      exact ⟨rfl, (free_cons rfl).2 free_nil⟩
  | .array elements, hd, h => by
    obtain ⟨ls, hb, hw⟩ := hd
    subst hb
    cases room with
    | zero => exact nomatch h
    | succ room =>
      obtain ⟨hk, rfl⟩ := Lexeme.elements_of_words hw
      refine ⟨(arrayOf_eq_ok hk).1 h, (free_cons rfl).2 ?_⟩
      exact free_append.2 ⟨free_listed _, (free_cons rfl).2 free_nil⟩

theorem Arguments.trees?_of_resolveAll {drafts : List Draft} {es : List Expr} {room : Nat} :
    ∀ as : Arguments, as.Drafts drafts → resolveAll room drafts = .ok es →
      as.trees? = some es ∧ Free as.words
  | .one d, hd, h => by
    obtain ⟨x, hb, hx⟩ := hd
    subst hb
    rw [resolveAll] at h
    obtain ⟨y, hy, h⟩ := bind_eq_ok.1 h
    cases h
    obtain ⟨ht, hf⟩ := d.tree?_of_resolve hx hy
    exact ⟨by rw [Arguments.trees?, ht]; rfl, hf⟩
  | .snoc before d, hd, h => by
    obtain ⟨xs, x, hb, hxs, hx⟩ := hd
    subst hb
    rw [resolveAll_concat] at h
    obtain ⟨ys, hys, h⟩ := bind_eq_ok.1 h
    obtain ⟨y, hy, h⟩ := bind_eq_ok.1 h
    cases h
    obtain ⟨hts, hfs⟩ := before.trees?_of_resolveAll hxs hys
    obtain ⟨ht, hf⟩ := d.tree?_of_resolve hx hy
    exact ⟨by rw [Arguments.trees?, hts, ht]; rfl, free_append.2 ⟨hfs, (free_cons rfl).2 hf⟩⟩

end

/-- An attempt has a result, or ends because of too deep a nesting. -/
def Becomes {α : Type} (x : Except Refusal α) (a : α) : Prop :=
  x = .ok a ∨ x = .error .nestedTooDeeply

theorem Becomes.bind {α β : Type} {x : Except Refusal α} {a : α} {f : α → Except Refusal β} {b : β}
    (h : Becomes x a) (hf : Becomes (f a) b) : Becomes (x >>= f) b := by
  rcases h with rfl | rfl
  · exact hf
  · exact .inr rfl

theorem Becomes.ok {α : Type} (a : α) : Becomes (.ok a) a := .inl rfl

mutual

/-- The draft of a derivation becomes its tree, unless a name is reserved or it is nested too
deeply. -/
theorem Derivation.becomes_tree {level : Level} {draft : Draft} {e : Expr} {room : Nat} :
    ∀ d : Derivation level, d.Drafts draft → d.tree? = some e → Free d.words →
      Becomes (draft.resolve room) e
  | .tighter _ d, hd, h, hf => d.becomes_tree hd h hf
  | .group inner, hd, h, hf => by
    have hf' := (free_append.1 ((free_cons rfl).1 hf)).1
    exact inner.becomes_tree hd h hf'
  | .binary left op _ right, hd, h, hf => by
    obtain ⟨l, r, rfl, hl, hr⟩ := hd
    cases room with
    | zero => exact .inr rfl
    | succ room =>
      simp only [Derivation.tree?, Option.bind_eq_bind, Option.bind_eq_some_iff, Option.pure_def,
        Option.some.injEq] at h
      obtain ⟨x, hx, y, hy, rfl⟩ := h
      obtain ⟨hfl, hfr⟩ := free_append.1 hf
      rw [Draft.resolve]
      exact (left.becomes_tree hl hx hfl).bind
        ((right.becomes_tree hr hy ((free_cons rfl).1 hfr)).bind (.ok _))
  | .negation operand, hd, h, hf => by
    obtain ⟨x, rfl, hx⟩ := hd
    cases room with
    | zero => exact .inr rfl
    | succ room =>
      simp only [Derivation.tree?, Option.bind_eq_bind, Option.bind_eq_some_iff, Option.pure_def,
        Option.some.injEq] at h
      obtain ⟨y, hy, rfl⟩ := h
      rw [Draft.resolve]
      exact (operand.becomes_tree hx hy ((free_cons rfl).1 hf)).bind (.ok _)
  | .call function, hd, h, hf => by
    obtain ⟨f, rfl, hd⟩ := hd
    cases room with
    | zero => exact .inr rfl
    | succ room =>
      simp only [Derivation.tree?, Option.bind_eq_bind, Option.bind_eq_some_iff, Option.pure_def,
        Option.some.injEq] at h
      obtain ⟨x, hx, rfl⟩ := h
      rw [Draft.resolve]
      exact (function.becomes_tree hd hx (free_append.1 hf).1).bind (.ok _)
  | .callWith function arguments, hd, h, hf => by
    obtain ⟨f, as, rfl, hdf, hda⟩ := hd
    cases room with
    | zero => exact .inr rfl
    | succ room =>
      simp only [Derivation.tree?, Option.bind_eq_bind, Option.bind_eq_some_iff, Option.pure_def,
        Option.some.injEq] at h
      obtain ⟨x, hx, xs, hxs, rfl⟩ := h
      obtain ⟨hff, hfa⟩ := free_append.1 hf
      have hfa' := (free_append.1 ((free_cons rfl).1 hfa)).1
      rw [Draft.resolve]
      exact (function.becomes_tree hdf hx hff).bind
        ((arguments.becomes_trees hda hxs hfa').bind (.ok _))
  | .name text, hd, h, hf => by
    cases hd
    cases room with
    | zero => exact .inr rfl
    | succ room =>
      cases h
      have hr := hf text (List.mem_singleton.2 rfl)
      rw [Draft.resolve, if_neg (by simpa using hr)]
      exact .ok _
  | .numeral text, hd, h, hf => by
    cases hd
    cases room with
    | zero => exact .inr rfl
    | succ room =>
      rw [Derivation.tree?] at h
      cases hv : Numeral.read text with
      | error fault =>
        rw [hv] at h
        exact nomatch h
      | ok value =>
        rw [hv] at h
        cases h
        rw [Draft.resolve, integerOf_eq_ok.2 hv]
        exact .ok _
  | .quotation content, hd, h, hf => by
    obtain ⟨l, rfl, rfl⟩ := hd
    cases room with
    | zero => exact .inr rfl
    | succ room =>
      cases h
      exact .ok _
  | .truth value, hd, h, hf => by
    cases hd
    cases room with
    | zero => exact .inr rfl
    | succ room =>
      cases h
      exact .ok _
  | .array elements, hd, h, hf => by
    obtain ⟨ls, rfl, hw⟩ := hd
    cases room with
    | zero => exact .inr rfl
    | succ room =>
      obtain ⟨hk, rfl⟩ := Lexeme.elements_of_words hw
      exact .inl ((arrayOf_eq_ok hk).2 h)

theorem Arguments.becomes_trees {drafts : List Draft} {es : List Expr} {room : Nat} :
    ∀ as : Arguments, as.Drafts drafts → as.trees? = some es → Free as.words →
      Becomes (resolveAll room drafts) es
  | .one d, hd, h, hf => by
    obtain ⟨x, rfl, hx⟩ := hd
    simp only [Arguments.trees?, Option.bind_eq_bind, Option.bind_eq_some_iff, Option.pure_def,
      Option.some.injEq] at h
    obtain ⟨y, hy, rfl⟩ := h
    rw [resolveAll]
    exact (d.becomes_tree hx hy hf).bind (.ok _)
  | .snoc before d, hd, h, hf => by
    obtain ⟨xs, x, rfl, hxs, hx⟩ := hd
    simp only [Arguments.trees?, Option.bind_eq_bind, Option.bind_eq_some_iff, Option.pure_def,
      Option.some.injEq] at h
    obtain ⟨ys, hys, y, hy, rfl⟩ := h
    obtain ⟨hfs, hf⟩ := free_append.1 hf
    rw [resolveAll_concat]
    exact (before.becomes_trees hxs hys hfs).bind
      ((d.becomes_tree hx hy ((free_cons rfl).1 hf)).bind (.ok _))

end

end Grammar

end Criterion
