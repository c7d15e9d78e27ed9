import Criterion.Proofs.Parse.Soundness

namespace Criterion.Parse

open Grammar

variable {s t u : Stream} {ts us : List Token} {ws : List Word} {room floor : Nat}

/-- A stream goes on as another one past some tokens, none of them an end token. -/
structure Stream.Passes (s : Stream) (ts : List Token) (t : Stream) : Prop where
  rest : s.rest = ts ++ t.rest
  position : t.position = s.position + ts.length
  more : ∀ u ∈ ts, u.kind ≠ .endOfInput

theorem Stream.Passes.refl (s : Stream) : s.Passes [] s := by
  refine ⟨rfl, rfl, fun u hu => ?_⟩
  cases hu

theorem Stream.Passes.trans (h : s.Passes ts t) (h' : t.Passes us u) : s.Passes (ts ++ us) u where
  rest := by rw [h.rest, h'.rest, List.append_assoc]
  position := by rw [h'.position, h.position, List.length_append, Nat.add_assoc]
  more := List.forall_mem_append.2 ⟨h.more, h'.more⟩

theorem Stream.Passes.next (more : s.kind ≠ .endOfInput) : s.Passes [s.current] s.next := by
  rcases s with ⟨position, _ | ⟨t, ts⟩⟩
  · exact absurd rfl more
  · exact ⟨rfl, rfl, List.forall_mem_singleton.2 more⟩

theorem Stream.Passes.words (h : s.Passes ts t) : s.words = ts.map Token.word ++ t.words := by
  rw [Stream.words, wordsOf, h.rest,
    List.takeWhile_append_of_pos fun u hu => decide_eq_true (h.more u hu), List.map_append]
  rfl

theorem Stream.Passes.map_word (h : s.Passes ts t) (hw : s.words = ws ++ t.words) :
    ts.map Token.word = ws :=
  List.append_cancel_right (h.words.symm.trans hw)

def Stream.Reaches (s t : Stream) : Prop := ∃ ts, s.Passes ts t

theorem Stream.Reaches.refl (s : Stream) : s.Reaches s := ⟨[], .refl s⟩

theorem Stream.Reaches.trans (h : s.Reaches t) (h' : t.Reaches u) : s.Reaches u := by
  obtain ⟨ts, h⟩ := h
  obtain ⟨us, h'⟩ := h'
  exact ⟨ts ++ us, h.trans h'⟩

theorem Stream.Reaches.next (more : s.kind ≠ .endOfInput) : s.Reaches s.next := ⟨_, .next more⟩

theorem Stream.Reaches.next_of_kind {kind : TokenKind} (h : s.kind = kind)
    (more : kind ≠ .endOfInput) : s.Reaches s.next :=
  .next (h ▸ more)

theorem elements_reach (s : Stream) (h : (elements s).complaints = []) :
    s.Reaches (elements s).after := by
  induction s using elements.induct with
  | case1 s hk t hc _ ih =>
    rw [elements, dif_pos hk, if_pos hc] at h ⊢
    have first : s.Reaches t := .next (kind_ne_end_of_element hk)
    exact (first.trans (.next_of_kind hc (by decide))).trans (ih h)
  | case2 s hk t hc hb =>
    rw [elements, dif_pos hk, if_neg hc, if_pos hb]
    have first : s.Reaches t := .next (kind_ne_end_of_element hk)
    exact first.trans (.next_of_kind hb (by decide))
  | case3 s hk t hc hb =>
    rw [elements, dif_pos hk, if_neg hc, if_neg hb] at h
    cases h
  | case4 s hk =>
    rw [elements, dif_neg hk] at h
    cases h

theorem array_reaches (s : Stream) (h : (array s).complaints = []) :
    s.Reaches (array s).after := by
  rw [array] at h ⊢
  split at h
  · cases h
  · next hb =>
    rw [if_neg hb]
    dsimp only at h ⊢
    split at h
    · exact elements_reach s h
    · split at h
      · exact elements_reach s h
      · exact elements_reach s (List.append_eq_nil_iff.1 h).1

theorem integer_reaches (hk : s.kind = .integer) (h : (integer s).complaints = []) :
    s.Reaches (integer s).after := by
  rw [integer] at h ⊢
  split at h
  · exact .next_of_kind hk (by decide)
  · cases h

theorem expect_reaches {kind : TokenKind} (more : kind ≠ .endOfInput)
    (h : (expect kind s).complaints = []) : s.Reaches (expect kind s).after := by
  by_cases hk : s.kind = kind
  · rw [expect_of_kind hk]
    exact .next_of_kind hk more
  · rw [expect_of_other hk] at h
    cases h

/-- Whatever the readers read without complaint ends past tokens that are no end tokens. -/
theorem readers_reach :
    (∀ room floor s, (expression room floor s).complaints = [] →
      s.Reaches (expression room floor s).after) ∧
    (∀ room floor left s, (operators room floor left s).complaints = [] →
      s.Reaches (operators room floor left s).after) ∧
    (∀ room s, (arguments room s).complaints = [] → s.Reaches (arguments room s).after) ∧
    (∀ room s, (moreArguments room s).complaints = [] →
      s.Reaches (moreArguments room s).after) ∧
    ∀ room s, (operand room s).complaints = [] → s.Reaches (operand room s).after := by
  apply expression.mutual_induct
    (fun room floor s => (expression room floor s).complaints = [] →
      s.Reaches (expression room floor s).after)
    (fun room floor left s => (operators room floor left s).complaints = [] →
      s.Reaches (operators room floor left s).after)
    (fun room s => (arguments room s).complaints = [] → s.Reaches (arguments room s).after)
    (fun room s => (moreArguments room s).complaints = [] →
      s.Reaches (moreArguments room s).after)
    (fun room s => (operand room s).complaints = [] → s.Reaches (operand room s).after)
  case case1 => -- no room
    intro floor s h
    rw [expression] at h
    cases h
  case case2 => -- an operand, then operators
    intro floor s room start o ho hs h
    rw [expression_of_start start] at h ⊢
    obtain ⟨ho', hs'⟩ := List.append_eq_nil_iff.1 h
    exact (ho ho').trans (hs hs')
  case case3 => -- no operand
    intro floor s room start h
    rw [expression_of_no_start start] at h
    cases h
  case case4 => -- an operator without a left operand
    intro room floor s more o ho hs h
    rw [operators_missing more] at h ⊢
    obtain ⟨ho', hs'⟩ := List.append_eq_nil_iff.1 h
    exact ((Stream.Reaches.next more.1).trans (ho ho')).trans (hs hs')
  case case5 => -- an operator
    intro room floor s more l op hop o ho hs h
    rw [operators_binary more hop] at h ⊢
    obtain ⟨ho', hs'⟩ := List.append_eq_nil_iff.1 h
    exact ((Stream.Reaches.next more.1).trans (ho ho')).trans (hs hs')
  case case6 => -- a call
    intro room floor s more l hop o ho hs h
    rw [operators_call more hop] at h ⊢
    obtain ⟨ho', hs'⟩ := List.append_eq_nil_iff.1 h
    exact ((Stream.Reaches.next more.1).trans (ho ho')).trans (hs hs')
  case case7 => -- no further operator
    intro room floor left s stop _
    rw [operators_stop stop]
    exact .refl s
  case case8 => -- no arguments
    intro room s hk _
    rw [arguments_of_end hk]
    exact .next_of_kind hk (by decide)
  case case9 => -- a first argument
    intro room s hk o ho _ hm h
    rw [arguments_of_more hk] at h ⊢
    obtain ⟨ho', hm'⟩ := List.append_eq_nil_iff.1 h
    exact (ho ho').trans (hm hm')
  case case10 => -- a further argument
    intro room s hk o ho _ hm h
    rw [moreArguments_of_comma hk] at h ⊢
    obtain ⟨ho', hm'⟩ := List.append_eq_nil_iff.1 h
    have first : s.Reaches s.next := .next_of_kind hk (by decide)
    exact (first.trans (ho ho')).trans (hm hm')
  case case11 => -- no further argument
    intro room s hk h
    rw [moreArguments_of_end hk] at h ⊢
    exact expect_reaches (by decide) h
  case case12 => -- a name
    intro room s hk _
    rw [operand_identifier hk]
    exact .next_of_kind hk (by decide)
  case case13 => -- a numeral
    intro room s hk h
    rw [operand_integer hk] at h ⊢
    exact integer_reaches hk h
  case case14 => -- a quotation
    intro room s hk _
    rw [operand_string hk]
    exact .next_of_kind hk (by decide)
  case case15 => -- true
    intro room s hk _
    rw [operand_trueWord hk]
    exact .next_of_kind hk (by decide)
  case case16 => -- false
    intro room s hk _
    rw [operand_falseWord hk]
    exact .next_of_kind hk (by decide)
  case case17 => -- an array
    intro room s hk h
    rw [operand_leftBracket hk] at h ⊢
    have first : s.Reaches s.next := .next_of_kind hk (by decide)
    exact first.trans (array_reaches s.next h)
  case case18 => -- a negation
    intro room s hk ho h
    rw [operand_bang hk] at h ⊢
    have first : s.Reaches s.next := .next_of_kind hk (by decide)
    exact first.trans (ho h)
  case case19 => -- a group
    intro room s hk ho h
    rw [operand_leftParen hk] at h ⊢
    obtain ⟨ho', hc⟩ := List.append_eq_nil_iff.1 h
    have first : s.Reaches s.next := .next_of_kind hk (by decide)
    exact (first.trans (ho ho')).trans (expect_reaches (by decide) hc)
  case case20 => -- nothing that an operand starts with
    intro room s h₁ h₂ h₃ h₄ h₅ h₆ h₇ h₈ h
    rw [operand] at h
    split at h <;> contradiction

end Criterion.Parse
