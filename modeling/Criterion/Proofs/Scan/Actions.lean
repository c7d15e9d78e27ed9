import Criterion.Cursor.Action
import Criterion.Proofs.Scan.Lookahead

namespace Criterion

def slice (source : List Char) (start stop : Nat) : List Char := (source.take stop).drop start

/-- The characters from one place of a text up to another have a property, and it is the first that
has not which stands there. -/
def Runs (p : Char → Bool) (source : List Char) (start stop : Nat) : Prop :=
  slice source start stop = (source.drop start).takeWhile p

/-- Some characters run from a place of a text up to the next quotation mark, after which reading
goes on, or up to the end of the text if there is none. -/
def Quotes (source : List Char) (start : Nat) (content : List Char) (after : Nat) : Prop :=
  ∃ stop, start ≤ stop ∧ content = slice source start stop ∧ Text.quotationMark ∉ content ∧
    (source[stop]? = some Text.quotationMark ∧ after = stop + 1 ∨
      stop = source.length ∧ after = stop)

namespace Cursor

/-- A cursor has come to a place in a text, and its line and its column are those of that place: one
more than the line feeds before it, and one more than the characters after the last of these. -/
structure Consistent (source : List Char) (c : Cursor) : Prop where
  inside : c.offset ≤ source.length
  passed : c.before.reverse = source.take c.offset
  ahead : c.rest = source.drop c.offset
  line : c.position.line = 1 + (source.take c.offset).count '\n'
  column : c.position.column =
    1 + ((source.take c.offset).reverse.takeWhile (· != '\n')).length

def TokenText (source : List Char) (t : Token) (start stop : Nat) : Prop :=
  if t.kind = .endOfInput then t.text = "" ∧ start = source.length
  else if t.kind = .string then Quotes source (start + 1) t.text.toList stop
  else t.text.toList = slice source start stop

/-- What a scanner answers to an action on its way from a cursor to another one. -/
def Answers (source : List Char) (c after : Cursor) (answer : Answer) : Action → Prop
  | .next =>
    ∃ t start, answer = .token t ∧ c.offset ≤ start ∧ start ≤ after.offset ∧
      Runs isSpacing source c.offset start ∧ TokenText source t start after.offset
  | .look distance =>
    after = c ∧ (0 ≤ distance →
      answer = .text (.singleton (source[c.offset + distance.toNat]?.getD absent)))
  | .move count =>
    if count < 0 then answer = .fault (.backward count) ∧ after = c
    else
      answer = .text (.ofList (slice source c.offset after.offset)) ∧
        after.offset = min (c.offset + count.toNat) source.length
  | .skip => answer = .done ∧ Runs isSpacing source c.offset after.offset
  | .string =>
    ∃ content, answer = .text (.ofList content) ∧
      Quotes source (min (c.offset + 1) source.length) content after.offset
  | .integer =>
    answer = .text (.ofList (slice source c.offset after.offset)) ∧
      (Based (source.drop c.offset) → Runs isAlphanumeric source (c.offset + 2) after.offset) ∧
      (¬ Based (source.drop c.offset) → Runs isDigit source c.offset after.offset)
  | .word =>
    answer = .text (.ofList (slice source c.offset after.offset)) ∧
      Runs isLetter source c.offset after.offset

variable {source raw : List Char} {c d : Cursor}

theorem advance_advance (m n : Nat) (c : Cursor) : (c.advance m).advance n = c.advance (m + n) := by
  simp [advance, List.take_add, Position.after_append]

theorem next_of_end (h : c.skipSpacing.rest = []) :
    c.next = (⟨.endOfInput, "", c.skipSpacing.position.line, c.skipSpacing.position.column⟩,
      c.skipSpacing) := by
  simp only [next, h]

theorem exists_advance_next (c : Cursor) : ∃ n, c.next.2 = c.skipSpacing.advance n := by
  cases hr : c.skipSpacing.rest with
  | nil =>
    rw [next_of_end hr]
    exact ⟨0, rfl⟩
  | cons first cs =>
    obtain ⟨_, -, -, -, -, -, -, after⟩ := reads_tokenAt hr
    rw [next_of_cons (rest_skipSpacing c ▸ hr)]
    exact after

/-- All that a scanner does is to advance. -/
theorem exists_advance (c : Cursor) (action : Action) : ∃ n, (c.act action).2 = c.advance n := by
  cases action with
  | next =>
    obtain ⟨n, hn⟩ := exists_advance_next c
    exact ⟨_, hn.trans (advance_advance _ n c)⟩
  | look distance =>
    refine ⟨0, ?_⟩
    simp only [act]
    split <;> rfl
  | move count =>
    simp only [act]
    split
    · exact ⟨0, rfl⟩
    · exact ⟨count.toNat, rfl⟩
  | skip => exact ⟨_, rfl⟩
  | string => exact ⟨_, rfl⟩
  | integer => exact ⟨_, rfl⟩
  | word => exact ⟨_, rfl⟩

theorem In.act (h : c.In source) (action : Action) : (c.act action).2.In source := by
  obtain ⟨n, hn⟩ := exists_advance c action
  rw [hn]
  exact h.advance n

theorem In.after (h : c.In source) (actions : List Action) : (c.after actions).In source := by
  induction actions generalizing c with
  | nil => exact h
  | cons action actions ih => exact ih (h.act action)

theorem In.consistent (h : c.In source) : c.Consistent source := by
  have place : c.offset = c.before.reverse.length := List.length_reverse.symm
  have passed : c.before.reverse = source.take c.offset := by
    rw [← h.text, place, List.take_left]
  have position := h.position
  rw [Position.start_after, passed] at position
  refine ⟨?_, passed, ?_, ?_, ?_⟩
  · rw [← h.text, place, List.length_append]
    exact Nat.le_add_right _ _
  · rw [← h.text, place, List.drop_left]
  · rw [position]
  · rw [position]

theorem In.slice (hc : c.In source) (hd : d.In source) (between : c.rest = raw ++ d.rest) :
    slice source c.offset d.offset = raw ∧ d.offset = c.offset + raw.length := by
  have passed : d.before.reverse = c.before.reverse ++ raw := by
    apply List.append_cancel_right
    rw [hd.text, List.append_assoc, ← between, hc.text]
  constructor
  · rw [Criterion.slice, ← hd.consistent.passed, passed]
    exact List.drop_left' List.length_reverse
  · rw [offset, offset, ← List.length_reverse, passed, List.length_append, List.length_reverse]

theorem In.slice_advance (h : c.In source) (n : Nat) :
    Criterion.slice source c.offset (c.advance n).offset = c.rest.take n :=
  (h.slice (h.advance n) (List.take_append_drop n c.rest).symm).1

theorem In.offset_advance (h : c.In source) (n : Nat) :
    (c.advance n).offset = min (c.offset + n) source.length := by
  rw [(h.slice (h.advance n) (List.take_append_drop n c.rest).symm).2, List.length_take,
    h.consistent.ahead, List.length_drop]
  have inside := h.consistent.inside
  omega

theorem offset_advance_of_le {n : Nat} (h : n ≤ c.rest.length) :
    (c.advance n).offset = c.offset + n := by
  rw [offset, offset, advance, List.length_append, List.length_reverse, List.length_take,
    Nat.min_eq_left h, Nat.add_comm]

theorem In.readText_eq (h : c.In source) (n : Nat) :
    (c.readText n).1 = .ofList (Criterion.slice source c.offset (c.readText n).2.offset) :=
  congrArg String.ofList (h.slice_advance n).symm

theorem offset_le_advance (n : Nat) (c : Cursor) : c.offset ≤ (c.advance n).offset := by
  rw [offset, offset, advance, List.length_append]
  exact Nat.le_add_left _ _

theorem In.peek_ahead (h : c.In source) {distance : Int} (ahead : 0 ≤ distance) :
    c.peek? distance = some (source[c.offset + distance.toNat]?.getD absent) := by
  have place : (c.offset : Int) + distance = (c.offset + distance.toNat : Nat) := by omega
  simp only [peek?, h.text, place, Int.ofNat_le]
  split
  · next beyond => rw [List.getElem?_eq_none beyond, Option.getD_none]
  · next inside =>
    rw [Int.toNat_natCast, List.getElem?_eq_getElem (Nat.not_le.1 inside), Option.getD_some]
    exact if_pos (Int.natCast_nonneg _)

theorem In.offset_of_nil (h : c.In source) (hr : c.rest = []) : c.offset = source.length := by
  have ahead := h.consistent.ahead
  rw [hr] at ahead
  exact Nat.le_antisymm h.consistent.inside (List.drop_eq_nil_iff.1 ahead.symm)

theorem In.quotes {body close rest : List Char} (hc : c.In source) (hd : d.In source)
    (hr : c.rest = body ++ (close ++ rest)) (inner : Text.quotationMark ∉ body)
    (hclose : close = [] ∧ rest = [] ∨ close = [Text.quotationMark]) (after : d.rest = rest) :
    Quotes source c.offset body d.offset := by
  have hm : (c.advance body.length).In source := hc.advance body.length
  have left : (c.advance body.length).rest = close ++ rest := by
    rw [rest_advance, hr, List.drop_left]
  obtain ⟨content, stop⟩ := hc.slice hm (hr.trans (congrArg _ left.symm))
  refine ⟨(c.advance body.length).offset, ?_, content.symm, inner, ?_⟩
  · rw [stop]
    exact Nat.le_add_right _ _
  · rcases hclose with ⟨rfl, rfl⟩ | rfl
    · have ending := hm.offset_of_nil left
      exact .inr ⟨ending, (hd.offset_of_nil after).trans ending.symm⟩
    · left
      constructor
      · rw [← Nat.add_zero (c.advance body.length).offset, ← List.getElem?_drop,
          ← hm.consistent.ahead, left]
        rfl
      · exact (hm.slice hd (left.trans (congrArg _ after.symm))).2

theorem In.runs (h : c.In source) (p : Char → Bool) :
    Runs p source c.offset (c.skipWhile p).offset := by
  rw [Runs, skipWhile, h.slice_advance, take_length_takeWhile, ← h.consistent.ahead]

theorem In.runs_integer (h : c.In source) (based : ¬ Based c.rest) :
    Runs isDigit source c.offset c.readInteger.2.offset := by
  rw [Runs, readInteger, readText, h.slice_advance, take_integerLength based, h.consistent.ahead]

theorem In.runs_based (h : c.In source) (based : Based c.rest) :
    Runs isAlphanumeric source (c.offset + 2) c.readInteger.2.offset := by
  obtain ⟨marker, rest, text, hm⟩ := based
  have two : (c.advance 2).offset = c.offset + 2 :=
    offset_advance_of_le (by rw [text]; exact Nat.le_add_left 2 rest.length)
  have after : c.readInteger.2 = (c.advance 2).skipWhile isAlphanumeric := by
    rw [skipWhile, advance_advance, rest_advance, readInteger, readText, text, integerLength,
      if_pos hm, Nat.add_comm]
    rfl
  rw [after, ← two]
  exact (h.advance 2).runs isAlphanumeric

theorem Reads.tokenText {t : Token} (hc : c.In source) (hd : d.In source) (h : c.Reads t d)
    (kind : t.kind ≠ .endOfInput) : TokenText source t c.offset d.offset := by
  obtain ⟨raw, some, rest, read, proper, -⟩ := h
  rw [TokenText, if_neg kind]
  split
  · next string =>
    have quotable : Text.quotationMark ∉ t.text.toList := proper.string string
    have first : (c.advance 1).In source := hc.advance 1
    obtain ⟨close, rfl, hclose⟩ : ∃ close, raw = Text.quotationMark :: (t.text.toList ++ close) ∧
        (close = [] ∧ d.rest = [] ∨ close = [Text.quotationMark]) := by
      rcases read with rfl | ⟨-, rfl, none⟩
      · exact ⟨_, by rw [Token.raw, if_pos string], .inr rfl⟩
      · exact ⟨[], by rw [List.append_nil], .inl ⟨rfl, none⟩⟩
    have body : (c.advance 1).rest = t.text.toList ++ (close ++ d.rest) := by
      rw [rest_advance, rest, List.cons_append, List.drop_succ_cons, List.drop_zero,
        List.append_assoc]
    have place : (c.advance 1).offset = c.offset + 1 :=
      offset_advance_of_le (by rw [rest]; exact Nat.le_add_left 1 _)
    rw [← place]
    exact first.quotes hd body quotable hclose rfl
  · next other =>
    obtain ⟨content, -⟩ := hc.slice hd rest
    rw [content]
    rcases read with rfl | ⟨string, -⟩
    · rw [Token.raw, if_neg other]
    · exact absurd string other

theorem In.quotes_readString (h : c.In source) :
    Quotes source (c.advance 1).offset
      ((c.rest.drop 1).takeWhile (· != Text.quotationMark)) c.readString.2.offset := by
  obtain ⟨body, close, rest, text, taken, inner, hclose⟩ := exists_quotation (c.rest.drop 1)
  have after : c.readString.2.rest = rest := by
    change c.rest.drop (((c.rest.drop 1).takeWhile (· != Text.quotationMark)).length + 2) = rest
    rw [taken, ← Nat.add_comm 1 (body.length + 1), ← List.drop_drop, text, ← List.drop_drop,
      List.drop_left]
    rcases hclose with ⟨rfl, rfl⟩ | rfl
    · rfl
    · rfl
  rw [taken]
  exact (h.advance 1).quotes (h.act .string) text (fun mark => inner _ mark rfl) hclose after

theorem In.answers_next (h : c.In source) :
    Answers source c c.next.2 (.token c.next.1) .next := by
  have hs : c.skipSpacing.In source := h.skipSpacing
  refine ⟨c.next.1, c.skipSpacing.offset, rfl, ?_, ?_, h.runs isSpacing, ?_⟩
  · exact offset_le_advance _ c
  · obtain ⟨n, hn⟩ := exists_advance_next c
    rw [hn]
    exact offset_le_advance n _
  · cases hr : c.skipSpacing.rest with
    | nil =>
      rw [next_of_end hr]
      exact ⟨rfl, hs.offset_of_nil hr⟩
    | cons first cs =>
      have kind : c.next.1.kind ≠ .endOfInput := by
        rw [next_of_cons (rest_skipSpacing c ▸ hr)]
        exact kind_tokenAt first _
      exact (reads_next kind).tokenText hs (h.act .next) kind

/-- A scanner answers with the part of the text that it is asked for. -/
theorem In.answers (h : c.In source) (action : Action) :
    Answers source c (c.act action).2 (c.act action).1 action := by
  cases action with
  | next => exact h.answers_next
  | look distance =>
    refine ⟨?_, ?_⟩
    · simp only [Cursor.act]
      split <;> rfl
    · intro ahead
      simp only [Cursor.act, h.peek_ahead ahead]
  | move count =>
    simp only [Answers, Cursor.act]
    split
    · exact ⟨rfl, rfl⟩
    · exact ⟨congrArg Answer.text (h.readText_eq _), h.offset_advance _⟩
  | skip => exact ⟨rfl, h.runs isSpacing⟩
  | string =>
    refine ⟨_, rfl, ?_⟩
    rw [← h.offset_advance]
    exact h.quotes_readString
  | integer =>
    refine ⟨congrArg Answer.text (h.readText_eq _), ?_, ?_⟩
    · rw [← h.consistent.ahead]
      exact h.runs_based
    · rw [← h.consistent.ahead]
      exact h.runs_integer
  | word => exact ⟨congrArg Answer.text (h.readText_eq _), h.runs isLetter⟩

/-- Whatever a scanner has been asked for, its cursor is consistent with the text, whatever it is
asked for next does not take the cursor back, and what it answers is what the text holds there. -/
theorem act_consistent (source : String) (actions : List Action) (action : Action) :
    let c := (start source).after actions
    c.Consistent source.toList ∧ c.offset ≤ (c.act action).2.offset ∧
      Answers source.toList c (c.act action).2 (c.act action).1 action := by
  have h := (in_start source).after actions
  refine ⟨h.consistent, ?_, h.answers action⟩
  obtain ⟨n, hn⟩ := exists_advance ((start source).after actions) action
  rw [hn]
  exact offset_le_advance n _

end Cursor

end Criterion
