import Mathlib
import Criterion.Highlight
import Criterion.Proofs.Scan.Pieces

namespace Criterion.Highlight

def blank (cs : List Char) : List Fragment := if cs = [] then [] else [⟨none, String.ofList cs⟩]

/-- A fragment shows a token before another one: all that the token is read from, in the style of
its kind, or in that of functions if the token names a function that is called. -/
structure Shows (r : Registry) (p : Piece) (next : Option Token) (f : Fragment) : Prop where
  text : f.text = String.ofList p.raw
  style : f.style = (groupOf p.token.kind).style ∨ f.style = Group.function.style
  called : f.style = Group.function.style ↔
    p.token.kind = .identifier ∧ r.contains p.token.text ∧ next.map Token.kind = some .leftParen

/-- Fragments cover some pieces and the spacing after them. -/
inductive Covers (r : Registry) (ending : List Char) : List Piece → List Fragment → Prop
  | ending : Covers r ending [] (blank ending)
  | piece {p : Piece} {ps : List Piece} {f : Fragment} {fs : List Fragment} :
      Shows r p (ps.head?.map Piece.token) f → Covers r ending ps fs →
      Covers r ending (p :: ps) (blank p.spacing ++ f :: fs)

def content (fs : List Fragment) : List Char := fs.flatMap fun f => f.text.toList

variable {r : Registry} {cs before after : List Char} {p : Piece}

theorem content_append (fs gs : List Fragment) : content (fs ++ gs) = content fs ++ content gs :=
  List.flatMap_append

theorem content_cons (f : Fragment) (fs : List Fragment) :
    content (f :: fs) = f.text.toList ++ content fs :=
  List.flatMap_cons

theorem content_gap (cs : List Char) (start stop : Nat) :
    content (gap cs start stop) = (cs.drop start).take (stop - start) := by
  rw [gap]
  split
  · simp [content]
  · next behind =>
    rw [Nat.sub_eq_zero_of_le (Nat.not_lt.1 behind), List.take_zero]
    rfl

theorem take_append_drop_from {start stop : Nat} (h : start ≤ stop) (cs : List Char) :
    (cs.drop start).take (stop - start) ++ cs.drop stop = cs.drop start := by
  have later : cs.drop stop = (cs.drop start).drop (stop - start) := by
    rw [List.drop_drop, Nat.add_sub_cancel' h]
  rw [later, List.take_append_drop]

theorem content_last (cs : List Char) (place : Nat) :
    content (gap cs place cs.length) = cs.drop place := by
  rw [content_gap]
  apply List.take_of_length_le
  exact Nat.le_of_eq List.length_drop

theorem content_fragments (r : Registry) (cs : List Char) (place : Nat) (ts : List Token) :
    content (fragments r cs place ts) = cs.drop place := by
  induction ts generalizing place with
  | nil => exact content_last cs place
  | cons t ts ih =>
    rw [fragments]
    split
    · exact content_last cs place
    · dsimp only
      split
      · exact ih place
      · next beyond =>
        simp only [Bool.or_eq_true, decide_eq_true_eq, not_or, Nat.not_lt, Nat.not_le] at beyond
        obtain ⟨reached, some⟩ := beyond
        rw [content_append, content_cons, ih, content_gap, String.toList_ofList,
          take_append_drop_from (Nat.le_of_lt some), take_append_drop_from reached]

theorem column_of_lies (lies : p.Lies before after) (flat : '\n' ∉ before ++ p.spacing) :
    p.token.column.toNat - 1 = (before ++ p.spacing).length := by
  have whole : (before ++ p.spacing).reverse.takeWhile (· != '\n') =
      (before ++ p.spacing).reverse := by
    apply List.takeWhile_eq_self_iff.2
    intro c mem
    rw [List.mem_reverse] at mem
    exact bne_iff_ne.2 fun same => flat (same ▸ mem)
  have column := lies.column
  rw [whole, List.length_reverse] at column
  omega

theorem extent_of_lies (text : cs = before ++ (p.characters ++ after)) (flat : '\n' ∉ cs)
    (lies : p.Lies before after) :
    extent cs p.token = ((before ++ p.spacing).length, (before ++ p.characters).length) := by
  have start : p.token.column.toNat - 1 = (before ++ p.spacing).length := by
    apply column_of_lies lies
    intro mem
    apply flat
    rw [text, Piece.characters, List.append_assoc, ← List.append_assoc]
    exact List.mem_append_left _ mem
  have next (n : Nat) : cs[(before ++ p.spacing).length + n]? = (p.raw ++ after)[n]? := by
    rw [text, Piece.characters, List.append_assoc, ← List.append_assoc before,
      List.getElem?_append_right (Nat.le_add_right _ _), Nat.add_sub_cancel_left]
  have stop : (before ++ p.characters).length = (before ++ p.spacing).length + p.raw.length := by
    rw [Piece.characters, ← List.append_assoc, List.length_append]
  rw [extent, start, stop]
  by_cases string : p.token.kind = .string
  · rw [if_pos string, ← String.length_toList, Nat.add_assoc, next]
    rcases lies.read with closed | ⟨-, unclosed, last⟩
    · -- the mark that ends the string is the one that is looked for
      rw [closed, Token.raw, if_pos string]
      simp [Nat.add_assoc]
    · rw [unclosed, last]
      simp [Nat.add_assoc]
  · rcases lies.read with plain | ⟨other, -⟩
    · rw [if_neg string, plain, Token.raw, if_neg string, String.length_toList]
    · exact absurd other string

theorem take_drop_between (before inner after : List Char) :
    ((before ++ (inner ++ after)).drop before.length).take
      ((before ++ inner).length - before.length) = inner := by
  rw [List.drop_left, List.length_append, Nat.add_sub_cancel_left, List.take_left]

theorem gap_of_spacing (before spacing after : List Char) :
    gap (before ++ (spacing ++ after)) before.length (before ++ spacing).length =
      blank spacing := by
  rw [gap, blank, take_drop_between]
  cases spacing with
  | nil => simp
  | cons c cs => simp

theorem gap_ending (before ending : List Char) :
    gap (before ++ ending) before.length (before ++ ending).length = blank ending := by
  have all := gap_of_spacing before ending []
  rwa [List.append_nil] at all

theorem groupOf_ne_function (kind : TokenKind) : (groupOf kind).style ≠ Group.function.style := by
  cases kind <;> decide

theorem shows_piece (r : Registry) (p : Piece) (ts : List Token) (next : Option Token)
    (h : ts.head?.any (·.kind = .leftParen) ↔ next.map Token.kind = some .leftParen) :
    Shows r p next ⟨some (if isCallHead r p.token ts.head? then .function
      else groupOf p.token.kind), String.ofList p.raw⟩ := by
  have called : isCallHead r p.token ts.head? ↔ p.token.kind = .identifier ∧
      r.contains p.token.text ∧ next.map Token.kind = some .leftParen := by
    rw [← h, isCallHead, Bool.and_eq_true, Bool.and_eq_true, decide_eq_true_eq, and_assoc,
      and_comm (a := ts.head?.any _ = true)]
  by_cases head : isCallHead r p.token ts.head?
  · rw [if_pos head]
    exact ⟨rfl, .inr rfl, iff_of_true rfl (called.1 head)⟩
  · rw [if_neg head]
    exact ⟨rfl, .inl rfl, iff_of_false (groupOf_ne_function _) (mt called.2 head)⟩

/-- At the place where a piece starts, the line goes on with the fragments of that piece. -/
theorem fragments_piece (r : Registry) (text : cs = before ++ (p.characters ++ after))
    (flat : '\n' ∉ cs) (lies : p.Lies before after) (ts : List Token) :
    fragments r cs before.length (p.token :: ts) =
      blank p.spacing ++
        ⟨some (if isCallHead r p.token ts.head? then .function else groupOf p.token.kind),
          String.ofList p.raw⟩ :: fragments r cs (before ++ p.characters).length ts := by
  have covered := extent_of_lies text flat lies
  rw [Piece.characters] at text covered ⊢
  rw [List.append_assoc] at text
  have ahead : ¬ (decide ((before ++ p.spacing).length < before.length) ||
      decide ((before ++ (p.spacing ++ p.raw)).length ≤ (before ++ p.spacing).length)) = true := by
    have some := List.length_pos_iff.2 lies.some
    simp only [List.length_append, Bool.or_eq_true, decide_eq_true_eq]
    omega
  have raw : (cs.drop (before ++ p.spacing).length).take
      ((before ++ (p.spacing ++ p.raw)).length - (before ++ p.spacing).length) = p.raw := by
    rw [text, ← List.append_assoc before, ← List.append_assoc before, take_drop_between]
  rw [fragments, if_neg lies.kind, covered]
  dsimp only
  rw [if_neg ahead, raw, text, gap_of_spacing]

/-- From the end of what is done on, the fragments cover the pieces that are left. -/
theorem covers_fragments (r : Registry) {ps : List Piece} {done ending : List Char} {last : Token}
    (text : cs = done ++ (ps.flatMap Piece.characters ++ ending)) (flat : '\n' ∉ cs)
    (finish : last.kind = .endOfInput)
    (lies : ∀ before p after, ps = before ++ p :: after →
      p.Lies (done ++ before.flatMap Piece.characters)
        (after.flatMap Piece.characters ++ ending)) :
    Covers r ending ps (fragments r cs done.length (ps.map Piece.token ++ [last])) := by
  induction ps generalizing done with
  | nil =>
    rw [List.map_nil, List.nil_append, fragments, if_pos finish, text, List.flatMap_nil,
      List.nil_append, gap_ending]
    exact .ending
  | cons p ps ih =>
    have here : p.Lies done (ps.flatMap Piece.characters ++ ending) := by
      simpa using lies [] p ps rfl
    rw [List.flatMap_cons, List.append_assoc] at text
    rw [List.map_cons, List.cons_append, fragments_piece r text flat here]
    apply Covers.piece
    · apply shows_piece
      -- after the last piece comes the end token, which opens no parenthesis
      cases ps with
      | nil => simp [finish]
      | cons q ps => simp
    · apply ih
      · rw [text, List.append_assoc]
      · intro before q after split
        have later := lies (p :: before) q after (by rw [split, List.cons_append])
        rwa [List.flatMap_cons, ← List.append_assoc] at later

/-- The fragments of a line make up the line, whatever is in it. In a line without line feeds each
token but the last has one fragment, in order, that shows all it is read from, and the others are
the spacing between these. -/
theorem line_covers (r : Registry) (text : String) :
    String.join ((line r text).map Fragment.text) = text ∧
    (text ≠ "" → '\n' ∉ text.toList → ∃ ending last,
      tokenize text = (pieces text).map Piece.token ++ [last] ∧ last.kind = .endOfInput ∧
      text.toList = (pieces text).flatMap Piece.characters ++ ending ∧
      (∀ c ∈ ending, isSpacing c) ∧
      (∀ before p after, pieces text = before ++ p :: after →
        p.Lies (before.flatMap Piece.characters) (after.flatMap Piece.characters ++ ending)) ∧
      Covers r ending (pieces text) (line r text)) := by
  constructor
  · rw [← String.toList_inj, String.toList_join, List.flatMap_map, line]
    split
    · next none => rw [none]; rfl
    · exact content_fragments r text.toList 0 _
  · intro some flat
    obtain ⟨ending, last, tokens, finish, parts, spacing, lies⟩ :=
      Cursor.tokens_pieces (.start text) (Cursor.in_start text)
    refine ⟨ending, last, tokens, finish, parts, spacing, lies, ?_⟩
    rw [line, if_neg some, tokenize, tokens]
    exact covers_fragments r parts flat finish lies

theorem line_covers_call :
    line .standard "len( \"a" = [⟨some .function, "len"⟩, ⟨some .punctuation, "("⟩,
      ⟨none, " "⟩, ⟨some .string, "\"a"⟩] ∧
    "len( \"a" ≠ "" ∧ '\n' ∉ "len( \"a".toList ∧
    ∃ ending, (∀ c ∈ ending, isSpacing c) ∧
      Covers .standard ending (pieces "len( \"a") (line .standard "len( \"a") := by
  have some : "len( \"a" ≠ "" := by decide
  have flat : '\n' ∉ "len( \"a".toList := by decide
  obtain ⟨-, covers⟩ := line_covers .standard "len( \"a"
  obtain ⟨ending, last, -, -, -, spacing, -, covered⟩ := covers some flat
  exact ⟨by cbv, some, flat, ending, spacing, covered⟩

end Criterion.Highlight
