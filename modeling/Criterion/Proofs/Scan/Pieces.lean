import Criterion.Proofs.Rendering.Layout
import Criterion.Proofs.Scan.Words

/-!
How the tokens of a text lie in it. Each is read from a piece of the text with nothing but spacing
before it, and says where that piece starts.
-/

namespace Criterion

theorem Position.after_append (p : Position) (cs ds : List Char) :
    p.after (cs ++ ds) = (p.after cs).after ds :=
  List.foldl_append

/-- The line is one more than the line feeds passed, the column one more than what came after the
last of them. -/
theorem Position.start_after (passed : List Char) :
    start.after passed =
      ⟨1 + passed.count '\n', 1 + (passed.reverse.takeWhile (· != '\n')).length⟩ := by
  induction hn : passed.reverse generalizing passed with
  | nil =>
    rw [List.reverse_eq_nil_iff.1 hn]
    rfl
  | cons c before ih =>
    obtain rfl : passed = before.reverse ++ [c] := by simpa using congrArg List.reverse hn
    rw [after_append, ih before.reverse before.reverse_reverse]
    by_cases h : c = '\n'
    · simp [after, past, h, Nat.add_assoc]
    · simp [after, past, h, Nat.add_assoc]

namespace Cursor

/-- A cursor stands in a text: what was read and what is to come make up the text, and the position
is where the reading has led. -/
structure In (source : List Char) (c : Cursor) : Prop where
  text : c.before.reverse ++ c.rest = source
  position : c.position = Position.start.after c.before.reverse

variable {source : List Char} {c : Cursor}

theorem in_start (source : String) : (start source).In source.toList := ⟨rfl, rfl⟩

theorem In.advance (h : c.In source) (n : Nat) : (c.advance n).In source := by
  constructor
  · have cut : c.rest.take n ++ c.rest.drop n = c.rest := List.take_append_drop n c.rest
    simp only [Cursor.advance, List.reverse_append, List.reverse_reverse, List.append_assoc, cut]
    exact h.text
  · simp only [Cursor.advance, List.reverse_append, List.reverse_reverse, h.position]
    exact (Position.after_append ..).symm

theorem In.skipSpacing (h : c.In source) : c.skipSpacing.In source := h.advance _

end Cursor

/-- The characters of a token that is written out in full: its text, and for a string the marks
around it. -/
def Token.raw (t : Token) : List Char :=
  if t.kind = .string then Text.quotationMark :: (t.text.toList ++ [Text.quotationMark])
  else t.text.toList

/-- A token is read from some characters before others: all of its own, but a string lacks its
closing mark where nothing follows. -/
def Token.ReadFrom (t : Token) (raw rest : List Char) : Prop :=
  raw = t.raw ∨ t.kind = .string ∧ raw = Text.quotationMark :: t.text.toList ∧ rest = []

def StartsWithDigit (text : String) : Prop := ∃ c cs, text.toList = c :: cs ∧ isDigit c

theorem Token.ReadFrom.subset {t : Token} {raw rest : List Char} (h : t.ReadFrom raw rest) :
    t.text.toList ⊆ raw := by
  rcases h with rfl | ⟨-, rfl, -⟩
  · rw [Token.raw]
    split
    · intro c hc
      exact List.mem_cons_of_mem _ (List.mem_append_left _ hc)
    · exact List.Subset.refl _
  · intro c hc
    exact List.mem_cons_of_mem _ hc

/-- What is known of every token: strings hold no quotation mark, identifiers are names, and
numerals start with a digit. -/
structure Token.Proper (t : Token) : Prop where
  string : t.kind = .string → Quotable t.text
  identifier : t.kind = .identifier → IsName t.text
  integer : t.kind = .integer → StartsWithDigit t.text

theorem isName_of_ofWord {text : String} (some : text ≠ "")
    (letters : ∀ c ∈ text.toList, isLetter c) (h : TokenKind.ofWord text = .identifier) :
    IsName text := by
  rw [TokenKind.ofWord] at h
  split at h
  · next kind hk =>
    have known : ∀ entry ∈ keywords, entry.2 ≠ TokenKind.identifier := by decide
    obtain ⟨before, after, he, -⟩ := List.lookup_eq_some_iff.1 hk
    exact absurd h (known (text, kind) (he ▸ List.mem_append_right before (List.mem_cons_self ..)))
  · next hk =>
    split at h
    · cases h
    · next reserved =>
      refine ⟨some, letters, ?_, by simpa using reserved⟩
      rw [List.lookup_eq_none_iff] at hk
      intro hm
      obtain ⟨entry, he, rfl⟩ := List.mem_map.1 hm
      simpa using hk entry he

namespace Cursor

/-- A token is read at the place of a cursor from some characters, at least one, and the cursor
advances past them. -/
def Reads (c : Cursor) (t : Token) (after : Cursor) : Prop :=
  ∃ raw, raw ≠ [] ∧ c.rest = raw ++ after.rest ∧ t.ReadFrom raw after.rest ∧ t.Proper ∧
    t.line = c.position.line ∧ t.column = c.position.column ∧ ∃ n, after = c.advance n

variable {c : Cursor} {first : Char} {cs : List Char}

theorem tokenAt_quotation (c : Cursor) :
    c.tokenAt Text.quotationMark =
      (⟨.string, .ofList ((c.rest.drop 1).takeWhile (· != Text.quotationMark)), c.position.line,
        c.position.column⟩,
        c.advance (((c.rest.drop 1).takeWhile (· != Text.quotationMark)).length + 2)) := rfl

theorem tokenAt_digit (c : Cursor) (hd : isDigit first) :
    c.tokenAt first =
      (⟨.integer, .ofList (c.rest.take (integerLength c.rest)), c.position.line, c.position.column⟩,
        c.advance (integerLength c.rest)) := by
  simp only [tokenAt, if_neg (ne_mark_of_digit hd), if_pos hd]
  rfl

theorem tokenAt_letter (c : Cursor) (hl : isLetter first) :
    c.tokenAt first =
      (⟨.ofWord (.ofList (c.rest.takeWhile isLetter)), .ofList (c.rest.takeWhile isLetter),
        c.position.line, c.position.column⟩, c.advance (c.rest.takeWhile isLetter).length) := by
  simp only [tokenAt, if_neg (ne_mark_of_letter hl), not_digit_of_letter hl, if_pos hl, readWord,
    readText, take_length_takeWhile]
  rfl

theorem tokenAt_symbol {text : String} {kind : TokenKind} (bare : Bare first)
    (h : symbolAt? c.rest = some (text, kind)) :
    c.tokenAt first =
      (⟨kind, text, c.position.line, c.position.column⟩, c.advance text.length) := by
  simp only [tokenAt, if_neg bare.1, bare.2.1, bare.2.2, h]
  rfl

theorem tokenAt_stray (bare : Bare first) (h : symbolAt? c.rest = none) :
    c.tokenAt first =
      (⟨.illegal, .singleton first, c.position.line, c.position.column⟩, c.advance 1) := by
  simp only [tokenAt, if_neg bare.1, bare.2.1, bare.2.2, h]
  rfl

theorem Reads.text {kind : TokenKind} {text : String} {n : Nat} (h : c.rest.take n = text.toList)
    (some : text ≠ "") (other : kind ≠ .string) (name : kind = .identifier → IsName text)
    (digit : kind = .integer → StartsWithDigit text) :
    c.Reads ⟨kind, text, c.position.line, c.position.column⟩ (c.advance n) := by
  refine ⟨text.toList, fun none => some (String.toList_eq_nil_iff.1 none), ?_, .inl ?_,
    ⟨fun h => absurd h other, name, digit⟩, rfl, rfl, n, rfl⟩
  · rw [← h]
    exact (List.take_append_drop n c.rest).symm
  · rw [Token.raw, if_neg other]

theorem reads_quotation (h : c.rest = Text.quotationMark :: cs) :
    c.Reads (c.tokenAt Text.quotationMark).1 (c.tokenAt Text.quotationMark).2 := by
  obtain ⟨body, close, rest, hcs, hbody, inner, hclose⟩ := exists_quotation cs
  have quotable : Quotable (.ofList body) := by
    intro mark
    exact inner _ (by simpa using mark) rfl
  have whole : c.rest = (Text.quotationMark :: (body ++ close)) ++ rest := by
    simp [h, hcs]
  have left : (c.advance (body.length + 2)).rest = rest := by
    rw [rest_advance, whole]
    rcases hclose with ⟨rfl, rfl⟩ | rfl
    · simp
    · simp
  rw [tokenAt_quotation, h, List.drop_one, List.tail_cons, hbody]
  refine ⟨Text.quotationMark :: (body ++ close), List.cons_ne_nil _ _, by rw [whole, left], ?_,
    ⟨fun _ => quotable, ?_, ?_⟩, rfl, rfl, _, rfl⟩
  · rw [left]
    rcases hclose with ⟨rfl, rfl⟩ | rfl
    · right
      simp
    · left
      simp [Token.raw]
  · intro other
    cases other
  · intro other
    cases other

theorem reads_digit (h : c.rest = first :: cs) (hd : isDigit first) :
    c.Reads (c.tokenAt first).1 (c.tokenAt first).2 := by
  have pos : 0 < integerLength (first :: cs) := integerLength_pos hd
  obtain ⟨n, hn⟩ := Nat.exists_eq_succ_of_ne_zero (Nat.ne_of_gt pos)
  have run : (String.ofList (c.rest.take (integerLength c.rest))).toList = first :: cs.take n := by
    rw [String.toList_ofList, h, hn, List.take_succ_cons]
  rw [tokenAt_digit c hd]
  refine .text String.toList_ofList.symm ?_ (by decide) (fun other => by cases other)
    fun _ => ⟨first, _, run, hd⟩
  intro none
  rw [none] at run
  cases run

theorem reads_letter (h : c.rest = first :: cs) (hl : isLetter first) :
    c.Reads (c.tokenAt first).1 (c.tokenAt first).2 := by
  have some : String.ofList (c.rest.takeWhile isLetter) ≠ "" := by
    rw [h, List.takeWhile_cons_of_pos hl]
    exact fun none => List.cons_ne_nil _ _ (String.ofList_eq_empty_iff.1 none)
  have letters : ∀ d ∈ (String.ofList (c.rest.takeWhile isLetter)).toList, isLetter d := by
    rw [String.toList_ofList]
    exact List.all_eq_true.1 List.all_takeWhile
  rw [tokenAt_letter c hl]
  refine .text ?_ some (ofWord_ne (by decide) _) (isName_of_ofWord some letters)
    fun digit => absurd digit (ofWord_ne (by decide) _)
  rw [take_length_takeWhile, String.toList_ofList]

theorem reads_bare (h : c.rest = first :: cs) (bare : Bare first) :
    c.Reads (c.tokenAt first).1 (c.tokenAt first).2 := by
  have known : ∀ entry ∈ symbols, entry.1 ≠ "" ∧ entry.2 ≠ .string ∧ entry.2 ≠ .identifier ∧
      entry.2 ≠ .integer := by decide
  cases hs : symbolAt? c.rest with
  | some found =>
    obtain ⟨text, kind⟩ := found
    obtain ⟨some, other, noName, noNumeral⟩ := known _ (List.mem_of_find?_eq_some hs)
    have start : text.toList <+: c.rest := by simpa using List.find?_some hs
    rw [tokenAt_symbol bare hs]
    refine .text ?_ some other (fun name => absurd name noName) fun digit => absurd digit noNumeral
    rw [← String.length_toList]
    exact (List.prefix_iff_eq_take.1 start).symm
  | none =>
    rw [tokenAt_stray bare hs]
    refine .text ?_ (by simp) (by decide) (fun name => by cases name) fun digit => by cases digit
    rw [h, String.toList_singleton]
    rfl

theorem reads_tokenAt (h : c.rest = first :: cs) :
    c.Reads (c.tokenAt first).1 (c.tokenAt first).2 := by
  by_cases hq : first = Text.quotationMark
  · subst hq
    exact reads_quotation h
  by_cases hd : isDigit first
  · exact reads_digit h hd
  by_cases hl : isLetter first
  · exact reads_letter h hl
  · exact reads_bare h ⟨hq, by simpa using hd, by simpa using hl⟩

theorem reads_next (h : c.next.1.kind ≠ .endOfInput) : c.skipSpacing.Reads c.next.1 c.next.2 := by
  cases hr : c.rest.dropWhile isSpacing with
  | nil => exact absurd (next_of_nil hr) h
  | cons first cs =>
    rw [next_of_cons hr]
    exact reads_tokenAt (by rw [rest_skipSpacing, hr])

end Cursor

/-- A token with the spacing before it and the characters that it is read from. -/
structure Piece where
  spacing : List Char
  raw : List Char
  token : Token
  deriving DecidableEq, Repr

def Piece.characters (p : Piece) : List Char := p.spacing ++ p.raw

def Cursor.pieces (c : Cursor) : List Piece :=
  if c.next.1.kind = .endOfInput then []
  else
    ⟨c.rest.takeWhile isSpacing,
      c.skipSpacing.rest.take (c.skipSpacing.rest.length - c.next.2.rest.length), c.next.1⟩ ::
      c.next.2.pieces
termination_by c.rest.length
decreasing_by exact next_shrinks ‹_›

def pieces (source : String) : List Piece := (Cursor.start source).pieces

/-- A piece lies between the characters before it and those after it: its token is read from it, and
names the line and the column where the characters of the token start. -/
structure Piece.Lies (p : Piece) (before after : List Char) : Prop where
  kind : p.token.kind ≠ .endOfInput
  spacing : ∀ c ∈ p.spacing, isSpacing c
  some : p.raw ≠ []
  read : p.token.ReadFrom p.raw after
  line : p.token.line = 1 + (before ++ p.spacing).count '\n'
  column : p.token.column = 1 + ((before ++ p.spacing).reverse.takeWhile (· != '\n')).length
  proper : p.token.Proper

namespace Cursor

variable {source : List Char} {c : Cursor}

theorem pieces_of_end (h : c.next.1.kind = .endOfInput) : c.pieces = [] := by
  rw [pieces, if_pos h]

theorem rest_of_end (h : c.next.1.kind = .endOfInput) : ∀ d ∈ c.rest, isSpacing d := by
  cases hr : c.rest.dropWhile isSpacing with
  | nil =>
    intro d hd
    rw [← List.takeWhile_append_dropWhile (p := isSpacing) (l := c.rest), hr,
      List.append_nil] at hd
    exact List.all_eq_true.1 List.all_takeWhile d hd
  | cons first cs =>
    rw [next_of_cons hr] at h
    exact absurd h (kind_tokenAt first _)

/-- The first of the pieces from a cursor on, and where those after it start. -/
theorem exists_pieces (hc : c.In source) (h : c.next.1.kind ≠ .endOfInput) :
    ∃ p : Piece, c.pieces = p :: c.next.2.pieces ∧ p.token = c.next.1 ∧ c.next.2.In source ∧
      c.next.2.before.reverse = c.before.reverse ++ p.characters ∧
      c.skipSpacing.rest = p.raw ++ c.next.2.rest ∧ c.rest = p.characters ++ c.next.2.rest ∧
      p.Lies c.before.reverse c.next.2.rest := by
  obtain ⟨raw, some, rest, read, proper, line, column, n, after⟩ := reads_next h
  have stands : c.next.2.In source := after ▸ hc.skipSpacing.advance n
  have whole : c.rest = c.rest.takeWhile isSpacing ++ raw ++ c.next.2.rest := by
    rw [List.append_assoc, ← rest, rest_skipSpacing, List.takeWhile_append_dropWhile]
  have position : c.skipSpacing.position =
      Position.start.after (c.before.reverse ++ c.rest.takeWhile isSpacing) := by
    rw [hc.skipSpacing.position, skipSpacing, skipWhile, advance, take_length_takeWhile,
      List.reverse_append, List.reverse_reverse]
  rw [position, Position.start_after] at line column
  refine ⟨⟨c.rest.takeWhile isSpacing, raw, c.next.1⟩, ?_, rfl, stands, ?_, rest, whole, ?_⟩
  · rw [pieces, if_neg h, rest]
    simp
  · rw [← List.append_left_inj c.next.2.rest, stands.text, ← hc.text, List.append_assoc]
    exact congrArg _ whole
  · exact ⟨h, fun d hd => List.all_eq_true.1 List.all_takeWhile d hd, some, read,
      by exact_mod_cast line, by exact_mod_cast column, proper⟩

theorem tokens_pieces (c : Cursor) (hc : c.In source) :
    ∃ ending last, c.tokens = c.pieces.map Piece.token ++ [last] ∧ last.kind = .endOfInput ∧
      c.rest = c.pieces.flatMap Piece.characters ++ ending ∧ (∀ d ∈ ending, isSpacing d) ∧
      ∀ before p after, c.pieces = before ++ p :: after →
        p.Lies (c.before.reverse ++ before.flatMap Piece.characters)
          (after.flatMap Piece.characters ++ ending) := by
  induction c using pieces.induct with
  | case1 c h =>
    rw [tokens_of_end h, pieces_of_end h]
    refine ⟨c.rest, c.next.1, rfl, h, rfl, rest_of_end h, ?_⟩
    intro before p after none
    exact absurd none.symm (by simp)
  | case2 c h ih =>
    obtain ⟨p, hp, token, stands, read, -, rest, lies⟩ := exists_pieces hc h
    obtain ⟨ending, last, tokens', kind, text, spacing, all⟩ := ih stands
    rw [tokens_of_next h, hp]
    refine ⟨ending, last, by rw [tokens', ← token]; rfl, kind, ?_, spacing, ?_⟩
    · rw [rest, text, List.flatMap_cons, List.append_assoc]
    · intro before q after split
      cases before with
      | nil =>
        obtain ⟨rfl, rfl⟩ := List.cons.inj split
        rw [List.flatMap_nil, List.append_nil, ← text]
        exact lies
      | cons first before =>
        obtain ⟨rfl, later⟩ := List.cons.inj split
        rw [List.flatMap_cons, ← List.append_assoc, ← read]
        exact all before q after later

end Cursor

theorem exists_lies {source : String} {p : Piece} (h : p ∈ pieces source) :
    ∃ before after, source.toList = before ++ (p.characters ++ after) ∧ p.Lies before after := by
  obtain ⟨ending, last, -, -, text, -, lies⟩ :=
    Cursor.tokens_pieces (.start source) (Cursor.in_start source)
  obtain ⟨before, after, split⟩ := List.append_of_mem h
  refine ⟨before.flatMap Piece.characters, after.flatMap Piece.characters ++ ending, ?_,
    lies before p after split⟩
  refine Eq.trans text ?_
  change (pieces source).flatMap _ ++ _ = _
  rw [split, List.flatMap_append, List.flatMap_cons, List.append_assoc, List.append_assoc]

theorem proper_of_mem_pieces {source : String} {p : Piece} (h : p ∈ pieces source) :
    p.token.Proper := by
  obtain ⟨before, after, -, lies⟩ := exists_lies h
  exact lies.proper

theorem exists_last_token (source : String) :
    ∃ last, tokenize source = (pieces source).map Piece.token ++ [last] ∧
      last.kind = .endOfInput := by
  obtain ⟨ending, last, tokens, kind, -⟩ :=
    Cursor.tokens_pieces (.start source) (Cursor.in_start source)
  exact ⟨last, tokens, kind⟩

/-- The words of a text are those of the tokens of its pieces. -/
theorem sourceWords_pieces (source : String) :
    sourceWords source.toList = (pieces source).map fun p => p.token.word := by
  obtain ⟨last, tokens, kind⟩ := exists_last_token source
  have all : ∀ t ∈ (pieces source).map Piece.token, decide (t.kind ≠ .endOfInput) := by
    intro t ht
    obtain ⟨p, hp, rfl⟩ := List.mem_map.1 ht
    obtain ⟨before, after, -, lies⟩ := exists_lies hp
    exact decide_eq_true lies.kind
  rw [← wordsOf_tokenize, tokens, wordsOf, List.takeWhile_append_of_pos all,
    List.takeWhile_cons_of_neg (by simp [kind]), List.append_nil, List.map_map]
  rfl

theorem length_tokenize (source : String) :
    (tokenize source).length = (pieces source).length + 1 := by
  obtain ⟨last, tokens, -⟩ := exists_last_token source
  rw [tokens, List.length_append, List.length_map, List.length_singleton]

/-- Scanning loses nothing of a text and makes nothing up: the tokens are those of its pieces, with
one end token after them, and the pieces make up the text but for spacing at its end. -/
theorem tokenize_pieces (source : String) :
    ∃ ending last, tokenize source = (pieces source).map Piece.token ++ [last] ∧
      last.kind = .endOfInput ∧
      source.toList = (pieces source).flatMap Piece.characters ++ ending ∧
      (∀ c ∈ ending, isSpacing c) ∧
      ∀ before p after, pieces source = before ++ p :: after →
        p.Lies (before.flatMap Piece.characters) (after.flatMap Piece.characters ++ ending) :=
  Cursor.tokens_pieces (.start source) (Cursor.in_start source)

end Criterion
