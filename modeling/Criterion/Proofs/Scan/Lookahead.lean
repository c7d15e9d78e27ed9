import Criterion.Proofs.Scan.Pieces

namespace Criterion

/-- The characters that a token other than a string can go on with. -/
def isJoining (c : Char) : Bool := isAlphanumeric c || c = '_' || c = '=' || c = '&' || c = '|'

/-- Text goes on with a token only where other text does so too. -/
def EndsAs (other more : List Char) : Prop := ∀ c ∈ other.head?, isJoining c → more.head? = some c

/-- The kind and the text of a token, which do not tell where it stands. -/
def Token.content (t : Token) : TokenKind × String := (t.kind, t.text)

variable {raw more other : List Char}

theorem endsAs_append (more other : List Char) (h : EndsAs other []) :
    EndsAs (more ++ other) more := by
  cases more with
  | nil => exact h
  | cons c cs =>
    intro d hd _
    cases hd
    rfl

theorem EndsAs.takeWhile {p : Char → Bool} (h : EndsAs other more)
    (joining : ∀ c, p c → isJoining c) (run : (raw ++ more).takeWhile p = raw) :
    (raw ++ other).takeWhile p = raw := by
  obtain ⟨all, stop⟩ := takeWhile_append_eq_left.1 run
  refine takeWhile_append_eq_left.2 ⟨all, ?_⟩
  intro c hc hp
  exact stop c (h c hc (joining c hp)) hp

theorem isJoining_of_alphanumeric {c : Char} (h : isAlphanumeric c) : isJoining c := by
  simp [isJoining, h]

theorem isJoining_of_digit {c : Char} (h : isDigit c) : isJoining c := by
  simp [isJoining, isAlphanumeric, h]

theorem isJoining_of_letter {c : Char} (h : isLetter c) : isJoining c := by
  simp only [isLetter, Bool.or_eq_true] at h
  rcases h with (h | h) | h
  · simp [isJoining, isAlphanumeric, h]
  · simp [isJoining, isAlphanumeric, h]
  · simp [isJoining, h]

theorem isJoining_of_marker {c : Char} (h : isBaseMarker c) : isJoining c := by
  simp only [isBaseMarker, Bool.or_eq_true, decide_eq_true_eq] at h
  rcases h with ((((rfl | rfl) | rfl) | rfl) | rfl) | rfl <;> decide

def Based (cs : List Char) : Prop := ∃ marker rest, cs = '0' :: marker :: rest ∧ isBaseMarker marker

theorem take_integerLength {cs : List Char} (h : ¬ Based cs) :
    cs.take (integerLength cs) = cs.takeWhile isDigit := by
  unfold integerLength
  split
  · next marker rest => rw [if_neg fun hm => h ⟨marker, rest, rfl, hm⟩, take_length_takeWhile]
  · rw [take_length_takeWhile]

theorem take_integerLength_marker {marker : Char} {rest : List Char} (h : isBaseMarker marker) :
    ('0' :: marker :: rest).take (integerLength ('0' :: marker :: rest)) =
      '0' :: marker :: rest.takeWhile isAlphanumeric := by
  rw [integerLength, if_pos h, List.take_succ_cons, List.take_succ_cons, take_length_takeWhile]

theorem EndsAs.based (h : EndsAs other more) (some : raw ≠ []) (hb : Based (raw ++ other)) :
    Based (raw ++ more) := by
  obtain ⟨marker, rest, text, hm⟩ := hb
  cases raw with
  | nil => exact absurd rfl some
  | cons c raw =>
    cases raw with
    | nil =>
      obtain ⟨rfl, rfl⟩ := List.cons.inj text
      cases more with
      | nil => cases h marker rfl (isJoining_of_marker hm)
      | cons d more =>
        cases h marker rfl (isJoining_of_marker hm)
        exact ⟨marker, more, rfl, hm⟩
    | cons d raw =>
      obtain ⟨rfl, later⟩ := List.cons.inj text
      obtain ⟨rfl, -⟩ := List.cons.inj later
      exact ⟨d, raw ++ more, rfl, hm⟩

theorem EndsAs.integer (h : EndsAs other more) (some : raw ≠ [])
    (run : (raw ++ more).take (integerLength (raw ++ more)) = raw) :
    (raw ++ other).take (integerLength (raw ++ other)) = raw := by
  by_cases based : Based (raw ++ more)
  · obtain ⟨marker, rest, text, hm⟩ := based
    rw [text, take_integerLength_marker hm] at run
    subst run
    have body : rest.takeWhile isAlphanumeric ++ more = rest := by simpa using text
    have same := h.takeWhile (fun _ => isJoining_of_alphanumeric) (congrArg _ body)
    rw [List.cons_append, List.cons_append, take_integerLength_marker hm, same]
  · have other : ¬ Based (raw ++ other) := fun hb => based (h.based some hb)
    rw [take_integerLength based] at run
    rw [take_integerLength other]
    exact h.takeWhile (fun _ => isJoining_of_digit) run

theorem exists_of_mem_symbols {entry : String × TokenKind} (h : entry ∈ symbols) :
    ∃ a, entry.1.toList = [a] ∨ ∃ b, entry.1.toList = [a, b] ∧ isJoining b := by
  have known : symbols.all fun entry =>
      entry.1.toList ≠ [] && entry.1.toList.tail.length ≤ 1 &&
        entry.1.toList.tail.all isJoining := by
    decide
  have shape := List.all_eq_true.1 known entry h
  cases hl : entry.1.toList with
  | nil => simp [hl] at shape
  | cons a rest =>
    cases rest with
    | nil => exact ⟨a, .inl rfl⟩
    | cons b more =>
      cases more with
      | nil => exact ⟨a, .inr ⟨b, rfl, by simpa [hl] using shape⟩⟩
      | cons d more => simp [hl] at shape

theorem EndsAs.isPrefix (h : EndsAs other more) (some : raw ≠ []) {entry : String × TokenKind}
    (known : entry ∈ symbols) (start : entry.1.toList <+: raw ++ other) :
    entry.1.toList <+: raw ++ more := by
  obtain ⟨c, cs, rfl⟩ := List.exists_cons_of_ne_nil some
  obtain ⟨a, ha | ⟨b, hb, joining⟩⟩ := exists_of_mem_symbols known
  · rw [ha, List.cons_append, List.cons_prefix_cons] at start ⊢
    exact ⟨start.1, List.nil_prefix⟩
  · rw [hb, List.cons_append, List.cons_prefix_cons] at start ⊢
    refine ⟨start.1, ?_⟩
    cases cs with
    | cons d cs =>
      rw [List.cons_append, List.cons_prefix_cons] at start ⊢
      exact ⟨start.2.1, List.nil_prefix⟩
    | nil =>
      obtain ⟨rest, rfl⟩ := start.2
      have next : more.head? = Option.some b := h b rfl joining
      obtain ⟨rest, rfl⟩ := List.head?_eq_some_iff.1 next
      exact ⟨rest, rfl⟩

theorem EndsAs.symbolAt?_eq_some (h : EndsAs other more) {text : String} {kind : TokenKind}
    (found : symbolAt? (text.toList ++ more) = some (text, kind)) :
    symbolAt? (text.toList ++ other) = some (text, kind) := by
  have nonempty : text.toList ≠ [] := by
    have pos := Cursor.symbolAt?_length_pos found
    intro none
    rw [String.toList_eq_nil_iff.1 none] at pos
    cases pos
  obtain ⟨-, before, after, split, first⟩ := List.find?_eq_some_iff_append.1 found
  refine List.find?_eq_some_iff_append.2 ⟨by simp, before, after, split, ?_⟩
  intro entry he
  have known : entry ∈ symbols := split ▸ List.mem_append_left _ he
  have other := first entry he
  simp only [Bool.not_eq_true', Bool.eq_false_iff, ne_eq, List.isPrefixOf_iff_prefix] at other ⊢
  exact fun start => other (h.isPrefix nonempty known start)

theorem EndsAs.symbolAt?_eq_none (h : EndsAs other more) (some : raw ≠ [])
    (none : symbolAt? (raw ++ more) = none) : symbolAt? (raw ++ other) = .none := by
  rw [symbolAt?, List.find?_eq_none] at none ⊢
  intro entry known start
  refine none entry known ?_
  rw [List.isPrefixOf_iff_prefix] at start ⊢
  exact h.isPrefix some known start

namespace Cursor

variable {c d : Cursor} {first : Char}

/-- The same token is read at two cursors, and other text is left at the second. -/
def SameToken (c d : Cursor) (first : Char) (other : List Char) : Prop :=
  (d.tokenAt first).1.content = (c.tokenAt first).1.content ∧ (d.tokenAt first).2.rest = other

theorem sameToken_quotation {body : List Char}
    (hc : c.rest = Text.quotationMark :: (body ++ Text.quotationMark :: more))
    (hd : d.rest = Text.quotationMark :: (body ++ Text.quotationMark :: other))
    (inner : ∀ b ∈ body, b ≠ Text.quotationMark) :
    SameToken c d Text.quotationMark other := by
  have content (rest : List Char) :
      (body ++ Text.quotationMark :: rest).takeWhile (· != Text.quotationMark) = body :=
    takeWhile_append_eq_left.2 ⟨fun b hb => bne_iff_ne.2 (inner b hb), by simp⟩
  constructor
  · rw [tokenAt_quotation, tokenAt_quotation, hc, hd, List.drop_one, List.tail_cons, List.drop_one,
      List.tail_cons, content, content]
    rfl
  · rw [tokenAt_quotation, hd, List.drop_one, List.tail_cons, content, rest_advance, hd]
    simp

theorem sameToken_digit (hc : c.rest = raw ++ more) (hd : d.rest = raw ++ other)
    (digit : isDigit first) (some : raw ≠ []) (full : raw = (c.tokenAt first).1.raw)
    (h : EndsAs other more) : SameToken c d first other := by
  rw [tokenAt_digit c digit, Token.raw, if_neg (by simp), String.toList_ofList, hc] at full
  have same := h.integer some full.symm
  constructor
  · rw [tokenAt_digit c digit, tokenAt_digit d digit, hc, hd, same, ← full]
    rfl
  · have whole := List.take_append_drop (integerLength d.rest) d.rest
    rw [hd, same] at whole
    rw [tokenAt_digit d digit, rest_advance, hd]
    exact List.append_cancel_left whole

theorem sameToken_letter (hc : c.rest = raw ++ more) (hd : d.rest = raw ++ other)
    (letter : isLetter first) (full : raw = (c.tokenAt first).1.raw)
    (h : EndsAs other more) : SameToken c d first other := by
  rw [tokenAt_letter c letter, Token.raw, if_neg (ofWord_ne (by decide) _), String.toList_ofList,
    hc] at full
  have same := h.takeWhile (fun _ => isJoining_of_letter) full.symm
  constructor
  · rw [tokenAt_letter c letter, tokenAt_letter d letter, hc, hd, same, ← full]
    rfl
  · rw [tokenAt_letter d letter, rest_advance, hd, same, List.drop_left]

theorem sameToken_bare (hc : c.rest = raw ++ more) (hd : d.rest = raw ++ other)
    (bare : Bare first) (some : raw ≠ []) (full : raw = (c.tokenAt first).1.raw)
    (h : EndsAs other more) : SameToken c d first other := by
  have known : ∀ entry ∈ symbols, entry.2 ≠ .string := by decide
  cases found : symbolAt? c.rest with
  | some entry =>
    obtain ⟨text, kind⟩ := entry
    have kind_ne := known _ (List.mem_of_find?_eq_some found)
    rw [tokenAt_symbol bare found, Token.raw, if_neg kind_ne] at full
    subst full
    rw [hc] at found
    have same := h.symbolAt?_eq_some found
    rw [← hc] at found
    rw [← hd] at same
    constructor
    · rw [tokenAt_symbol bare found, tokenAt_symbol bare same]
      rfl
    · rw [tokenAt_symbol bare same, rest_advance, hd, ← String.length_toList, List.drop_left]
  | none =>
    rw [tokenAt_stray bare found, Token.raw, if_neg (by simp), String.toList_singleton] at full
    subst full
    rw [hc] at found
    have same := h.symbolAt?_eq_none some found
    rw [← hc] at found
    rw [← hd] at same
    constructor
    · rw [tokenAt_stray bare found, tokenAt_stray bare same]
      rfl
    · rw [tokenAt_stray bare same, rest_advance, hd]
      rfl

/-- A token that stands in full is read from its characters whatever follows them, as long as that
does not go on with it. -/
theorem sameToken (hc : c.rest = raw ++ more) (hd : d.rest = raw ++ other)
    (start : raw.head? = some first) (full : raw = (c.tokenAt first).1.raw)
    (proper : (c.tokenAt first).1.Proper) (h : EndsAs other more) : SameToken c d first other := by
  have some : raw ≠ [] := by
    rintro rfl
    cases start
  by_cases hq : first = Text.quotationMark
  · subst hq
    have string : (c.tokenAt Text.quotationMark).1.kind = .string := rfl
    have plain := proper.string string
    rw [Token.raw, if_pos string] at full
    rw [full] at hc hd
    refine sameToken_quotation (by simpa using hc) (by simpa using hd) ?_
    intro b hb mark
    exact plain (mark ▸ hb)
  by_cases digit : isDigit first
  · exact sameToken_digit hc hd digit some full h
  by_cases letter : isLetter first
  · exact sameToken_letter hc hd letter full h
  · exact sameToken_bare hc hd ⟨hq, by simpa using digit, by simpa using letter⟩ some full h

theorem Reads.raw_ne_nil {t : Token} (h : c.Reads t d) : t.raw ≠ [] := by
  obtain ⟨raw, some, -, rfl | ⟨string, -⟩, -⟩ := h
  · exact some
  · rw [Token.raw, if_pos string]
    exact List.cons_ne_nil _ _

/-- The next token, if it stands in full, is the same wherever its characters come next and what
follows them does not go on with it. -/
theorem next_endsAs (next : c.next.1.kind ≠ .endOfInput)
    (hc : c.skipSpacing.rest = c.next.1.raw ++ more)
    (hd : d.skipSpacing.rest = c.next.1.raw ++ other) (h : EndsAs other more) :
    d.next.1.content = c.next.1.content ∧ d.next.2.rest = other := by
  have reads := reads_next next
  obtain ⟨first, tail, start⟩ := List.exists_cons_of_ne_nil reads.raw_ne_nil
  obtain ⟨-, -, -, -, proper, -⟩ := reads
  have first_of {e : Cursor} {rest : List Char} (he : e.skipSpacing.rest = c.next.1.raw ++ rest) :
      e.next = e.skipSpacing.tokenAt first := by
    have front : e.rest.dropWhile isSpacing = first :: (tail ++ rest) := by
      rw [← rest_skipSpacing, he, start, List.cons_append]
    exact next_of_cons front
  have at_c := first_of hc
  have at_d := first_of hd
  rw [at_c] at hc hd proper start
  rw [at_c, at_d]
  exact sameToken hc hd (by rw [start]; rfl) rfl proper h

end Cursor

end Criterion
