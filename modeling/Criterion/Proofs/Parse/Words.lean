import Criterion.Parse.Expression
import Criterion.Proofs.Grammar.Derivation

namespace Criterion

open Grammar

def TokenKind.word (text : String) : TokenKind → Word
  | .identifier => .name text
  | .integer => .numeral text
  | .string => .quotation text
  | .trueWord => .truth true
  | .falseWord => .truth false
  | .and => .sign .and
  | .or => .sign .or
  | .equal => .sign .equal
  | .notEqual => .sign .notEqual
  | .less => .sign .less
  | .lessEqual => .sign .lessEqual
  | .greater => .sign .greater
  | .greaterEqual => .sign .greaterEqual
  | .plus => .sign .add
  | .minus => .sign .subtract
  | .star => .sign .multiply
  | .slash => .sign .divide
  | .inWord => .sign .member
  | .bang => .bang
  | .leftParen => .leftParen
  | .rightParen => .rightParen
  | .leftBracket => .leftBracket
  | .rightBracket => .rightBracket
  | .comma => .comma
  | .pattern | .semicolon | .illegal | .endOfInput => .stray

def Token.word (t : Token) : Word := t.kind.word t.text

/-- The words of the tokens before the first end token. -/
def wordsOf (tokens : List Token) : List Word :=
  (tokens.takeWhile (·.kind ≠ .endOfInput)).map Token.word

theorem Token.word_eq_sign {t : Token} {op : BinaryOp} :
    t.word = .sign op ↔ t.kind.binaryOp? = some op := by
  rcases t with ⟨kind, text, line, column⟩
  cases kind <;> simp [Token.word, TokenKind.word, TokenKind.binaryOp?]

theorem Token.word_eq_name {t : Token} {text : String} :
    t.word = .name text ↔ t.kind = .identifier ∧ t.text = text := by
  rcases t with ⟨kind, text, line, column⟩
  cases kind <;> simp [Token.word, TokenKind.word]

theorem Token.word_eq_numeral {t : Token} {text : String} :
    t.word = .numeral text ↔ t.kind = .integer ∧ t.text = text := by
  rcases t with ⟨kind, text, line, column⟩
  cases kind <;> simp [Token.word, TokenKind.word]

theorem Token.word_eq_quotation {t : Token} {text : String} :
    t.word = .quotation text ↔ t.kind = .string ∧ t.text = text := by
  rcases t with ⟨kind, text, line, column⟩
  cases kind <;> simp [Token.word, TokenKind.word]

def Grammar.Word.kind : Word → TokenKind
  | name _ => .identifier
  | numeral _ => .integer
  | quotation _ => .string
  | truth true => .trueWord
  | truth false => .falseWord
  | sign .and => .and
  | sign .or => .or
  | sign .equal => .equal
  | sign .notEqual => .notEqual
  | sign .less => .less
  | sign .lessEqual => .lessEqual
  | sign .greater => .greater
  | sign .greaterEqual => .greaterEqual
  | sign .add => .plus
  | sign .subtract => .minus
  | sign .multiply => .star
  | sign .divide => .slash
  | sign .member => .inWord
  | bang => .bang
  | leftParen => .leftParen
  | rightParen => .rightParen
  | leftBracket => .leftBracket
  | rightBracket => .rightBracket
  | comma => .comma
  | stray => .illegal

theorem Token.kind_of_word {t : Token} {w : Word} (h : t.word = w) (hw : w ≠ .stray) :
    t.kind = w.kind := by
  subst h
  rcases t with ⟨kind, text, line, column⟩
  cases kind <;> first | rfl | exact absurd rfl hw

def Grammar.Word.precedence : Word → Nat
  | .sign op => op.precedence
  | .leftParen => Precedence.call
  | _ => Precedence.lowest

theorem Token.precedence_word (t : Token) : t.word.precedence = t.kind.precedence := by
  rcases t with ⟨kind, text, line, column⟩
  cases kind <;> rfl

namespace Parse.Stream

def words (s : Stream) : List Word := wordsOf s.rest

theorem words_of_end {s : Stream} (h : s.kind = .endOfInput) : s.words = [] := by
  rcases s with ⟨position, _ | ⟨t, ts⟩⟩
  · rfl
  · have ht : t.kind = .endOfInput := h
    simp [words, wordsOf, ht]

theorem words_of_more {s : Stream} (h : s.kind ≠ .endOfInput) :
    s.words = s.current.word :: s.next.words := by
  rcases s with ⟨position, _ | ⟨t, ts⟩⟩
  · exact absurd rfl h
  · have ht : t.kind ≠ .endOfInput := h
    simp [words, wordsOf, ht, current, next]

theorem words_of_kind {s : Stream} {kind : TokenKind} (h : s.kind = kind)
    (more : kind ≠ .endOfInput) : s.words = kind.word s.current.text :: s.next.words := by
  subst h
  exact words_of_more more

theorem words_eq_cons {s : Stream} {w : Word} {ws : List Word} (h : s.words = w :: ws) :
    s.kind ≠ .endOfInput ∧ s.current.word = w ∧ s.next.words = ws := by
  have more : s.kind ≠ .endOfInput := fun he => by
    rw [words_of_end he] at h
    exact nomatch h
  rw [words_of_more more] at h
  obtain ⟨hw, hws⟩ := List.cons.inj h
  exact ⟨more, hw, hws⟩

theorem kind_of_words {s : Stream} {w : Word} {ws : List Word} (h : s.words = w :: ws)
    (hw : w ≠ .stray) : s.kind = w.kind :=
  Token.kind_of_word (words_eq_cons h).2.1 hw

theorem end_of_words_nil {s : Stream} (h : s.words = []) : s.kind = .endOfInput := by
  false_or_by_contra
  rename_i more
  rw [words_of_more more] at h
  exact nomatch h

end Parse.Stream

end Criterion
