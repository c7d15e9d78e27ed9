import Criterion.Proofs.FrontEnds
import Criterion.Proofs.Grammar.Faults
import Criterion.Proofs.Parse.Faults
import Criterion.Proofs.Typing.Messages

/-!
What both front ends say first about a text that the grammar derives. One stops at the first literal
that stands for no value, the other goes on and says more, but later; without such a literal both
have the same tree, and what is said is about its types.
-/

namespace Criterion

open Grammar

/-- The lexemes of a text are those of a derivation, and no name among them is a reserved word. -/
def Grammar.Derivation.Writes (d : Derivation .logical) (source : String) : Prop :=
  ∃ ls, lexemes .start source.toList = (ls, none) ∧ ls.map Lexeme.word = d.words ∧ Free d.words

theorem Grammar.Derivation.writes_iff {d : Derivation .logical} {source : String} :
    d.Writes source ↔ d.words = sourceWords source.toList := by
  constructor
  · rintro ⟨ls, hls, hw, free⟩
    have tell := (lexemes_tell .start source.toList).2
    rw [hls] at tell
    change sourceWords source.toList = _ at tell
    rw [tell, ← map_strict_of_free free, ← hw, List.map_map]
    rfl
  · exact lexemes_of_words

/-- Reading a program complains about the fault of its derivation first. -/
theorem Parse.program_blamed [Nesting] {tokens : List Token} {d : Derivation .logical}
    {f : LiteralFault} (hw : d.words = wordsOf tokens) (hf : d.fault? = some f)
    (h : Shallow (program tokens).2) :
    Blames (program tokens).2 f := by
  have hs : (Stream.start tokens).words = d.words ++ [] := by
    rw [List.append_nil, hw, words_start]
  have more : (Stream.start tokens).kind ≠ .endOfInput := by
    intro hend
    obtain ⟨w, ws, hws, -⟩ := d.exists_first
    rw [Stream.words_of_end hend, hws] at hs
    cases hs
  obtain ⟨shallow, hp⟩ := program_of_shallow more h
  have blamed := d.blamed f hf Nesting.limit Precedence.lowest (.start tokens) [] hs
    (Nat.le_refl Precedence.lowest) shallow
  rw [hp]
  dsimp only
  split
  · exact blamed
  · exact blamed.append _

namespace Reading

section

variable [Nesting] {r : Registry} {source : String} {d : Derivation .logical} {f : LiteralFault}

theorem messages_descent_of_fault (hw : d.words = sourceWords source.toList)
    (hf : d.fault? = some f) (h : (ofSource .descent r source).Shallow) :
    ∃ more, (ofSource .descent r source).messages = f.message :: more := by
  rw [← wordsOf_tokenize] at hw
  obtain ⟨c, cs, hc, hm⟩ := Parse.program_blamed hw hf (shallow_program h)
  cases hp : Parse.program (tokenize source) with
  | mk body complaints =>
    rw [hp] at hc
    cases hc
    rw [ofSource, ofTokens, hp]
    exact ⟨_, congrArg (· :: _) hm⟩

theorem messages_grammar_of_fault (p : Parser) (hw : d.words = sourceWords source.toList)
    (hf : d.fault? = some f) (h : (ofGrammar p.draft r source).Shallow) :
    (ofGrammar p.draft r source).messages = [f.message] := by
  obtain ⟨D, hdraft, hd, free⟩ := draft_of_words p hw
  have fails : Fails (Grammar.tree p.draft source) f := by
    rw [Grammar.tree, hdraft]
    exact d.fails hd hf free
  rw [ofGrammar] at h ⊢
  rcases fails with ⟨refusal, ht, hm⟩ | ht
  · rw [ht]
    exact congrArg (fun text => [text]) hm
  · rw [ht] at h
    exact absurd (List.mem_singleton_self _) h

/-- On a text that the grammar derives both front ends find the same problem first, whatever parser
of the grammar the second one goes by. It is the first literal, from left to right, that stands for
no value, or else a fault of the types. -/
theorem first_message_agrees (p : Parser) (r : Registry) (source : String)
    (d : Derivation .logical) (h : d.Writes source) (hd : (ofSource .descent r source).Shallow)
    (hg : (ofGrammar p.draft r source).Shallow) :
    (ofGrammar p.draft r source).messages.length ≤ 1 ∧
    (ofGrammar p.draft r source).messages = (ofSource .descent r source).messages.take 1 ∧
    (∀ f, d.fault? = some f → (ofGrammar p.draft r source).messages = [f.message]) ∧
    (d.fault? = none → ∃ e kind, d.tree? = some e ∧
      check r (.ofBody (some e)) = .ok (kind, (ofGrammar p.draft r source).messages)) := by
  have hw := Derivation.writes_iff.1 h
  cases hf : d.fault? with
  | some f =>
    obtain ⟨more, hm⟩ := messages_descent_of_fault hw hf hd
    rw [messages_grammar_of_fault p hw hf hg, hm]
    refine ⟨Nat.le_refl 1, rfl, ?_, ?_⟩
    · rintro f' ⟨⟩
      rfl
    · intro none
      cases none
  | none =>
    obtain ⟨e, he⟩ := Derivation.exists_tree hf
    have derives : Derives .logical e (sourceWords source.toList) := ⟨d, hw, he⟩
    have hd' := ofSource_of_derives hd derives
    have hg' := ofGrammar_of_derives p hg derives
    rw [hg'] at hg
    obtain ⟨-, kind, hm⟩ := checked_of_derives derives hg
    have one : (checked r (some e)).messages.length ≤ 1 := length_check_le hm
    rw [hd', hg', List.take_of_length_le one]
    refine ⟨one, rfl, ?_, fun _ => ⟨e, kind, he, hm⟩⟩
    intro f some
    cases some

end

open Nesting

theorem first_message_agrees_sum :
    (ofSource .descent .standard "[]+9223372036854775808").messages =
      ["empty array is not allowed",
        "integer literal 9223372036854775808 out of 64-bit range"] ∧
    (ofSource .grammar .standard "[]+9223372036854775808").messages =
      ["empty array is not allowed"] := by
  have read : Parse.program (tokenize "[]+9223372036854775808") =
      (none, [⟨1, .emptyArray⟩, ⟨3, .numeral (.outOfRange "9223372036854775808")⟩]) := by cbv
  have spelled : wordsOf (tokenize "[]+9223372036854775808") =
      [.leftBracket, .rightBracket, .sign .add, .numeral "9223372036854775808"] := by cbv
  have descent : (ofSource .descent .standard "[]+9223372036854775808").messages =
      ["empty array is not allowed",
        "integer literal 9223372036854775808 out of 64-bit range"] := by
    rw [ofSource, ofTokens, read]
    rfl
  have shallow : (ofSource .descent .standard "[]+9223372036854775808").Shallow := by
    rw [Shallow, descent]
    decide
  have shallow' :
      (ofGrammar Machine.parser.draft .standard "[]+9223372036854775808").Shallow := by
    rw [Shallow]
    decide +kernel
  obtain ⟨d, hw, hf⟩ : ∃ d : Derivation .logical,
      d.words = [.leftBracket, .rightBracket, .sign .add, .numeral "9223372036854775808"] ∧
        d.fault? = some .emptyArray :=
    ⟨.tighter (by decide) (.tighter (by decide) (.tighter (by decide)
      (.binary
        (.tighter (by decide) (.tighter (by decide) (.tighter (by decide) (.tighter (by decide)
          (.array [])))))
        .add (by decide)
        (.tighter (by decide) (.tighter (by decide) (.tighter (by decide)
          (.numeral "9223372036854775808"))))))), rfl, rfl⟩
  rw [← spelled, wordsOf_tokenize] at hw
  obtain ⟨-, -, blamed, -⟩ := first_message_agrees Machine.parser .standard
    "[]+9223372036854775808" d (Derivation.writes_iff.2 hw) shallow shallow'
  exact ⟨descent, blamed _ hf⟩

end Reading

end Criterion
