import Mathlib
import Criterion.Proofs.Grammar.Parser
import Criterion.Proofs.Parse.Acceptance
import Criterion.Proofs.Scan.Lexemes
import Criterion.Proofs.Typing.Messages
import Criterion.Reading

namespace Criterion

open Grammar

theorem Grammar.Word.strict_eq (w : Word) : w.strict = .stray ∨ w.strict = w ∧ Free [w] := by
  cases w with
  | name text =>
    by_cases h : reservedWords.contains text
    · exact .inl (if_pos h)
    · refine .inr ⟨if_neg h, fun other ho => ?_⟩
      cases List.mem_singleton.1 ho
      simpa using h
  | _ => exact .inr ⟨rfl, (free_cons rfl).2 free_nil⟩

theorem map_strict {ws : List Word} (h : .stray ∉ ws.map Word.strict) :
    ws.map Word.strict = ws ∧ Free ws := by
  induction ws with
  | nil => exact ⟨rfl, free_nil⟩
  | cons w ws ih =>
    rw [List.map_cons, List.mem_cons, not_or] at h
    obtain ⟨hws, hf⟩ := ih h.2
    rcases w.strict_eq with hw | ⟨hw, hfw⟩
    · exact absurd hw.symm h.1
    · exact ⟨by rw [List.map_cons, hw, hws], free_append.2 ⟨hfw, hf⟩⟩

theorem map_strict_of_free {ws : List Word} (h : Free ws) : ws.map Word.strict = ws := by
  rw [List.map_congr_left (g := id), List.map_id]
  intro w hw
  cases w with
  | name text =>
    have hr := h text hw
    exact if_neg (by simpa using hr)
  | _ => rfl

theorem bare_of_blank {c : Char} (h : Text.isBlank c) : Bare c := by
  have hq : c ≠ Text.quotationMark := by
    rintro rfl
    exact absurd h (by decide)
  have code : c.toNat < 48 ∨ 122 < c.toNat := by
    simp only [Text.isBlank, Text.CharRanges.has, Text.blankRanges, List.any_cons, List.any_nil,
      Bool.or_eq_true, Bool.and_eq_true, decide_eq_true_eq, Bool.false_eq_true, or_false] at h
    omega
  refine ⟨hq, ?_, ?_⟩
  · rw [Bool.eq_false_iff, Ne, isDigit_iff]
    omega
  · rw [Bool.eq_false_iff, Ne, isLetter_iff]
    omega

theorem sourceWords_of_blank : ∀ {cs : List Char}, cs.all Text.isBlank →
    sourceWords cs = [] ∨ ∃ ws, sourceWords cs = .stray :: ws
  | [], _ => .inl sourceWords_nil
  | c :: cs, h => by
    obtain ⟨hc, hcs⟩ : Text.isBlank c ∧ cs.all Text.isBlank := by simpa using h
    cases hs : isSpacing c with
    | true =>
      rw [sourceWords_spacing hs]
      exact sourceWords_of_blank hcs
    | false =>
      have ho : c ∉ '~' :: ';' :: openings := notMem_of_all (by decide) hc
      rw [sourceWords_cons hs, wordAt_of_no_symbol (bare_of_blank hc) (symbolAt?_none ho)]
      exact .inr ⟨_, rfl⟩

/-- A text whose words the grammar derives is cut into lexemes of these words, none of them a
reserved one. -/
theorem lexemes_of_words {source : String} {d : Derivation .logical}
    (hw : d.words = sourceWords source.toList) :
    ∃ ls, lexemes .start source.toList = (ls, none) ∧ ls.map Lexeme.word = d.words ∧
      Free d.words := by
  obtain ⟨-, htell⟩ := lexemes_tell .start source.toList
  cases hf : lexemes .start source.toList with
  | mk ls stray =>
    rw [hf] at htell
    cases stray with
    | some s =>
      -- A character that no lexeme starts with is a stray word, which no derivation has.
      obtain ⟨more, hm⟩ := htell
      refine absurd ?_ d.stray_notMem
      rw [hw, hm]
      exact List.mem_append_right _ (List.mem_cons_self ..)
    | none =>
      have hs : sourceWords source.toList = (ls.map Lexeme.word).map Word.strict := by
        rw [List.map_map]
        exact htell
      obtain ⟨heq, free⟩ := map_strict (hs ▸ hw ▸ d.stray_notMem)
      have hls : ls.map Lexeme.word = d.words := by rw [hw, hs, heq]
      exact ⟨ls, rfl, hls, hls ▸ free⟩

section

variable (p : Parser) {source : String}

theorem draft_of_words {d : Derivation .logical} (hw : d.words = sourceWords source.toList) :
    ∃ D, draft p.draft source = .ok D ∧ d.Drafts D ∧ Free d.words := by
  have blank : Text.isAllBlank source = false := by
    rw [Bool.eq_false_iff]
    intro hb
    obtain ⟨w, ws, hws, ho⟩ := d.exists_first
    rcases sourceWords_of_blank hb with hs | ⟨_, hs⟩
    · rw [hs, hws] at hw
      exact nomatch hw
    · rw [hs, hws] at hw
      cases hw
      exact nomatch ho
  obtain ⟨ls, hf, hls, free⟩ := lexemes_of_words hw
  obtain ⟨D, hdraft, hd⟩ := p.complete d hls
  exact ⟨D, by simp [draft, blank, hf, hdraft], hd, free⟩

theorem exists_of_draft {D : Draft} (h : draft p.draft source = .ok D) :
    ∃ ls, lexemes .start source.toList = (ls, none) ∧
      ∃ d : Derivation .logical, d.words = ls.map Lexeme.word ∧ d.Drafts D := by
  have proper := (lexemes_tell .start source.toList).1
  cases hf : lexemes .start source.toList with
  | mk ls stray =>
    rw [hf] at proper
    rw [draft, hf] at h
    split at h
    · exact nomatch h
    · simp only at h
      split at h
      · exact nomatch h
      · exact nomatch h
      · exact nomatch h
      · next hdraft =>
        cases h
        exact ⟨ls, rfl, p.sound proper hdraft⟩

/-- Two parsers make the same of a text, or refuse it in the same words. -/
theorem draft_agree (q : Parser) (source : String) :
    (∃ (d : Derivation .logical) (D D' : Draft), draft p.draft source = .ok D ∧
        draft q.draft source = .ok D' ∧ d.Drafts D ∧ d.Drafts D') ∨
      ∃ refusal, draft p.draft source = .error refusal ∧
        draft q.draft source = .error refusal := by
  have proper := (lexemes_tell .start source.toList).1
  by_cases blank : Text.isAllBlank source
  · exact .inr ⟨.empty, by rw [draft, if_pos blank], by rw [draft, if_pos blank]⟩
  · cases hf : lexemes .start source.toList with
    | mk ls stray =>
      rw [hf] at proper
      rw [draft, draft, if_neg blank, if_neg blank, hf]
      rcases p.agree q proper with ⟨d, D, D', hp, hq, hd, hd'⟩ | ⟨blamed, hp, hq⟩
      · simp only [hp, hq]
        cases stray with
        | none => exact .inl ⟨d, D, D', rfl, rfl, hd, hd'⟩
        | some s => exact .inr ⟨_, rfl, rfl⟩
      · simp only [hp, hq]
        cases blamed with
        | some l => exact .inr ⟨_, rfl, rfl⟩
        | none =>
          cases stray with
          | none => exact .inr ⟨_, rfl, rfl⟩
          | some s => exact .inr ⟨_, rfl, rfl⟩

variable [Nesting] {e : Expr}

theorem tree_of_derives (h : Derives .logical e (sourceWords source.toList)) :
    Becomes (Grammar.tree p.draft source) e := by
  obtain ⟨d, hw, he⟩ := h
  obtain ⟨D, hdraft, hd, free⟩ := draft_of_words p hw
  rw [Grammar.tree, hdraft]
  exact d.becomes_tree hd he free

theorem derives_of_tree (h : Grammar.tree p.draft source = .ok e) :
    Derives .logical e (sourceWords source.toList) := by
  obtain ⟨D, hdraft, hres⟩ := bind_eq_ok.1 h
  obtain ⟨ls, hf, d, hw, hd⟩ := exists_of_draft p hdraft
  obtain ⟨he, free⟩ := d.tree?_of_resolve hd hres
  refine ⟨d, ?_, he⟩
  have tell := (lexemes_tell .start source.toList).2
  rw [hf] at tell
  have hs : sourceWords source.toList = (ls.map Lexeme.word).map Word.strict := by
    rw [List.map_map]
    exact tell
  rw [hs, ← hw, map_strict_of_free free]

theorem tree_alike (q : Parser) (source : String) :
    Alike (Grammar.tree p.draft source) (Grammar.tree q.draft source) := by
  rw [Grammar.tree, Grammar.tree]
  rcases draft_agree p q source with ⟨d, D, D', hp, hq, hd, hd'⟩ | ⟨refusal, hp, hq⟩
  · rw [hp, hq]
    exact d.resolve_alike hd hd'
  · rw [hp, hq]
    rfl

end

namespace Reading

/-- Nothing that is wrong with a text is that it is nested too deeply. -/
def Shallow (reading : Reading) : Prop := "expression nested too deeply" ∉ reading.messages

theorem shallow_of_clean {reading : Reading} (h : reading.messages = []) : reading.Shallow := by
  rw [Shallow, h]
  exact List.not_mem_nil

theorem messages_eq_nil {reading : Reading} : reading.messages = [] ↔ reading.diagnostics = [] :=
  List.map_eq_nil_iff

theorem legible_ofBody {body : Option Expr} (h : ∀ e, body = some e → e.Legible) :
    (Expr.ofBody body).Legible := by
  cases body with
  | none => rfl
  | some e =>
    by_cases none : e = .absent
    · subst none
      rfl
    · exact (Expr.legible_program none).2 (h e rfl)

section

variable [Nesting] {front : FrontEnd} {r : Registry} {source : String} {e : Expr}

theorem shallow_program {tokens : List Token} (h : (ofTokens r tokens).Shallow) :
    Parse.Shallow (Parse.program tokens).2 := by
  intro c hc hp
  refine h ?_
  rw [ofTokens]
  split
  · next heq =>
    rw [heq] at hc
    exact nomatch hc
  · next heq =>
    rw [heq] at hc
    exact List.mem_map.2 ⟨_, List.mem_map.2 ⟨c, hc, rfl⟩, congrArg Parse.Problem.message hp⟩

/-- Any two parsers of the grammar read a text as the same tree, and say the same about it. -/
theorem ofGrammar_alike (p q : Parser) (r : Registry) (source : String) :
    (ofGrammar p.draft r source).body = (ofGrammar q.draft r source).body ∧
      (ofGrammar p.draft r source).messages = (ofGrammar q.draft r source).messages := by
  have alike := tree_alike p q source
  rw [Alike] at alike
  rw [ofGrammar, ofGrammar]
  cases hp : Grammar.tree p.draft source with
  | ok e =>
    cases hq : Grammar.tree q.draft source with
    | ok e' =>
      rw [hp, hq] at alike
      cases alike
      exact ⟨rfl, rfl⟩
    | error refusal =>
      rw [hp, hq] at alike
      cases alike
  | error refusal =>
    cases hq : Grammar.tree q.draft source with
    | ok e =>
      rw [hp, hq] at alike
      cases alike
    | error refusal' =>
      rw [hp, hq] at alike
      exact ⟨rfl, congrArg (fun text => [text]) (Except.error.inj alike)⟩

theorem ofGrammar_of_derives (p : Parser) (h : (ofGrammar p.draft r source).Shallow)
    (hd : Derives .logical e (sourceWords source.toList)) :
    ofGrammar p.draft r source = checked r (some e) := by
  rw [ofGrammar] at h ⊢
  rcases tree_of_derives p hd with ht | ht
  · rw [ht]
  · rw [ht] at h
    exact absurd (List.mem_singleton_self _) h

theorem ofSource_of_derives (h : (ofSource front r source).Shallow)
    (hd : Derives .logical e (sourceWords source.toList)) :
    ofSource front r source = checked r (some e) := by
  cases front with
  | descent =>
    rw [← wordsOf_tokenize] at hd
    rw [ofSource, ofTokens, Parse.program_complete (shallow_program h) hd]
  | grammar => exact ofGrammar_of_derives Machine.parser h hd

theorem exists_checked_ofGrammar (p : Parser)
    (typing : ∀ d ∈ (ofGrammar p.draft r source).diagnostics, ∃ fault, d = .typing fault) :
    ∃ e, Derives .logical e (sourceWords source.toList) ∧
      ofGrammar p.draft r source = checked r (some e) := by
  rw [ofGrammar] at typing ⊢
  cases ht : Grammar.tree p.draft source with
  | ok e => exact ⟨e, derives_of_tree p ht, rfl⟩
  | error refusal =>
    rw [ht] at typing
    obtain ⟨fault, problem⟩ := typing _ (List.mem_cons_self ..)
    cases problem

/-- Where nothing is wrong with a text but types, the grammar derives its words and the text was
read as the tree of their derivation. -/
theorem exists_checked
    (typing : ∀ d ∈ (ofSource front r source).diagnostics, ∃ fault, d = .typing fault) :
    ∃ e, Derives .logical e (sourceWords source.toList) ∧
      ofSource front r source = checked r (some e) := by
  cases front with
  | descent =>
    rw [ofSource, ofTokens] at typing ⊢
    cases hp : Parse.program (tokenize source) with
    | mk body complaints =>
      rw [hp] at typing
      cases complaints with
      | nil =>
        obtain ⟨e, he, hd⟩ := Parse.program_sound (congrArg Prod.snd hp)
        rw [hp] at he
        cases he
        exact ⟨e, wordsOf_tokenize source ▸ hd, rfl⟩
      | cons c complaints =>
        obtain ⟨fault, problem⟩ := typing _ (List.mem_cons_self ..)
        cases problem
  | grammar => exact exists_checked_ofGrammar Machine.parser typing

/-- A body that can be written out and is not nested too deeply is kept, with what checking it has
to say. -/
theorem checked_of_shallow {body : Option Expr} (legible : ∀ e, body = some e → e.Legible)
    (h : (checked r body).Shallow) :
    (checked r body).body = body ∧
      ∃ kind, check r (Expr.ofBody body) = .ok (kind, (checked r body).messages) := by
  rw [checked] at h ⊢
  rw [check_eq_conclude]
  cases hk : kindOf r Nesting.limit (Expr.ofBody body) with
  | ok kind => exact ⟨rfl, kind, rfl⟩
  | error fault =>
    by_cases ends : fault.interrupts
    · obtain ⟨rfl, -⟩ := nested_of_kindOf (legible_ofBody legible) hk ends
      rw [hk] at h
      exact absurd (List.mem_singleton_self _) h
    · have reported : conclude [] (.error fault) = .ok (.error, [fault.message]) := if_neg ends
      cases fault with
      | nestedTooDeeply => exact absurd rfl ends
      | _ => exact ⟨rfl, .error, reported⟩

theorem checked_of_derives {ws : List Word} (hd : Derives .logical e ws)
    (h : (checked r (some e)).Shallow) :
    (checked r (some e)).body = some e ∧
      ∃ kind, check r (.program e) = .ok (kind, (checked r (some e)).messages) := by
  obtain ⟨d, -, he⟩ := hd
  refine checked_of_shallow ?_ h
  rintro _ ⟨⟩
  exact d.legible he

/-- A text was read as a tree, with nothing wrong but for types. -/
def Parses (reading : Reading) (e : Expr) : Prop :=
  reading.body = some e ∧ ∀ d ∈ reading.diagnostics, ∃ fault, d = .typing fault

theorem body_checked {body : Option Expr} (h : (checked r body).body = some e) : body = some e := by
  rw [checked] at h
  split at h
  · exact h
  · cases h
  · exact h

theorem typing_checked (body : Option Expr) :
    ∀ d ∈ (checked r body).diagnostics, ∃ fault, d = .typing fault := by
  rw [checked]
  split
  · simp
  · simp
  · simp

/-- The grammar derives a tree that a text was read as from the words of the text. -/
theorem Parses.derives (h : (ofSource front r source).Parses e) :
    Derives .logical e (sourceWords source.toList) := by
  obtain ⟨body, typing⟩ := h
  obtain ⟨e', hd, read⟩ := exists_checked typing
  rw [read] at body
  cases body_checked body
  exact hd

theorem parses_of_derives (h : (ofSource front r source).Shallow)
    (hd : Derives .logical e (sourceWords source.toList)) :
    (ofSource front r source).Parses e ∧
      ∃ kind, check r (.program e) = .ok (kind, (ofSource front r source).messages) := by
  have read := ofSource_of_derives h hd
  rw [read] at h ⊢
  obtain ⟨body, messages⟩ := checked_of_derives hd h
  exact ⟨⟨body, typing_checked _⟩, messages⟩

/-- Within the limit of nesting either both front ends find a fault with a text or neither does, and
then they read the same program, whatever parser of the grammar the second one goes by. -/
theorem front_ends_agree (p : Parser) (r : Registry) (source : String)
    (hd : (ofSource .descent r source).Shallow) (hg : (ofGrammar p.draft r source).Shallow) :
    ((ofSource .descent r source).messages = [] ↔ (ofGrammar p.draft r source).messages = []) ∧
      ((ofSource .descent r source).messages = [] →
        (ofSource .descent r source).program = (ofGrammar p.draft r source).program) := by
  have same (h : ∃ e, Derives .logical e (sourceWords source.toList)) :
      ofSource .descent r source = ofGrammar p.draft r source := by
    obtain ⟨e, he⟩ := h
    rw [ofSource_of_derives hd he, ofGrammar_of_derives p hg he]
  have derives (h : (ofSource .descent r source).messages = []) :
      ∃ e, Derives .logical e (sourceWords source.toList) := by
    have none := messages_eq_nil.1 h
    obtain ⟨e, he, -⟩ := exists_checked fun d hd => absurd (none ▸ hd) List.not_mem_nil
    exact ⟨e, he⟩
  refine ⟨⟨fun h => ?_, fun h => ?_⟩, fun h => ?_⟩
  · rw [← same (derives h)]
    exact h
  · have none := messages_eq_nil.1 h
    obtain ⟨e, he, -⟩ := exists_checked_ofGrammar p fun d hd => absurd (none ▸ hd) List.not_mem_nil
    rw [same ⟨e, he⟩]
    exact h
  · rw [same (derives h)]

end

open Nesting

theorem front_ends_agree_negation :
    (ofSource .descent .standard "!a").messages = [] ∧
      (ofSource .descent .standard "!a").program = (ofSource .grammar .standard "!a").program := by
  have hd : (ofSource .descent .standard "!a").messages = [] := by cbv
  have hg : (ofGrammar Machine.parser.draft .standard "!a").messages = [] := by decide +kernel
  have agree := front_ends_agree Machine.parser .standard "!a" (shallow_of_clean hd)
    (shallow_of_clean hg)
  exact ⟨hd, agree.2 hd⟩

end Reading

end Criterion
