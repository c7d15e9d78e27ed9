import Mathlib
import Criterion.Proofs.Rendering.Values

/-!
The trees that are handed out: all of them could be written, also where something is wrong with the
text. Scanning leaves only proper words, and what either front end makes of proper words is
well-formed, whatever was given up on the way.
-/

namespace Criterion

open Grammar

/-- A word as scanning leaves it: names have no other meaning, numerals start with a digit, and no
quotation holds a mark. -/
def Grammar.Word.Proper : Word → Prop
  | .name text => IsName text
  | .numeral text => StartsWithDigit text
  | .quotation content => Quotable content
  | _ => True

theorem Token.Proper.word {t : Token} (h : t.Proper) : t.word.Proper := by
  cases hw : t.word with
  | name text =>
    obtain ⟨identifier, rfl⟩ := word_eq_name.1 hw
    exact h.identifier identifier
  | numeral text =>
    obtain ⟨integer, rfl⟩ := word_eq_numeral.1 hw
    exact h.integer integer
  | quotation content =>
    obtain ⟨string, rfl⟩ := word_eq_quotation.1 hw
    exact h.string string
  | _ => trivial

theorem Token.proper_of_end {t : Token} (h : t.kind = .endOfInput) : t.Proper := by
  refine ⟨?_, ?_, ?_⟩
  · intro string
    cases h.symm.trans string
  · intro identifier
    cases h.symm.trans identifier
  · intro integer
    cases h.symm.trans integer

theorem proper_tokenize (source : String) : ∀ t ∈ tokenize source, t.Proper := by
  obtain ⟨last, tokens, kind⟩ := exists_last_token source
  intro t ht
  rw [tokens] at ht
  rcases List.mem_append.1 ht with ht | ht
  · obtain ⟨p, hp, rfl⟩ := List.mem_map.1 ht
    exact proper_of_mem_pieces hp
  · cases List.mem_singleton.1 ht
    exact Token.proper_of_end kind

theorem proper_sourceWords (source : String) : ∀ w ∈ sourceWords source.toList, w.Proper := by
  rw [sourceWords_pieces]
  intro w hw
  obtain ⟨p, hp, rfl⟩ := List.mem_map.1 hw
  exact (proper_of_mem_pieces hp).word

namespace Expr

theorem allWellFormed_iff {es : List Expr} : AllWellFormed es ↔ ∀ e ∈ es, e.WellFormed := by
  induction es with
  | nil => simp [AllWellFormed]
  | cons e es ih => rw [AllWellFormed, ih, List.forall_mem_cons]

end Expr

namespace Parse

variable {α β : Type} {s t : Stream} {room floor : Nat}

def Stream.Proper (s : Stream) : Prop := ∀ t ∈ s.rest, t.Proper

namespace Stream.Proper

theorem current (h : s.Proper) : s.current.Proper := by
  rcases s with ⟨position, _ | ⟨t, ts⟩⟩
  · exact Token.proper_of_end rfl
  · exact h t (List.mem_cons_self ..)

theorem next (h : s.Proper) : s.next.Proper := fun t ht => h t (List.mem_of_mem_tail ht)

theorem skipPast (kind : TokenKind) (h : s.Proper) : (skipPast kind s).Proper := by
  induction s using skipPast.induct kind with
  | case1 s hend =>
    rw [Parse.skipPast, if_pos hend]
    exact h
  | case2 s hend hk =>
    rw [Parse.skipPast, if_neg hend, if_pos hk]
    exact h.next
  | case3 s hend hk ih =>
    rw [Parse.skipPast, if_neg hend, if_neg hk]
    exact ih h.next

end Stream.Proper

/-- Whatever a reading comes to is good, and it leaves proper tokens. -/
structure Forms (good : α → Prop) (o : Outcome α s) : Prop where
  result : ∀ a, o.result = some a → good a
  after : o.after.Proper

namespace Forms

variable {good : α → Prop} {fine : β → Prop}

theorem none {cs : List Complaint} {le : t.left ≤ s.left} (h : t.Proper) :
    Forms good (⟨.none, cs, t, le⟩ : Outcome α s) := by
  refine ⟨?_, h⟩
  intro a ha
  cases ha

theorem some {a : α} {cs : List Complaint} {le : t.left ≤ s.left} (ha : good a) (h : t.Proper) :
    Forms good (⟨.some a, cs, t, le⟩ : Outcome α s) := by
  refine ⟨?_, h⟩
  intro b hb
  cases hb
  exact ha

theorem accept {a : α} {le : t.left ≤ s.left} (ha : good a) (h : t.Proper) :
    Forms good (.accept a t le : Outcome α s) := some ha h

theorem refuseToken {p : Problem} (h : s.Proper) : Forms good (.refuseToken p : Outcome α s) :=
  none h.next

theorem following {o : Outcome α t} {cs : List Complaint} {le : t.left ≤ s.left}
    (h : Forms good o) : Forms good (o.following cs le) := ⟨h.result, h.after⟩

theorem map {o : Outcome α t} {cs : List Complaint} {le : o.after.left ≤ s.left} {f : α → β}
    (h : Forms good o) (keeps : ∀ a, good a → fine (f a)) :
    Forms fine (⟨o.result.map f, cs, o.after, le⟩ : Outcome β s) := by
  refine ⟨?_, h.after⟩
  intro b hb
  obtain ⟨a, ha, rfl⟩ := Option.map_eq_some_iff.1 hb
  exact keeps a (h.result a ha)

theorem cons {o : Outcome Expr t} {more : Outcome (List Expr) o.after} {cs : List Complaint}
    {le : more.after.left ≤ s.left} (h : Forms Expr.WellFormed o)
    (hm : Forms Expr.AllWellFormed more) :
    Forms Expr.AllWellFormed
      (⟨o.result.bind fun e => more.result.map (e :: ·), cs, more.after, le⟩ :
        Outcome (List Expr) s) := by
  refine ⟨?_, hm.after⟩
  intro all hall
  obtain ⟨e, he, hall⟩ := Option.bind_eq_some_iff.1 hall
  obtain ⟨es, hes, rfl⟩ := Option.map_eq_some_iff.1 hall
  exact ⟨h.result e he, hm.result es hes⟩

end Forms

theorem forms_expect (kind : TokenKind) (h : s.Proper) :
    Forms (fun _ => True) (expect kind s) := by
  by_cases hk : s.kind = kind
  · rw [expect_of_kind hk]
    exact .accept trivial h.next
  · rw [expect_of_other hk]
    exact .none h

theorem forms_integer (hk : s.kind = .integer) (h : s.Proper) :
    Forms Expr.WellFormed (integer s) := by
  rw [integer]
  cases read : Numeral.read s.current.text with
  | ok n => exact .accept (Numeral.writable_of_read (h.current.integer hk) read) h.next
  | error fault => exact .refuseToken h

theorem forms_elements (h : s.Proper) :
    Forms (fun ts => ts ≠ [] ∧ ∀ t ∈ ts, t.Proper) (elements s) := by
  induction s using elements.induct with
  | case1 s hk t hc _ ih =>
    rw [elements, dif_pos hk, if_pos hc]
    refine (ih h.next.next).map ?_
    rintro ts ⟨-, all⟩
    exact ⟨List.cons_ne_nil _ _, List.forall_mem_cons.2 ⟨h.current, all⟩⟩
  | case2 s hk t hc hb =>
    rw [elements, dif_pos hk, if_neg hc, if_pos hb]
    exact .accept ⟨List.cons_ne_nil _ _, by simpa using h.current⟩ h.next.next
  | case3 s hk t hc hb =>
    rw [elements, dif_pos hk, if_neg hc, if_neg hb]
    exact .none (h.next.skipPast _)
  | case4 s hk =>
    rw [elements, dif_neg hk]
    exact .none (h.skipPast _)

theorem wellFormed_of_arrayOf {ts : List Token} {e : Expr} (some : ts ≠ [])
    (proper : ∀ t ∈ ts, t.Proper) (h : arrayOf ts = .ok e) : e.WellFormed := by
  have texts : ts.map (·.text) ≠ [] := mt List.map_eq_nil_iff.1 some
  rcases eq_of_arrayOf h with ⟨strings, rfl⟩ | ⟨values, integers, read, rfl⟩
  · refine ⟨texts, ?_⟩
    intro text htext
    obtain ⟨t, ht, rfl⟩ := List.mem_map.1 htext
    exact (proper t ht).string (strings t ht)
  · refine ⟨Numeral.ne_nil_of_reads texts read, Numeral.writable_of_reads ?_ read⟩
    intro text htext
    obtain ⟨t, ht, rfl⟩ := List.mem_map.1 htext
    exact (proper t ht).integer (integers t ht)

theorem forms_array (h : s.Proper) : Forms Expr.WellFormed (array s) := by
  have listed := forms_elements h
  rw [array]
  split
  · exact .refuseToken h
  · dsimp only
    split
    · exact .none listed.after
    · next ts hts =>
      obtain ⟨more, proper⟩ := listed.result ts hts
      split
      · next e he => exact .some (wellFormed_of_arrayOf more proper he) listed.after
      · exact .none listed.after

/-- Whatever the readers read from proper tokens is well-formed, whether or not they complain. -/
theorem readers_form :
    (∀ room floor s, s.Proper → Forms Expr.WellFormed (expression room floor s)) ∧
    (∀ room floor (left : Option Expr) s, (∀ e, left = some e → e.WellFormed) → s.Proper →
      Forms Expr.WellFormed (operators room floor left s)) ∧
    (∀ room s, s.Proper → Forms Expr.AllWellFormed (arguments room s)) ∧
    (∀ room s, s.Proper → Forms Expr.AllWellFormed (moreArguments room s)) ∧
    ∀ room s, s.Proper → Forms Expr.WellFormed (operand room s) := by
  apply expression.mutual_induct
    (fun room floor s => s.Proper → Forms Expr.WellFormed (expression room floor s))
    (fun room floor left s => (∀ e, left = some e → e.WellFormed) → s.Proper →
      Forms Expr.WellFormed (operators room floor left s))
    (fun room s => s.Proper → Forms Expr.AllWellFormed (arguments room s))
    (fun room s => s.Proper → Forms Expr.AllWellFormed (moreArguments room s))
    (fun room s => s.Proper → Forms Expr.WellFormed (operand room s))
  case case1 => -- no room
    intro floor s h
    rw [expression]
    exact .refuseToken h
  case case2 => -- an operand, then operators
    intro floor s room start o ho hs h
    rw [expression_of_start start]
    exact (hs (ho h).result (ho h).after).following
  case case3 => -- no operand
    intro floor s room start h
    rw [expression_of_no_start start]
    exact .refuseToken h
  case case4 => -- an operator without a left operand
    intro room floor s more o ho hs left h
    rw [operators_missing more]
    exact (hs left (ho h.next).after).following -- what was read here is dropped
  case case5 => -- an operator
    intro room floor s more l op hop o ho hs left h
    rw [operators_binary more hop]
    refine (hs ?_ (ho h.next).after).following
    intro e he
    obtain ⟨r, hr, rfl⟩ := Option.map_eq_some_iff.1 he
    exact ⟨⟨op, rfl⟩, left l rfl, (ho h.next).result r hr⟩
  case case6 => -- a call
    intro room floor s more l hop o ho hs left h
    rw [operators_call more hop]
    refine (hs ?_ (ho h.next).after).following
    intro e he
    obtain ⟨es, hes, rfl⟩ := Option.map_eq_some_iff.1 he
    exact ⟨left l rfl, (ho h.next).result es hes⟩
  case case7 => -- no further operator
    intro room floor left s stop hl h
    rw [operators_stop stop]
    exact ⟨hl, h⟩
  case case8 => -- no arguments
    intro room s hk h
    rw [arguments_of_end hk]
    exact .accept trivial h.next
  case case9 => -- a first argument
    intro room s hk o ho _ hm h
    rw [arguments_of_more hk]
    exact (ho h).cons (hm (ho h).after)
  case case10 => -- a further argument
    intro room s hk o ho _ hm h
    rw [moreArguments_of_comma hk]
    exact (ho h.next).cons (hm (ho h.next).after)
  case case11 => -- no further argument
    intro room s hk h
    rw [moreArguments_of_end hk]
    exact (forms_expect .rightParen h).map fun _ _ => trivial
  case case12 => -- a name
    intro room s hk h
    rw [operand_identifier hk]
    exact .accept (h.current.identifier hk) h.next
  case case13 => -- a numeral
    intro room s hk h
    rw [operand_integer hk]
    exact forms_integer hk h
  case case14 => -- a quotation
    intro room s hk h
    rw [operand_string hk]
    exact .accept (h.current.string hk) h.next
  case case15 => -- true
    intro room s hk h
    rw [operand_trueWord hk]
    exact .accept trivial h.next
  case case16 => -- false
    intro room s hk h
    rw [operand_falseWord hk]
    exact .accept trivial h.next
  case case17 => -- an array
    intro room s hk h
    rw [operand_leftBracket hk]
    exact (forms_array h.next).following
  case case18 => -- a negation
    intro room s hk ho h
    rw [operand_bang hk]
    exact (ho h.next).map fun e he => ⟨⟨.not, rfl⟩, he⟩
  case case19 => -- a group
    intro room s hk ho h
    rw [operand_leftParen hk]
    refine ⟨?_, (forms_expect .rightParen (ho h.next).after).after⟩
    intro e he
    obtain ⟨-, -, he⟩ := Option.bind_eq_some_iff.1 he
    exact (ho h.next).result e he
  case case20 => -- nothing that an operand starts with
    intro room s h₁ h₂ h₃ h₄ h₅ h₆ h₇ h₈ h
    have none := not_startsOperand h₁ h₂ h₃ h₄ h₅ h₆ h₇ h₈
    rw [operand_of_no_start none]
    exact .refuseToken h

theorem program_wellFormed [Nesting] {tokens : List Token} {e : Expr}
    (proper : ∀ t ∈ tokens, t.Proper) (h : (program tokens).1 = some e) : e.WellFormed := by
  have read := (readers_form.1 Nesting.limit Precedence.lowest (.start tokens) proper).result e
  rw [program] at h
  dsimp only at h
  split at h
  · cases h
  · split at h
    · cases h
    · split at h
      · exact read h
      · exact read h

end Parse

namespace Grammar

theorem wellFormed_of_arrayTree? {elements : List Element} {e : Expr}
    (proper : ∀ element ∈ elements, element.word.Proper) (h : arrayTree? elements = some e) :
    e.WellFormed := by
  obtain ⟨some, ⟨contents, rfl, rfl⟩ | ⟨texts, values, rfl, read, rfl⟩⟩ := arrayTree?_eq_some.1 h
  · refine ⟨by simpa using some, ?_⟩
    intro content hc
    exact proper (.quotation content) (List.mem_map_of_mem hc)
  · refine ⟨Numeral.ne_nil_of_reads (by simpa using some) read, Numeral.writable_of_reads ?_ read⟩
    intro text ht
    exact proper (.numeral text) (List.mem_map_of_mem ht)

mutual

/-- The tree of a derivation of proper words is well-formed. -/
theorem Derivation.wellFormed {e : Expr} : ∀ {level : Level} (d : Derivation level),
    (∀ w ∈ d.words, w.Proper) → d.tree? = some e → e.WellFormed
  | _, .tighter _ d, proper, h => d.wellFormed proper h
  | _, .binary left op _ right, proper, h => by
    obtain ⟨l, hl, h⟩ := Option.bind_eq_some_iff.1 h
    obtain ⟨r, hr, h⟩ := Option.bind_eq_some_iff.1 h
    cases h
    obtain ⟨properLeft, more⟩ := List.forall_mem_append.1 proper
    exact ⟨⟨op, rfl⟩, left.wellFormed properLeft hl,
      right.wellFormed (List.forall_mem_cons.1 more).2 hr⟩
  | _, .negation operand, proper, h => by
    obtain ⟨x, hx, h⟩ := Option.bind_eq_some_iff.1 h
    cases h
    exact ⟨⟨.not, rfl⟩, operand.wellFormed (List.forall_mem_cons.1 proper).2 hx⟩
  | _, .call function, proper, h => by
    obtain ⟨f, hf, h⟩ := Option.bind_eq_some_iff.1 h
    cases h
    exact ⟨function.wellFormed (List.forall_mem_append.1 proper).1 hf, trivial⟩
  | _, .callWith function arguments, proper, h => by
    obtain ⟨f, hf, h⟩ := Option.bind_eq_some_iff.1 h
    obtain ⟨es, hes, h⟩ := Option.bind_eq_some_iff.1 h
    cases h
    obtain ⟨properFunction, more⟩ := List.forall_mem_append.1 proper
    have inner := (List.forall_mem_append.1 (List.forall_mem_cons.1 more).2).1
    exact ⟨function.wellFormed properFunction hf,
      Expr.allWellFormed_iff.2 (arguments.wellFormed inner hes)⟩
  | _, .name text, proper, h => by
    cases h
    exact proper (.name text) (List.mem_singleton_self _)
  | _, .numeral text, proper, h => by
    rw [Derivation.tree?] at h
    cases read : Numeral.read text with
    | error fault =>
      rw [read] at h
      cases h
    | ok n =>
      rw [read] at h
      cases h
      exact Numeral.writable_of_read (proper (.numeral text) (List.mem_singleton_self _)) read
  | _, .quotation content, proper, h => by
    cases h
    exact proper (.quotation content) (List.mem_singleton_self _)
  | _, .truth value, _, h => by
    cases h
    trivial
  | _, .array elements, proper, h => by
    refine wellFormed_of_arrayTree? ?_ h
    intro element he
    refine proper _ (List.mem_cons_of_mem _ (List.mem_append_left _ ?_))
    exact mem_intersperse_of_mem (List.mem_map_of_mem he)
  | _, .group inner, proper, h =>
    inner.wellFormed (List.forall_mem_append.1 (List.forall_mem_cons.1 proper).2).1 h

theorem Arguments.wellFormed : ∀ (as : Arguments) {es : List Expr},
    (∀ w ∈ as.words, w.Proper) → as.trees? = some es → ∀ e ∈ es, e.WellFormed
  | .one d, es, proper, h => by
    obtain ⟨e, he, h⟩ := Option.bind_eq_some_iff.1 h
    cases h
    intro e' he'
    cases List.mem_singleton.1 he'
    exact d.wellFormed proper he
  | .snoc before d, es, proper, h => by
    obtain ⟨es, hes, h⟩ := Option.bind_eq_some_iff.1 h
    obtain ⟨e, he, h⟩ := Option.bind_eq_some_iff.1 h
    cases h
    obtain ⟨properBefore, more⟩ := List.forall_mem_append.1 proper
    refine List.forall_mem_append.2 ⟨before.wellFormed properBefore hes, ?_⟩
    intro e' he'
    cases List.mem_singleton.1 he'
    exact d.wellFormed (List.forall_mem_cons.1 more).2 he

end

theorem tree_wellFormed [Nesting] (p : Parser) {source : String} {e : Expr}
    (h : Grammar.tree p.draft source = .ok e) : e.WellFormed := by
  obtain ⟨d, words, tree⟩ := derives_of_tree p h
  exact d.wellFormed (words ▸ proper_sourceWords source) tree

end Grammar

namespace Reading

section

variable [Nesting] {r : Registry}

theorem diagnostics_of_checked {body : Option Expr} (h : (checked r body).body = none) :
    (checked r body).diagnostics ≠ [] := by
  cases body with
  | none =>
    obtain ⟨room, limit⟩ := Nesting.exists_room
    have empty : kindOf r (room + 2) (Expr.ofBody none) = .error .empty := rfl
    rw [checked, limit, empty]
    exact List.cons_ne_nil _ _
  | some e =>
    rw [checked] at h ⊢
    split at h
    · cases h
    · exact List.cons_ne_nil _ _
    · cases h

theorem wellFormed_ofTokens {tokens : List Token} {e : Expr} (proper : ∀ t ∈ tokens, t.Proper)
    (h : (ofTokens r tokens).body = some e) : e.WellFormed := by
  refine Parse.program_wellFormed proper ?_
  rw [ofTokens] at h
  split at h
  · next body hp =>
    rw [hp]
    exact body_checked h
  · next body complaints _ hp =>
    rw [hp]
    exact h

theorem diagnostics_ofTokens {tokens : List Token} (h : (ofTokens r tokens).body = none) :
    (ofTokens r tokens).diagnostics ≠ [] := by
  rw [ofTokens] at h ⊢
  cases hp : Parse.program tokens with
  | mk body complaints =>
    rw [hp] at h
    cases complaints with
    | nil => exact diagnostics_of_checked h
    | cons c complaints => exact List.cons_ne_nil _ _

/-- Whatever text is read, by whichever front end and with whatever registry: a tree that is handed
out is well-formed, with complaints beside it or without, and none is handed out without
complaint. -/
theorem reading_wellFormed (front : FrontEnd) (r : Registry) (source : String) :
    (∀ e, (ofSource front r source).body = some e → e.WellFormed) ∧
      ((ofSource front r source).body = none → (ofSource front r source).messages ≠ []) := by
  rw [ne_eq, messages_eq_nil]
  cases front with
  | descent =>
    exact ⟨fun e => wellFormed_ofTokens (proper_tokenize source), diagnostics_ofTokens⟩
  | grammar =>
    rw [ofSource, ofGrammar]
    cases ht : Grammar.tree Grammar.Machine.drafter source with
    | ok e =>
      refine ⟨?_, diagnostics_of_checked⟩
      intro e' he'
      cases body_checked he'
      exact Grammar.tree_wellFormed Grammar.Machine.parser ht
    | error refusal =>
      refine ⟨?_, fun _ => List.cons_ne_nil _ _⟩
      intro e he
      cases he

end

open Nesting

theorem reading_wellFormed_trailing :
    ofSource .descent .standard "!a b" =
        ⟨some (.unary "!" (.identifier "a")), [.problem (.trailing ⟨.identifier, "b", 1, 4⟩)]⟩ ∧
      (Expr.unary "!" (.identifier "a")).WellFormed := by
  have read : ofSource .descent .standard "!a b" =
      ⟨some (.unary "!" (.identifier "a")), [.problem (.trailing ⟨.identifier, "b", 1, 4⟩)]⟩ := by
    cbv
  exact ⟨read, (reading_wellFormed .descent .standard "!a b").1 _ (congrArg body read)⟩

end Reading

end Criterion
