import Criterion.Proofs.FrontEnds
import Criterion.Proofs.Typing.Messages
import Criterion.Proofs.Typing.Standard

namespace Criterion.Reading

section

variable [Nesting]

theorem legible_of_program {tokens : List Token} {e : Expr} (clean : (Parse.program tokens).2 = [])
    (h : (Parse.program tokens).1 = some e) : e.Legible := by
  obtain ⟨e', he, d, -, tree⟩ := Parse.program_sound clean
  rw [h] at he
  cases he
  exact d.legible tree

theorem ofTokens_cases (tokens : List Token) :
    (∃ body problems, problems ≠ [] ∧
      ∀ r, ofTokens r tokens = ⟨body, problems.map Diagnostic.problem⟩) ∨
    ∃ body, (∀ e, body = some e → e.Legible) ∧ ∀ r, ofTokens r tokens = checked r body := by
  cases hp : Parse.program tokens with
  | mk body complaints =>
    cases complaints with
    | nil =>
      right
      refine ⟨body, fun e he => ?_, fun r => by rw [ofTokens, hp]⟩
      have clean : (Parse.program tokens).2 = [] := congrArg Prod.snd hp
      exact legible_of_program clean ((congrArg Prod.fst hp).trans he)
    | cons c complaints =>
      left
      refine ⟨body, (c :: complaints).map (·.problem), List.cons_ne_nil _ _, fun r => ?_⟩
      rw [ofTokens, hp, List.map_map]
      rfl

/-- Within the limit of nesting a text is read as the same program with any two registries. Either
the same complaints about its syntax are made with both, or with each of them there is one message
at most, and it is the checker's. The checker visits every operand with one list of messages. It
comes to the end of every tree within the limit that can be written out. Where it comes to the end,
it comes to an error where it leaves a message and only there, if no signature of its registry says
so; and where there are messages already it adds none. -/
theorem syntax_or_typing (source : String) (r₁ r₂ : Registry)
    (h₁ : (ofSource .descent r₁ source).Shallow) (h₂ : (ofSource .descent r₂ source).Shallow) :
    (ofSource .descent r₁ source).program = (ofSource .descent r₂ source).program ∧
    ((∃ problems : List Parse.Problem, problems ≠ [] ∧
        (ofSource .descent r₁ source).diagnostics = problems.map .problem ∧
        (ofSource .descent r₂ source).diagnostics = problems.map .problem) ∨
      ∀ r ∈ [r₁, r₂], (ofSource .descent r source).messages.length ≤ 1 ∧
        ∃ kind, check r (ofSource .descent r source).program =
          .ok (kind, (ofSource .descent r source).messages)) ∧
    ∀ (r : Registry) (e : Expr),
      (∀ messages, checkAfter messages r e = inspect r Nesting.limit e messages) ∧
      (∀ messages, messages ≠ [] → checkAfter messages r e = .ok (.error, messages)) ∧
      (e.height ≤ Nesting.limit → e.Legible →
        ∃ kind messages, checkAfter [] r e = .ok (kind, messages)) ∧
      (r.ErrorFree → ∀ kind messages, checkAfter [] r e = .ok (kind, messages) →
        (kind = .error ↔ ∃ message, messages = [message]) ∧ (kind ≠ .error ↔ messages = [])) := by
  refine ⟨?_, ?_, fun r e => ⟨fun messages => checkAfter_eq_inspect messages r e, ?_, ?_, ?_⟩⟩
  · rcases ofTokens_cases (tokenize source) with ⟨body, problems, -, h⟩ | ⟨body, legible, h⟩
    · rw [ofSource, ofSource, h, h]
    · rw [ofSource, h] at h₁ h₂
      rw [ofSource, ofSource, h, h, program, program, (checked_of_shallow legible h₁).1,
        (checked_of_shallow legible h₂).1]
  · rcases ofTokens_cases (tokenize source) with ⟨body, problems, some, h⟩ | ⟨body, legible, h⟩
    · left
      exact ⟨problems, some, by rw [ofSource, h], by rw [ofSource, h]⟩
    · right
      have one (r : Registry) (hr : (ofSource .descent r source).Shallow) :
          (ofSource .descent r source).messages.length ≤ 1 ∧
            ∃ kind, check r (ofSource .descent r source).program =
              .ok (kind, (ofSource .descent r source).messages) := by
        rw [ofSource, h] at hr ⊢
        obtain ⟨hbody, kind, hmessages⟩ := checked_of_shallow legible hr
        rw [program, hbody]
        exact ⟨length_check_le hmessages, kind, hmessages⟩
      rw [List.forall_mem_cons, List.forall_mem_singleton]
      exact ⟨one r₁ h₁, one r₂ h₂⟩
  · intro messages some
    rw [checkAfter_eq_inspect, inspect_of_messages some]
  · intro shallow legible
    exact exists_check r shallow legible
  · intro free kind messages h
    exact check_eq_error_iff free h

end

open Nesting

theorem syntax_or_typing_call :
    (ofSource .descent .standard "f(1)").Shallow ∧
    (ofSource .descent ⟨.insert .empty "f" ⟨⟨"f", .host 0⟩, [⟨[.integer], [.integer]⟩]⟩, false⟩
      "f(1)").Shallow ∧
    (ofSource .descent .standard "f(1)").program =
      (ofSource .descent ⟨.insert .empty "f" ⟨⟨"f", .host 0⟩, [⟨[.integer], [.integer]⟩]⟩, false⟩
        "f(1)").program ∧
    checkAfter ["empty array is not allowed"] .standard (.identifier "a") =
      .ok (.error, ["empty array is not allowed"]) ∧
    Registry.standard.ErrorFree ∧
    ∃ kind message, checkAfter [] .standard (.unary "!" (.integer 1)) = .ok (kind, [message]) ∧
      kind = .error := by
  have read : Parse.program (tokenize "f(1)") =
      (some (.call (.identifier "f") [.integer 1]), []) := by cbv
  have shallow (r : Registry)
      (h : "expression nested too deeply" ∉
        (checked r (some (.call (.identifier "f") [.integer 1]))).messages) :
      (ofSource .descent r "f(1)").Shallow := by
    rw [ofSource, ofTokens, read]
    exact h
  have h₁ := shallow .standard (by decide +kernel)
  have h₂ := shallow ⟨.insert .empty "f" ⟨⟨"f", .host 0⟩, [⟨[.integer], [.integer]⟩]⟩, false⟩
    (by decide +kernel)
  have free : Registry.standard.ErrorFree := by
    intro name s hs
    rw [Registry.result_of_signatures hs]
    intro h
    cases h
  obtain ⟨same, -, rest⟩ := syntax_or_typing "f(1)" _ _ h₁ h₂
  obtain ⟨-, silent, -⟩ := rest .standard (.identifier "a")
  obtain ⟨-, -, ends, counted⟩ := rest .standard (.unary "!" (.integer 1))
  obtain ⟨kind, messages, checked⟩ := ends (by decide) (by rfl)
  have message : messages = ["prefix operator '!' expects BOOLEAN, got INTEGER"] := by
    have found : checkAfter [] .standard (.unary "!" (.integer 1)) =
        .ok (.error, ["prefix operator '!' expects BOOLEAN, got INTEGER"]) := by rfl
    cases checked.symm.trans found
    rfl
  subst message
  exact ⟨h₁, h₂, same, silent _ (List.cons_ne_nil _ _), free, kind, _, checked,
    (counted free kind _ checked).1.2 ⟨_, rfl⟩⟩

end Criterion.Reading
