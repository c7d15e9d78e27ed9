import Mathlib
import Criterion.Interactive.Session
import Criterion.Proofs.Except

namespace Criterion

theorem Environment.bindings_of_bind? {env next : Environment} {name : String} {v : Value}
    {isConstant : Bool} (h : env.bind? name v isConstant = some next) (other : String) :
    next.bindings.get? other =
      if other = name then some ⟨v, isConstant⟩ else env.bindings.get? other := by
  rw [bind?] at h
  split at h
  · cases h
  · cases h
    exact Table.get?_insert ..

theorem Text.strip_of_blank {s : String} (h : isAllBlank s) : strip s = "" := by
  have none : s.toList.dropWhile isBlank = [] :=
    List.dropWhile_eq_nil_iff.2 (List.all_eq_true.1 h)
  rw [strip, trimBy, none]
  rfl

namespace Interactive

/-- The name and the literal of which an argument consists: what stands before its first space, and
what follows that without the blanks around it. -/
def assignment (argument : String) : String × String :=
  (((Text.splitAt? ' ' argument).getD (argument, "")).1,
    Text.strip ((Text.splitAt? ' ' argument).getD (argument, "")).2)

/-- What an argument makes of an environment: nothing, for want of a name or of the value of a
literal or because the name is a constant, or else a binding of this name alone to this value. -/
def Assigns [Nesting] (r : Registry) (isConstant : Bool) (argument : String)
    (before after : Environment) : Prop :=
  (after = before ∧
    ((assignment argument).1 = "" ∨ (assignment argument).2 = "" ∨
      (∃ f, literalValue r (assignment argument).2 = .error f) ∨
      before.isConstant (assignment argument).1)) ∨
  ∃ v, (assignment argument).1 ≠ "" ∧ literalValue r (assignment argument).2 = .ok v ∧
    before.isConstant (assignment argument).1 = false ∧
    ∀ other, after.bindings.get? other =
      if other = (assignment argument).1 then some ⟨v, isConstant⟩ else before.bindings.get? other

namespace Session

theorem not_blank_of_commandOf? {line : String} {call : String × String}
    (h : commandOf? line = some call) : ¬ Text.isAllBlank line := by
  intro blank
  rw [commandOf?, Text.strip_of_blank blank] at h
  cases h

section

variable [Nesting]

/-- The session after several lines, each taken with the functions that are registered by then. -/
def run (host : Host) (session : Session) (lines : List (Registry × String)) : Session :=
  lines.foldl (fun session line => (session.take host line.1 line.2).session) session

variable {host : Host} {r : Registry} {session : Session} {line word argument : String}

theorem session_evaluate (host : Host) (r : Registry) (session : Session) (line : String) :
    ∃ calls, (session.evaluate host r line).session = { session with calls } := by
  rw [evaluate]
  split
  · exact ⟨session.calls, rfl⟩
  · dsimp only
    split <;> exact ⟨_, rfl⟩

theorem take_of_condition (h : commandOf? (visible line) = none) :
    ∃ calls, (session.take host r line).session = { session with calls } := by
  have none : session.command? r (visible line) = none := by rw [command?, h]; rfl
  rw [take]
  split
  · exact ⟨session.calls, rfl⟩
  · rw [none]
    exact session_evaluate ..

theorem take_of_command (h : commandOf? (visible line) = some (word, argument)) :
    (session.take host r line).session =
      match Command.ofName? word with
      | some c => (session.perform r c argument).1
      | none => session := by
  have called : session.command? r (visible line) =
      some (match Command.ofName? word with
        | some c => session.perform r c argument
        | none => (session, [.complain ("Unknown command: " ++ word)])) := by
    rw [command?, h]
    rfl
  rw [take, if_neg (not_blank_of_commandOf? h), called]
  cases Command.ofName? word with
  | some c => rfl
  | none => rfl

/-- A name and a literal are bound if both are given, the literal is one, and the name is no
constant. -/
theorem session_assign (r : Registry) (session : Session) (c : Command) (isConstant : Bool)
    (argument : String) :
    (session.assign r c isConstant argument).1 =
      if (assignment argument).1 = "" ∨ (assignment argument).2 = "" then session
      else match literalValue r (assignment argument).2 with
        | .error _ => session
        | .ok v =>
          match session.environment.bind? (assignment argument).1 v isConstant with
          | some env => { session with environment := env }
          | none => session := by
  cases hp : (Text.splitAt? ' ' argument).getD (argument, "") with
  | mk name rest =>
    rw [assignment, assign, hp]
    simp only [Bool.or_eq_true, decide_eq_true_eq]
    split
    · rfl
    · cases literalValue r (Text.strip rest) with
      | error f => rfl
      | ok v =>
        simp only [bind, Except.bind, Environment.assign]
        cases session.environment.bind? name v isConstant with
        | some env => rfl
        | none => rfl

theorem assigns_assign (r : Registry) (session : Session) (c : Command) (isConstant : Bool)
    (argument : String) :
    Assigns r isConstant argument session.environment
      (session.assign r c isConstant argument).1.environment := by
  rw [session_assign]
  by_cases usage : (assignment argument).1 = "" ∨ (assignment argument).2 = ""
  · left
    rw [if_pos usage]
    exact ⟨rfl, usage.elim .inl fun h => .inr (.inl h)⟩
  · rw [if_neg usage]
    cases hv : literalValue r (assignment argument).2 with
    | error f =>
      left
      exact ⟨rfl, .inr (.inr (.inl ⟨f, hv⟩))⟩
    | ok v =>
      dsimp only
      cases hb : session.environment.bind? (assignment argument).1 v isConstant with
      | none =>
        left
        exact ⟨rfl, .inr (.inr (.inr (Environment.bind?_eq_none_iff.1 hb)))⟩
      | some env =>
        right
        have free : session.environment.isConstant (assignment argument).1 = false := by
          rw [← Bool.not_eq_true, ← Environment.bind?_eq_none_iff (v := v), hb]
          exact Option.some_ne_none env
        exact ⟨v, (not_or.1 usage).1, hv, free, Environment.bindings_of_bind? hb⟩

theorem perform_environment (r : Registry) (session : Session) (argument : String) {c : Command}
    (hs : c ≠ .set) (hc : c ≠ .const) :
    (session.perform r c argument).1.environment =
      if c = .reset then .empty else session.environment := by
  cases c with
  | set => exact absurd rfl hs
  | const => exact absurd rfl hc
  | tree =>
    rw [perform]
    split
    · rfl
    · rfl
  | traceback =>
    rw [perform]
    split
    · rfl
    · rfl
  | _ => rfl

theorem assign_showTree (r : Registry) (session : Session) (c : Command) (isConstant : Bool)
    (argument : String) :
    (session.assign r c isConstant argument).1.showTree = session.showTree := by
  rw [session_assign]
  split
  · rfl
  · split
    · rfl
    · split
      · rfl
      · rfl

theorem perform_showTree (r : Registry) (session : Session) (argument : String) (c : Command)
    (h : (session.perform r c argument).1.showTree ≠ session.showTree) :
    c = .tree ∧
      switch? argument session.showTree = some (session.perform r c argument).1.showTree := by
  cases c with
  | set => exact absurd (assign_showTree ..) h
  | const => exact absurd (assign_showTree ..) h
  | tree =>
    rw [perform] at h ⊢
    cases hs : switch? argument session.showTree with
    | some isOn => exact ⟨rfl, rfl⟩
    | none =>
      rw [hs] at h
      exact absurd rfl h
  | traceback =>
    rw [perform] at h
    split at h
    · exact absurd rfl h
    · exact absurd rfl h
  | _ => exact absurd rfl h

theorem take_of_assignment {c : Command} (hc : c = .set ∨ c = .const)
    (h : commandOf? (visible line) = some (c.name, argument)) :
    (session.take host r line).session =
      (session.assign r c (decide (c = .const)) argument).1 := by
  rw [take_of_command h, Command.ofName?_name]
  rcases hc with rfl | rfl
  · rfl
  · rfl

theorem environment_take (other : ∀ word argument,
      commandOf? (visible line) = some (word, argument) →
        word ∉ [Command.set.name, Command.const.name, Command.reset.name]) :
    (session.take host r line).session.environment = session.environment := by
  cases h : commandOf? (visible line) with
  | none =>
    obtain ⟨calls, same⟩ := @take_of_condition _ host r session line h
    rw [same]
  | some call =>
    obtain ⟨word, argument⟩ := call
    have plain := other word argument h
    rw [take_of_command h]
    cases hc : Command.ofName? word with
    | none => rfl
    | some c =>
      rw [← Command.name_of_ofName? hc] at plain
      simp only [List.mem_cons, List.not_mem_nil, or_false, not_or] at plain
      have ne {c' : Command} (hn : ¬ c.name = c'.name) : c ≠ c' := fun h => hn (congrArg _ h)
      dsimp only
      rw [perform_environment r session argument (ne plain.1) (ne plain.2.1), if_neg (ne plain.2.2)]

theorem take_of_reset (h : commandOf? (visible line) = some (Command.reset.name, argument)) :
    (session.take host r line).session.environment = .empty := by
  rw [take_of_command h, Command.ofName?_name]
  rfl

theorem showTree_take (h : (session.take host r line).session.showTree ≠ session.showTree) :
    ∃ argument, commandOf? (visible line) = some (Command.tree.name, argument) ∧
      switch? argument session.showTree = some (session.take host r line).session.showTree := by
  cases hl : commandOf? (visible line) with
  | none =>
    obtain ⟨calls, same⟩ := @take_of_condition _ host r session line hl
    rw [same] at h
    exact absurd rfl h
  | some call =>
    obtain ⟨word, argument⟩ := call
    rw [take_of_command hl] at h ⊢
    cases hc : Command.ofName? word with
    | none =>
      rw [hc] at h
      exact absurd rfl h
    | some c =>
      rw [hc] at h
      obtain ⟨rfl, known⟩ := perform_showTree r session argument c h
      exact ⟨argument, by rw [← Command.name_of_ofName? hc], known⟩

theorem take_of_tree {isOn : Bool}
    (h : commandOf? (visible line) = some (Command.tree.name, argument))
    (hs : switch? argument session.showTree = some isOn) :
    (session.take host r line).session.showTree = isOn := by
  rw [take_of_command h, Command.ofName?_name]
  dsimp only
  rw [perform, hs]

theorem constant_take {name : String} {v : Value}
    (h : session.environment.bindings.get? name = some ⟨v, true⟩)
    (other : ∀ argument, commandOf? (visible line) ≠ some (Command.reset.name, argument)) :
    (session.take host r line).session.environment.bindings.get? name = some ⟨v, true⟩ := by
  by_cases hw : ∃ c argument, (c = .set ∨ c = .const) ∧
      commandOf? (visible line) = some (Command.name c, argument)
  · obtain ⟨c, argument, hc, hl⟩ := hw
    rw [take_of_assignment hc hl]
    rcases assigns_assign r session c (decide (c = .const)) argument with
      ⟨same, -⟩ | ⟨w, -, -, free, changed⟩
    · rw [same, h]
    · have ne : name ≠ (assignment argument).1 := by
        rintro rfl
        rw [Environment.isConstant, h] at free
        cases free
      rw [changed, if_neg ne, h]
  · rw [environment_take, h]
    intro word argument hl known
    simp only [List.mem_cons, List.not_mem_nil, or_false] at known
    rcases known with rfl | rfl | rfl
    · exact hw ⟨.set, argument, .inl rfl, hl⟩
    · exact hw ⟨.const, argument, .inr rfl, hl⟩
    · exact other argument hl

/-- A constant keeps its value through any lines up to the next reset. -/
theorem constant_run {name : String} {v : Value} {lines : List (Registry × String)}
    (h : session.environment.bindings.get? name = some ⟨v, true⟩)
    (other : ∀ line ∈ lines, ∀ argument,
      commandOf? (visible line.2) ≠ some (Command.reset.name, argument)) :
    (session.run host lines).environment.bindings.get? name = some ⟨v, true⟩ := by
  induction lines generalizing session with
  | nil => exact h
  | cons line lines ih =>
    obtain ⟨first, rest⟩ := List.forall_mem_cons.1 other
    rw [run, List.foldl_cons]
    exact ih (constant_take h first) rest

/-- What a line does to a session, whichever lines came before. -/
theorem take_changes (host : Host) (r : Registry) (session : Session) (line : String) :
    ((∀ word argument, commandOf? (visible line) = some (word, argument) →
        word ∉ ["/set", "/const", "/reset"]) →
      (session.take host r line).session.environment = session.environment) ∧
    (∀ word argument, word = "/set" ∨ word = "/const" →
      commandOf? (visible line) = some (word, argument) →
      Assigns r (decide (word = "/const")) argument session.environment
        (session.take host r line).session.environment) ∧
    (∀ argument, commandOf? (visible line) = some ("/reset", argument) →
      (session.take host r line).session.environment = .empty) ∧
    ((session.take host r line).session.showTree ≠ session.showTree →
      ∃ argument, commandOf? (visible line) = some ("/tree", argument) ∧
        switch? argument session.showTree = some (session.take host r line).session.showTree) ∧
    (∀ argument isOn, commandOf? (visible line) = some ("/tree", argument) →
      switch? argument session.showTree = some isOn →
      (session.take host r line).session.showTree = isOn) ∧
    ∀ name v, session.environment.bindings.get? name = some ⟨v, true⟩ →
      ∀ lines : List (Registry × String), (∀ line ∈ lines, ∀ argument,
        commandOf? (visible line.2) ≠ some ("/reset", argument)) →
      (session.run host lines).environment.bindings.get? name = some ⟨v, true⟩ := by
  refine ⟨environment_take, ?_, fun _ => take_of_reset, showTree_take,
    fun _ _ => take_of_tree, fun name v h lines => constant_run h⟩
  intro word argument hword hl
  obtain ⟨c, hc, rfl⟩ : ∃ c : Command, (c = .set ∨ c = .const) ∧ c.name = word := by
    rcases hword with rfl | rfl
    · exact ⟨.set, .inl rfl, rfl⟩
    · exact ⟨.const, .inr rfl, rfl⟩
  have known : decide (c.name = "/const") = decide (c = .const) := by
    rcases hc with rfl | rfl
    · rfl
    · rfl
  rw [take_of_assignment hc hl, known]
  exact assigns_assign r session c (decide (c = .const)) argument

end

open Nesting

theorem take_changes_constant :
    (start.take (fun _ _ _ => .nothing) .standard "a == 1").session.environment = .empty ∧
    literalValue .standard "1" = .ok (.integer 1) ∧
    (start.take (fun _ _ _ => .nothing) .standard
        "/const a 1").session.environment.bindings.get? "a" = some ⟨.integer 1, true⟩ ∧
    ((start.take (fun _ _ _ => .nothing) .standard "/const a 1").session.run (fun _ _ _ => .nothing)
        [(.standard, "/set a 2"), (.standard, "/tree on")]).environment.bindings.get? "a" =
      some ⟨.integer 1, true⟩ ∧
    ((start.take (fun _ _ _ => .nothing) .standard "/const a 1").session.take
      (fun _ _ _ => .nothing) .standard "/reset").session.environment = .empty ∧
    (start.take (fun _ _ _ => .nothing) .standard "/tree on").session.showTree = true := by
  have read : Parse.program (tokenize "1") = (some (.integer 1), []) := by cbv
  have literal : literalValue .standard "1" = .ok (.integer 1) := by
    rw [literalValue, Reading.ofSource, Reading.ofTokens, read]
    rfl
  have blank : (assignment "a 1").1 ≠ "" ∧ (assignment "a 1").2 ≠ "" := by decide +kernel
  have name : (assignment "a 1").1 = "a" := by decide +kernel
  have rest : (assignment "a 1").2 = "1" := by decide +kernel
  have bound : (start.take (fun _ _ _ => .nothing) .standard
      "/const a 1").session.environment.bindings.get? "a" = some ⟨.integer 1, true⟩ := by
    obtain ⟨-, binds, -⟩ := take_changes (fun _ _ _ => .nothing) .standard start "/const a 1"
    rcases binds "/const" "a 1" (.inr rfl) (by decide +kernel) with
      ⟨-, h | h | ⟨f, h⟩ | h⟩ | ⟨v, -, h, -, changed⟩
    · exact absurd h blank.1
    · exact absurd h blank.2
    · rw [rest, literal] at h
      cases h
    · cases h
    · rw [rest, literal] at h
      cases h
      rw [changed, name]
      rfl
  refine ⟨?_, literal, bound, ?_, ?_, ?_⟩
  · obtain ⟨other, -⟩ := take_changes (fun _ _ _ => .nothing) .standard start "a == 1"
    refine other ?_
    intro word argument h
    have none : commandOf? (visible "a == 1") = none := by decide +kernel
    rw [none] at h
    cases h
  · obtain ⟨-, -, -, -, -, kept⟩ := take_changes (fun _ _ _ => .nothing) .standard
      (start.take (fun _ _ _ => .nothing) .standard "/const a 1").session ""
    refine kept "a" (.integer 1) bound _ ?_
    have set : commandOf? (visible "/set a 2") = some ("/set", "a 2") := by decide +kernel
    have tree : commandOf? (visible "/tree on") = some ("/tree", "on") := by decide +kernel
    rw [List.forall_mem_cons, List.forall_mem_singleton, set, tree]
    constructor
    · intro argument h
      simp at h
    · intro argument h
      simp at h
  · obtain ⟨-, -, reset, -⟩ := take_changes (fun _ _ _ => .nothing) .standard
      (start.take (fun _ _ _ => .nothing) .standard "/const a 1").session "/reset"
    exact reset "" (by decide +kernel)
  · obtain ⟨-, -, -, -, tree, -⟩ := take_changes (fun _ _ _ => .nothing) .standard start "/tree on"
    exact tree "on" true (by decide +kernel) (by decide +kernel)

end Session
end Interactive
end Criterion
