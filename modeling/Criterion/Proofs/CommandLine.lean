import Mathlib
import Criterion.CommandLine
import Criterion.Proofs.Except
import Criterion.Proofs.Rendering.Values
import Criterion.Proofs.Text

namespace Criterion

def Environment.assignLiterals [Nesting] (r : Registry) (env : Environment)
    (bindings : List (Bool × String × String)) : Except Failure Environment :=
  bindings.foldlM (fun env b => env.assignLiteral r b.1 b.2) env

theorem Environment.assignLiterals_cons [Nesting] (r : Registry) (env : Environment)
    (b : Bool × String × String) (bindings : List (Bool × String × String)) :
    env.assignLiterals r (b :: bindings) =
      (env.assignLiteral r b.1 b.2 >>= fun env => env.assignLiterals r bindings) :=
  List.foldlM_cons

theorem Environment.ofLiterals_eq [Nesting] (r : Registry)
    (values constants : List (String × String)) :
    ofLiterals r values constants =
      empty.assignLiterals r (values.map (false, ·) ++ constants.map (true, ·)) := by
  rw [assignLiterals, List.foldlM_append, List.foldlM_map]
  simp only [List.foldlM_map]
  rfl

namespace CommandLine

def optionOf (isConstant : Bool) : String := if isConstant then "--const" else "--set"

def switches : List String := ["-h", "--help", "--tree", "--lark"]

/-- An argument is an option, or an option and a binding in one. -/
def IsOption (argument : String) : Prop :=
  argument ∈ switches ∨
    ∃ isConstant, argument = optionOf isConstant ∨
      ∃ text, argument = optionOf isConstant ++ "=" ++ text

/-- A name that can be bound on the command line: it is kept as it is there. -/
def IsBindable (name : String) : Prop := name ≠ "" ∧ '=' ∉ name.toList ∧ Text.strip name = name

/-- Arguments hold some bindings in this order, each with its option in one argument or in two. In
any places among them are the choice of the grammar, just if it is the front end, and the source,
once if it is given and not at all if not. -/
inductive Arranges (source : String) :
    List (Bool × String × String) → FrontEnd → Bool → List String → Prop
  | nil : Arranges source [] .descent false []
  | together {isConstant : Bool} {name literal : String} {bindings front given arguments} :
      Arranges source bindings front given arguments →
      Arranges source ((isConstant, name, literal) :: bindings) front given
        ((optionOf isConstant ++ "=" ++ (name ++ "=" ++ literal)) :: arguments)
  | apart {isConstant : Bool} {name literal : String} {bindings front given arguments} :
      Arranges source bindings front given arguments →
      Arranges source ((isConstant, name, literal) :: bindings) front given
        (optionOf isConstant :: (name ++ "=" ++ literal) :: arguments)
  | grammar {bindings front given arguments} :
      Arranges source bindings front given arguments →
      Arranges source bindings .grammar given ("--lark" :: arguments)
  | source {bindings front arguments} :
      Arranges source bindings front false arguments →
      Arranges source bindings front true (source :: arguments)

variable {name option argument : String} {isConstant : Bool}

theorem optionOf_of_lookup (h : bindingOptions.lookup option = some isConstant) :
    option = optionOf isConstant := by
  rw [bindingOptions, Table.lookup_cons, Table.lookup_cons] at h
  split at h
  · next set =>
    cases h
    exact set
  · split at h
    · next const =>
      cases h
      exact const
    · cases h

theorem lookup_optionOf (isConstant : Bool) :
    bindingOptions.lookup (optionOf isConstant) = some isConstant := by
  cases isConstant with
  | false => rfl
  | true => rfl

theorem mark_notMem_optionOf (isConstant : Bool) : '=' ∉ (optionOf isConstant).toList := by
  cases isConstant <;> decide

theorem splitAt?_binding (named : IsBindable name) (literal : String) :
    Text.splitAt? '=' (name ++ "=" ++ literal) = some (name, literal) :=
  Text.splitAt?_eq_some_iff.2 ⟨named.2.1, by simp⟩

theorem splitAt?_option (isConstant : Bool) (text : String) :
    Text.splitAt? '=' (optionOf isConstant ++ "=" ++ text) = some (optionOf isConstant, text) :=
  Text.splitAt?_eq_some_iff.2 ⟨mark_notMem_optionOf isConstant, by simp⟩

theorem notMem_switches (marked : '=' ∈ argument.toList) : argument ∉ switches := by
  intro mem
  have unmarked : ∀ switch ∈ switches, '=' ∉ switch.toList := by decide
  exact unmarked argument mem marked

theorem lookup_of_not_option {source : String} (plain : ¬ IsOption source) :
    bindingOptions.lookup (((Text.splitAt? '=' source).map (·.1)).getD source) = none := by
  rw [← Option.not_isSome_iff_eq_none, Option.isSome_iff_exists]
  rintro ⟨isConstant, known⟩
  apply plain
  right
  refine ⟨isConstant, ?_⟩
  have option := optionOf_of_lookup known
  cases split : Text.splitAt? '=' source with
  | none =>
    rw [split] at option
    exact .inl option
  | some parts =>
    obtain ⟨-, text⟩ := Text.splitAt?_eq_some_iff.1 split
    rw [split] at option
    right
    refine ⟨parts.2, String.toList_inj.1 ?_⟩
    rw [text, ← option]
    simp

theorem not_isOption_of_head {source : String} (h : source.toList.head? ≠ some '-') :
    ¬ IsOption source := by
  have dashed : ∀ switch ∈ switches, switch.toList.head? = some '-' := by decide
  rintro (mem | ⟨isConstant, rfl | ⟨text, rfl⟩⟩)
  · exact h (dashed source mem)
  · cases isConstant <;> exact h rfl
  · apply h
    cases isConstant <;> simp [optionOf]

def answer : Except Failure Value → Except Escape Response
  | .ok v => .ok (Request.respond v)
  | .error (.raised e) => .error e
  | .error f => .ok (.report f.messages)

theorem response_failure (f : Failure) : (Trouble.failure f).response = answer (.error f) := by
  cases f <;> rfl

theorem respond_of_value {v : Value} (h : v.isError = false) :
    Request.respond v = ⟨if v.isTruthy then 0 else 1, v.text ++ "\n", ""⟩ := by
  cases v with
  | error message => cases h
  | _ => rfl

section

variable [Nesting] {r : Registry} {request : Request} {literal : String}

theorem bind_of_bindable {α : Type} (named : IsBindable name) (r : Registry) (request : Request)
    (option : String) (isConstant : Bool) (literal : String) (f : Request → Except Trouble α) :
    (request.bind r option isConstant (name ++ "=" ++ literal) >>= f) =
      ((request.environment.assignLiteral r isConstant (name, literal)).mapError .failure >>=
        fun env => f { request with environment := env }) := by
  have entry : binding option (name ++ "=" ++ literal) = .ok (name, literal) := by
    rw [binding, splitAt?_binding named]
    dsimp only
    rw [named.2.2, if_neg named.1]
  rw [Request.bind, entry]
  change ((request.environment.assignLiteral r isConstant (name, literal)).mapError .failure >>=
    fun env => pure { request with environment := env }) >>= f = _
  rw [bind_assoc]
  rfl

theorem read_together (r : Registry) (request : Request) (rest : List String)
    (isConstant : Bool) (text : String) :
    request.read r ((optionOf isConstant ++ "=" ++ text) :: rest) =
      (request.bind r (optionOf isConstant) isConstant text >>=
        fun request => request.read r rest) := by
  have plain : optionOf isConstant ++ "=" ++ text ∉ switches := notMem_switches (by simp)
  simp only [switches, List.mem_cons, List.not_mem_nil, or_false, not_or] at plain
  rw [Request.read]
  simp [plain, splitAt?_option, lookup_optionOf]

theorem read_apart (r : Registry) (request : Request) (rest : List String) (isConstant : Bool)
    (text : String) :
    request.read r (optionOf isConstant :: text :: rest) =
      (request.bind r (optionOf isConstant) isConstant text >>=
        fun request => request.read r rest) := by
  have plain : optionOf isConstant ∉ switches := by cases isConstant <;> decide
  have whole : Text.splitAt? '=' (optionOf isConstant) = none := by cases isConstant <;> rfl
  simp only [switches, List.mem_cons, List.not_mem_nil, or_false, not_or] at plain
  rw [Request.read]
  simp [plain, whole, lookup_optionOf]

theorem read_grammar (r : Registry) (request : Request) (rest : List String) :
    request.read r ("--lark" :: rest) = { request with front := .grammar }.read r rest := by
  rw [Request.read]
  simp

theorem read_source {source : String} (r : Registry) (rest : List String)
    (plain : ¬ IsOption source) (free : request.source = none) :
    request.read r (source :: rest) = { request with source := some source }.read r rest := by
  have unknown := lookup_of_not_option plain
  have other : source ∉ switches := fun mem => plain (.inl mem)
  simp only [switches, List.mem_cons, List.not_mem_nil, or_false, not_or] at other
  rw [Request.read]
  simp [other, unknown, free]

theorem read_of_bind {bindings : List (Bool × String × String)} {arguments rest : List String}
    {f : Environment → Except Trouble (Option Request)} (named : IsBindable name)
    (first : request.read r arguments =
      (request.bind r option isConstant (name ++ "=" ++ literal) >>=
        fun request => request.read r rest))
    (later : ∀ env, { request with environment := env }.read r rest =
      ((env.assignLiterals r bindings).mapError .failure >>= f)) :
    request.read r arguments =
      ((request.environment.assignLiterals r ((isConstant, name, literal) :: bindings)).mapError
        .failure >>= f) := by
  rw [first, bind_of_bindable named, Environment.assignLiterals_cons, mapError_bind, bind_assoc]
  apply bind_congr
  exact later

/-- Arguments are read as the bindings that they hold, in their order, whatever is between them. -/
theorem read_arranged {source : String} {bindings : List (Bool × String × String)}
    {front : FrontEnd} {given : Bool} {arguments : List String} (plain : ¬ IsOption source)
    (h : Arranges source bindings front given arguments)
    (named : ∀ b ∈ bindings, IsBindable b.2.1) (free : given → request.source = none) :
    request.read r arguments =
      ((request.environment.assignLiterals r bindings).mapError .failure >>= fun env =>
        .ok (some ⟨env, request.showTree, if front = .grammar then .grammar else request.front,
          if given then some source else request.source⟩)) := by
  -- what was read so far is in the request, so that a binding is made in the environment of it
  induction h generalizing request with
  | nil => rfl
  | together h ih =>
    obtain ⟨first, rest⟩ := List.forall_mem_cons.1 named
    apply read_of_bind first (read_together ..)
    intro env
    exact @ih { request with environment := env } rest free
  | apart h ih =>
    obtain ⟨first, rest⟩ := List.forall_mem_cons.1 named
    apply read_of_bind first (read_apart ..)
    intro env
    exact @ih { request with environment := env } rest free
  | grammar h ih =>
    rw [read_grammar, @ih { request with front := .grammar } named free, if_pos rfl, ite_self]
  | source h ih =>
    rw [read_source r _ plain (free rfl),
      @ih { request with source := some source } named (by simp), if_pos rfl]
    rfl

theorem run_of_read {source input : String} {look : String → Lookup}
    {arguments : List String} (host : Host)
    (read : Request.start.read r arguments = .ok (some request))
    (given : request.source = some source) (bare : request.showTree = false)
    (other : source ≠ "-") (absent : look source = .absent) :
    run host r input look arguments =
      answer (Condition.compile request.front r source >>= fun c =>
        (c.evaluate host r request.environment []).value) := by
  have name : request.fileName? = some source := by simp [Request.fileName?, given, other]
  have text : request.sourceText input look = .ok source := by
    unfold Request.sourceText
    rw [name]
    dsimp only
    rw [absent]
  rw [run, read]
  simp only [bind, Except.bind, Request.carryOut, text, bare]
  cases hc : Condition.compile request.front r source with
  | error f => exact response_failure f
  | ok c =>
    cases hv : (c.evaluate host r request.environment []).value with
    | error f =>
      simp only [hv, Except.mapError]
      exact response_failure f
    | ok v =>
      simp only [hv, Except.mapError, answer]
      rfl

theorem run_of_raised {source input : String} {look : String → Lookup} {e : Escape}
    {arguments : List String} (host : Host)
    (read : Request.start.read r arguments = .ok (some request))
    (given : request.source = some source) (other : source ≠ "-")
    (raised : look source = .raised e) : run host r input look arguments = .error e := by
  have name : request.fileName? = some source := by simp [Request.fileName?, given, other]
  have none : request.sourceText input look = .error (.failure (.raised e)) := by
    unfold Request.sourceText
    rw [name]
    dsimp only
    rw [raised]
  rw [run, read]
  simp only [bind, Except.bind, Request.carryOut, none, Trouble.response]

theorem run_arranged (host : Host) (r : Registry) (input : String)
    (look : String → Lookup) {source : String} {values constants : List (String × String)}
    {front : FrontEnd} {arguments : List String}
    (named : ∀ entry ∈ values ++ constants, IsBindable entry.1) (plain : ¬ IsOption source)
    (other : source ≠ "-") (absent : look source = .absent)
    (h : Arranges source (values.map (false, ·) ++ constants.map (true, ·)) front true arguments) :
    run host r input look arguments =
      answer (evaluateText front host r source values constants) := by
  have bindable : ∀ b ∈ values.map (false, ·) ++ constants.map (true, ·), IsBindable b.2.1 := by
    rw [List.forall_mem_append, List.forall_mem_map, List.forall_mem_map, ← List.forall_mem_append]
    exact named
  have choice : (if front = .grammar then FrontEnd.grammar else .descent) = front := by
    cases front with
    | descent => rfl
    | grammar => rfl
  have read := @read_arranged _ r .start _ _ _ _ _ plain h bindable (fun _ => rfl)
  rw [evaluateText, Environment.ofLiterals_eq]
  cases he : Environment.empty.assignLiterals r
      (values.map (false, ·) ++ constants.map (true, ·)) with
  | error f =>
    rw [Request.start, he] at read
    rw [run, Request.start, read]
    exact response_failure f
  | ok env =>
    rw [Request.start, he] at read
    have settled : Request.start.read r arguments =
        .ok (some ⟨env, false, front, some source⟩) := by
      rw [Request.start, read]
      dsimp only [Except.mapError]
      rw [choice, if_pos rfl]
      rfl
    exact run_of_read host settled rfl rfl other absent

/-- A command whose arguments bind names to literals, first those that may change and then the
constants, in one argument or in two and with the source and the choice of the grammar in any places
among them, prints the value of the source and tells by its code whether that is true. An error, or
what is wrong, is printed as such, and what a function of the host raises is raised. All this is so
where the search for a file of the source's name comes to the result that there is none. -/
theorem run_agrees (host : Host) (r : Registry) (input : String) (look : String → Lookup)
    {source : String} {values constants : List (String × String)} {front : FrontEnd}
    {arguments : List String} (named : ∀ entry ∈ values ++ constants, IsBindable entry.1)
    (plain : ¬ IsOption source) (other : source ≠ "-") (absent : look source = .absent)
    (h : Arranges source (values.map (false, ·) ++ constants.map (true, ·)) front true arguments) :
    (∀ v, evaluateText front host r source values constants = .ok v → v.isError = false →
      run host r input look arguments =
        .ok ⟨if v.isTruthy then 0 else 1, v.text ++ "\n", ""⟩) ∧
    (∀ message, evaluateText front host r source values constants = .ok (.error message) →
      run host r input look arguments = .ok ⟨2, "", "error: " ++ message ++ "\n"⟩) ∧
    (∀ f, evaluateText front host r source values constants = .error f →
      (∀ e, f ≠ .raised e) → run host r input look arguments =
        .ok ⟨2, "", String.join (f.messages.map fun message => "Error: " ++ message ++ "\n")⟩) ∧
    ∀ e, evaluateText front host r source values constants = .error (.raised e) →
      run host r input look arguments = .error e := by
  have same := run_arranged host r input look named plain other absent h
  refine ⟨?_, ?_, ?_, ?_⟩
  · intro v hv proper
    rw [same, hv, answer, respond_of_value proper]
  · intro message hv
    rw [same, hv]
    rfl
  · intro f hf own
    rw [same, hf]
    cases f with
    | raised e => exact absurd rfl (own e)
    | _ => rfl
  · intro e he
    rw [same, he]
    rfl

theorem evaluateText_of_literalValue {source : String} {v : Value}
    (h : literalValue r source = .ok v) (host : Host) :
    evaluateText .descent host r source [] [] = .ok v := by
  obtain ⟨clean, -⟩ := exists_of_literalValue h
  have read : Condition.compile .descent r source =
      .ok ⟨(Reading.ofSource .descent r source).program⟩ := by
    rw [Condition.compile, clean]
    rfl
  change Condition.compile .descent r source >>= (fun c => (c.evaluate host r .empty []).value) = _
  rw [read]
  exact evaluate_of_literalValue h host []

end

open Nesting

/-- A search for a file may raise an exception, as it does for a name of more than 255 bytes. It
ends a command whose source has a value. -/
theorem run_escapes : ∃ source, source = (Value.string (.ofList (List.replicate 254 'a'))).text ∧
    255 < source.utf8ByteSize ∧ '/' ∉ source.toList ∧ ¬ IsOption source ∧
    evaluateText .descent (fun _ _ _ => .nothing) .standard source [] [] =
      .ok (.string (.ofList (List.replicate 254 'a'))) ∧
    run (fun _ _ _ => .nothing) .standard "" (fun name =>
        if 255 < name.utf8ByteSize then .raised ⟨"OSError", "File name too long"⟩ else .absent)
        [source] = .error ⟨"OSError", "File name too long"⟩ := by
  have chars : ∀ s, (Value.string s).text.toList = '"' :: (s.toList ++ ['"']) := by
    simp [Value.text, Expr.quote]
  have literal : (Value.string (.ofList (List.replicate 254 'a'))).IsLiteral Quotable := by
    intro mem
    rw [String.toList_ofList] at mem
    exact absurd (List.eq_of_mem_replicate mem) (by decide)
  have long : 255 < (Value.string (.ofList (List.replicate 254 'a'))).text.utf8ByteSize := by
    rw [Value.text, Expr.quote, String.utf8ByteSize_append, String.utf8ByteSize_append,
      String.utf8ByteSize_ofList]
    decide +kernel
  have plain : ¬ IsOption (Value.string (.ofList (List.replicate 254 'a'))).text := by
    apply not_isOption_of_head
    rw [chars]
    exact (by decide : some '"' ≠ some '-')
  refine ⟨_, rfl, long, ?_, plain, evaluateText_of_literalValue (literalValue_text literal) _, ?_⟩
  · rw [chars, String.toList_ofList]
    decide +kernel
  · apply run_of_raised _ (read_source .standard [] plain rfl) rfl
    · intro same
      rw [same] at long
      exact absurd long (by decide)
    · exact if_pos long

theorem run_agrees_options :
    run (fun _ _ _ => .nothing) .standard "" (fun _ => .absent)
        ["--set", "a=\"--set=x\"", "b", "--const=b=[0]", "--lark"] = .ok ⟨0, "[0]\n", ""⟩ ∧
    run (fun _ _ _ => .nothing) .standard "" (fun _ => .absent)
        ["--set=a=1", "--const", "a=2", "a", "--const=a=3"] =
      .ok ⟨2, "", "Error: Attempting to modify 'a' denied; it was defined as a constant\n"⟩ := by
  have a : IsBindable "a" := ⟨by decide, by decide, by decide +kernel⟩
  have b : IsBindable "b" := ⟨by decide, by decide, by decide +kernel⟩
  constructor
  · obtain ⟨value, -⟩ := @run_agrees _ (fun _ _ _ => .nothing) .standard "" (fun _ => .absent) "b"
      [("a", "\"--set=x\"")] [("b", "[0]")] .grammar _ (by simp [a, b])
      (not_isOption_of_head (by decide)) (by decide) rfl
      (.apart (.source (.together (.grammar .nil))))
    exact value (.integers [0]) (by cbv) rfl
  · obtain ⟨-, -, refused, -⟩ := @run_agrees _ (fun _ _ _ => .nothing) .standard ""
      (fun _ => .absent) "a" [("a", "1")] [("a", "2"), ("a", "3")] .descent _ (by simp [a])
      (not_isOption_of_head (by decide)) (by decide) rfl
      (.together (.apart (.source (.together .nil))))
    exact refused (.constant "a") (by cbv) fun raised h => by cases h

end CommandLine

end Criterion
