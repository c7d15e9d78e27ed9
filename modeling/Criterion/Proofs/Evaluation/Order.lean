import Criterion.Proofs.Evaluation.Rules
import Mathlib.Data.List.Forall2

/-!
The order of evaluation: every node of a tree is worked on after the nodes that it is made of, from
left to right, and the first that has no value ends the evaluation.
-/

namespace Criterion

theorem eq_of_first {α : Type} {p : α → Prop} {x y : α} {xs ys u v : List α}
    (h : xs ++ x :: u = ys ++ y :: v) (hxs : ∀ a ∈ xs, p a) (hys : ∀ a ∈ ys, p a) (hx : ¬ p x)
    (hy : ¬ p y) : xs = ys ∧ x = y := by
  rcases List.append_eq_append_iff.1 h with ⟨_ | ⟨w, ws⟩, rfl, h'⟩ | ⟨_ | ⟨w, ws⟩, rfl, h'⟩
  · exact ⟨(List.append_nil xs).symm, (List.cons.inj h').1⟩
  · exact absurd ((List.cons.inj h').1 ▸ hys w (by simp)) hx
  · exact ⟨List.append_nil ys, (List.cons.inj h').1.symm⟩
  · exact absurd ((List.cons.inj h').1 ▸ hxs w (by simp)) hy

namespace Expr

mutual

/-- The nodes of a tree in the order of evaluation. -/
def nodes : Expr → List Expr
  | unary op operand => operand.nodes ++ [unary op operand]
  | binary left op right => left.nodes ++ (right.nodes ++ [binary left op right])
  | call function arguments =>
    function.nodes ++ (nodesOfAll arguments ++ [call function arguments])
  | program body => body.nodes ++ [program body]
  | e => [e]

def nodesOfAll : List Expr → List Expr
  | [] => []
  | e :: es => e.nodes ++ nodesOfAll es

end

theorem nodes_eq (e : Expr) : e.nodes = nodesOfAll e.parts ++ [e] := by
  cases e <;> simp [nodes, nodesOfAll, parts]

theorem mem_nodesOfAll {node : Expr} {es : List Expr} (h : node ∈ nodesOfAll es) :
    ∃ e ∈ es, node ∈ e.nodes := by
  induction es with
  | nil => cases h
  | cons e es ih =>
    rw [nodesOfAll, List.mem_append] at h
    rcases h with h | h
    · exact ⟨e, List.mem_cons_self .., h⟩
    · obtain ⟨e', mem, h⟩ := ih h
      exact ⟨e', List.mem_cons_of_mem _ mem, h⟩

theorem height_le_of_mem_nodes {node e : Expr} (h : node ∈ e.nodes) : node.height ≤ e.height := by
  induction e using induct_parts with
  | node e ih =>
    rw [nodes_eq, List.mem_append, List.mem_singleton] at h
    rcases h with h | rfl
    · obtain ⟨p, hp, h⟩ := mem_nodesOfAll h
      exact Nat.le_trans (ih p hp h) (height_le_of_mem_parts hp (Nat.le_succ _))
    · exact Nat.le_refl _

def isCall : Expr → Bool
  | call _ _ => true
  | _ => false

end Expr

/-- A node of a tree, and the calls made before it is begun. -/
structure Visit where
  node : Expr
  past : List Call

section

variable [Nesting]

mutual

/-- The nodes of a tree in the order of evaluation, each with the calls made before it. -/
def Expr.visits (host : Host) (r : Registry) (env : Environment) (past : List Call) :
    Expr → List Visit
  | .unary op operand => operand.visits host r env past ++ [⟨.unary op operand, past⟩]
  | .binary left op right =>
    left.visits host r env past ++
      (right.visits host r env (past ++ (evaluate host r env left past).calls) ++
        [⟨.binary left op right, past⟩])
  | .call function arguments =>
    function.visits host r env past ++
      (visitsOfAll host r env (past ++ (evaluate host r env function past).calls) arguments ++
        [⟨.call function arguments, past⟩])
  | .program body => body.visits host r env past ++ [⟨.program body, past⟩]
  | e => [⟨e, past⟩]

def visitsOfAll (host : Host) (r : Registry) (env : Environment) (past : List Call) :
    List Expr → List Visit
  | [] => []
  | e :: es =>
    e.visits host r env past ++
      visitsOfAll host r env (past ++ (evaluate host r env e past).calls) es

end

variable {host : Host} {r : Registry} {env : Environment} {past : List Call}

theorem Expr.visits_eq (e : Expr) :
    e.visits host r env past = visitsOfAll host r env past e.parts ++ [⟨e, past⟩] := by
  cases e <;> simp [visits, visitsOfAll, parts]

theorem nodes_visitsOfAll {es : List Expr}
    (h : ∀ e ∈ es, ∀ past, (e.visits host r env past).map Visit.node = e.nodes) :
    (visitsOfAll host r env past es).map Visit.node = Expr.nodesOfAll es := by
  induction es generalizing past with
  | nil => rw [visitsOfAll, Expr.nodesOfAll, List.map_nil]
  | cons e es ih =>
    obtain ⟨he, hes⟩ := List.forall_mem_cons.1 h
    rw [visitsOfAll, Expr.nodesOfAll, List.map_append, he, ih hes]

theorem Expr.nodes_visits (e : Expr) :
    (e.visits host r env past).map Visit.node = e.nodes := by
  induction e using Expr.induct_parts generalizing past with
  | node e ih =>
    rw [visits_eq, nodes_eq, List.map_append, nodes_visitsOfAll fun p hp _ => ih p hp]
    rfl

variable (host r env) in
def Visit.Yields (visit : Visit) : Prop := ∃ v, visit.node.Yields host r env visit.past v

variable (host r env) in
/-- A node comes to what the rules conclude from the values of its parts, if these have some. -/
def Visit.Regular (visit : Visit) : Prop :=
  ∀ values calls, YieldInTurn host r env visit.past visit.node.parts values calls →
    ∃ own result, visit.node.Concludes host r env (visit.past ++ calls) values own result ∧
      evaluate host r env visit.node visit.past = ⟨calls ++ own, result⟩

variable (host r env) in
def Visit.DividesByZero (visit : Visit) : Prop :=
  ∃ left right a calls, visit.node = .binary left "/" right ∧
    YieldInTurn host r env visit.past [left, right] [.integer a, .integer 0] calls

theorem Expr.regular_of_mem_visits {e : Expr} (h : e.height ≤ Nesting.limit) {visit : Visit}
    (mem : visit ∈ e.visits host r env past) : visit.Regular host r env := by
  have node : visit.node ∈ e.nodes := nodes_visits e ▸ List.mem_map_of_mem mem
  exact fun _ _ => evaluate_concludes (Nat.le_trans (height_le_of_mem_nodes node) h)

def Visit.isCall (visit : Visit) : Bool := visit.node.isCall

variable (host r env) in
/-- A call that a node makes: of the function that its callee comes to, with the values that its
arguments come to, one after the other. -/
def Call.IsOf (c : Call) (visit : Visit) : Prop :=
  ∃ function arguments calls, visit.node = .call function arguments ∧
    YieldInTurn host r env visit.past (function :: arguments) (.function c.builtin :: c.arguments)
      calls

variable (host r env) in
/-- An outcome that goes through some nodes in order. Either all of them come to a value and every
call among them is made, or the outcome is that of the first that does not: after the calls before
that node, and its own if it comes to that. -/
inductive Outcome.Follows {α : Type} (outcome : Outcome α) (visits : List Visit) : Prop
  | through {a : α} (result : outcome.result = .ok a)
      (yields : ∀ visit ∈ visits, visit.Yields host r env)
      (calls : List.Forall₂ (Call.IsOf host r env) outcome.calls (visits.filter Visit.isCall))
  | halts (before : List Visit) (visit : Visit) (after made : List Visit) {halt : Halt}
      (split : visits = before ++ visit :: after) (result : outcome.result = .error halt)
      (yields : ∀ visit ∈ before, visit.Yields host r env)
      (first : (evaluate host r env visit.node visit.past).result = .error halt)
      (calls : List.Forall₂ (Call.IsOf host r env) outcome.calls made)
      (all : before.filter Visit.isCall <+: made)
      (few : made <+: (before ++ [visit]).filter Visit.isCall)

theorem Outcome.Follows.bind {α β : Type} {run : Run α} {next : α → Run β} {us vs : List Visit}
    (h : (run past).Follows host r env us)
    (hn : ∀ a, (run past).result = .ok a →
      (next a (past ++ (run past).calls)).Follows host r env vs) :
    ((run >>= next) past).Follows host r env (us ++ vs) := by
  cases h with
  | halts before visit after made split result yields first calls all few =>
    rw [Run.bind_of_error result]
    have split' : us ++ vs = before ++ visit :: (after ++ vs) := by
      rw [split, List.append_assoc, List.cons_append]
    exact .halts before visit (after ++ vs) made split' rfl yields first calls all few
  | @through a result yields calls =>
    rw [Run.bind_of_ok result]
    cases hn a result with
    | through result' yields' calls' =>
      refine .through result' (List.forall_mem_append.2 ⟨yields, yields'⟩) ?_
      rw [List.filter_append]
      exact List.rel_append calls calls'
    | halts before visit after made split result' yields' first calls' all few =>
      have split' : us ++ vs = (us ++ before) ++ visit :: after := by
        rw [split, List.append_assoc]
      refine .halts (us ++ before) visit after (us.filter Visit.isCall ++ made) split' result'
        (List.forall_mem_append.2 ⟨yields, yields'⟩) first (List.rel_append calls calls') ?_ ?_
      · rw [List.filter_append]
        exact (List.prefix_append_right_inj _).2 all
      · rw [List.append_assoc, List.filter_append]
        exact (List.prefix_append_right_inj _).2 few

theorem Expr.Concludes.exists_made {e : Expr} {values : List Value} {calls own : List Call}
    {result : Except Halt Value} (h : e.Concludes host r env (past ++ calls) values own result)
    (parts : YieldInTurn host r env past e.parts values calls) :
    ∃ made, List.Forall₂ (Call.IsOf host r env) own made ∧
      made <+: [(⟨e, past⟩ : Visit)].filter Visit.isCall ∧
      ∀ v, result = .ok v → made = [(⟨e, past⟩ : Visit)].filter Visit.isCall := by
  cases h with
  | literal h =>
    have other : Visit.isCall ⟨e, past⟩ = false := by
      cases e <;> first | rfl | cases h
    refine ⟨[], .nil, List.nil_prefix, fun _ _ => ?_⟩
    rw [List.filter_cons_of_neg (by simp [other]), List.filter_nil]
  | notFunction => exact ⟨[], .nil, List.nil_prefix, nofun⟩
  | length | host =>
    exact ⟨[⟨_, past⟩], .cons ⟨_, _, calls, rfl, parts⟩ .nil, List.prefix_rfl, fun _ _ => rfl⟩
  | _ => exact ⟨[], .nil, List.nil_prefix, fun _ _ => rfl⟩

theorem conclude_follows {e : Expr} (h : e.height ≤ Nesting.limit) {values : List Value}
    {calls : List Call} (parts : YieldInTurn host r env past e.parts values calls) :
    (e.conclude host r env values (past ++ calls)).Follows host r env [⟨e, past⟩] := by
  have ran := yieldInTurn_iff.1 parts
  have count := length_of_evaluateAllIn (congrArg Outcome.result ran)
  have whole : (evaluate host r env e past).result =
      (e.conclude host r env values (past ++ calls)).result := by
    rw [evaluate_eq h, Run.bind_of_ok (congrArg Outcome.result ran), ran]
  obtain ⟨made, own, few, all⟩ := (concludes_conclude count).exists_made parts
  cases hr : (e.conclude host r env values (past ++ calls)).result with
  | error halt => exact .halts [] _ [] made rfl hr nofun (whole.trans hr) own List.nil_prefix few
  | ok v =>
    refine .through hr ?_ (all v hr ▸ own)
    exact List.forall_mem_singleton.2 ⟨v, Expr.yields_iff.2 (whole.trans hr)⟩

theorem evaluateAll_follows {es : List Expr}
    (h : ∀ e ∈ es, ∀ past, (evaluate host r env e past).Follows host r env
      (e.visits host r env past)) :
    (evaluateAll host r env es past).Follows host r env (visitsOfAll host r env past es) := by
  induction es generalizing past with
  | nil =>
    rw [evaluateAll_nil, visitsOfAll]
    exact .through rfl nofun .nil
  | cons e es ih =>
    obtain ⟨he, hes⟩ := List.forall_mem_cons.1 h
    rw [evaluateAll_cons, visitsOfAll, ← List.append_nil (visitsOfAll host r env _ es)]
    refine (he past).bind fun v _ => (ih hes).bind fun vs _ => ?_
    exact .through rfl nofun .nil

/-- Evaluation goes through the nodes of a tree in order. -/
theorem evaluate_follows {e : Expr} (h : e.height ≤ Nesting.limit) (past : List Call) :
    (evaluate host r env e past).Follows host r env (e.visits host r env past) := by
  induction e using Expr.induct_parts generalizing past with
  | node e ih =>
    have shallow {p : Expr} (hp : p ∈ e.parts) : p.height ≤ Nesting.limit :=
      Expr.height_le_of_mem_parts hp (Nat.le_succ_of_le h)
    rw [evaluate_eq h, Expr.visits_eq]
    refine (evaluateAll_follows fun p hp past => ih p hp (shallow hp) past).bind fun values hv => ?_
    apply conclude_follows h
    exact yieldInTurn_iff.2 (by rw [← hv])

variable (host r env) in
/-- Evaluation is strict, goes from left to right and ends at the first failure. Its nodes are those
of the tree in postorder. The calls made are those of the first calls of the tree, in order, with
the values of their arguments. A tree that has a value has made all of them. A node that is the
first to have no value is what the tree comes to, and no call but those before it, and its own, is
made. And every node whose parts have values comes to what the rules conclude from these. -/
theorem evaluate_in_order {e : Expr} (h : e.height ≤ Nesting.limit) (past : List Call) :
    let visits := e.visits host r env past
    let outcome := evaluate host r env e past
    visits.map Visit.node = e.nodes ∧
    (∃ made, made <+: visits.filter Visit.isCall ∧
      List.Forall₂ (Call.IsOf host r env) outcome.calls made) ∧
    (∀ v, e.Yields host r env past v →
      List.Forall₂ (Call.IsOf host r env) outcome.calls (visits.filter Visit.isCall)) ∧
    (∀ before visit after, visits = before ++ visit :: after →
      (∀ other ∈ before, other.Yields host r env) → ¬ visit.Yields host r env →
        outcome.value = (evaluate host r env visit.node visit.past).value ∧
        ∃ made, before.filter Visit.isCall <+: made ∧
          made <+: (before ++ [visit]).filter Visit.isCall ∧
          List.Forall₂ (Call.IsOf host r env) outcome.calls made) ∧
    ∀ visit ∈ visits, visit.Regular host r env := by
  refine ⟨Expr.nodes_visits e, ?_⟩
  have rules : ∀ visit ∈ e.visits host r env past, visit.Regular host r env :=
    fun _ mem => Expr.regular_of_mem_visits h mem
  cases evaluate_follows h past with
  | through result yields calls =>
    refine ⟨⟨_, List.prefix_rfl, calls⟩, fun _ _ => calls, ?_, rules⟩
    intro before visit after split _ fails
    have mem : visit ∈ e.visits host r env past :=
      split ▸ List.mem_append_right _ (List.mem_cons_self ..)
    exact absurd (yields visit mem) fails
  | halts before visit after made split result yields first calls all few =>
    have fails : ¬ visit.Yields host r env := by
      rintro ⟨v, hv⟩
      rw [Expr.yields_iff, first] at hv
      cases hv
    refine ⟨⟨made, ?_, calls⟩, ?_, ?_, rules⟩
    · have initial : before ++ [visit] <+: e.visits host r env past :=
        ⟨after, by rw [split, List.append_assoc, List.singleton_append]⟩
      exact few.trans (initial.filter _)
    · intro v hv
      rw [Expr.yields_iff, result] at hv
      cases hv
    · intro before' visit' after' split' yields' fails'
      obtain ⟨rfl, rfl⟩ := eq_of_first (split ▸ split') yields yields' fails fails'
      exact ⟨Outcome.value_congr (result.trans first.symm), made, all, few, calls⟩

theorem exists_of_evaluateAll_error {es : List Expr} {halt : Halt}
    (h : (evaluateAll host r env es past).result = .error halt) :
    ∃ e ∈ es, ∃ past', (evaluate host r env e past').result = .error halt ∧
      e.visits host r env past' ⊆ visitsOfAll host r env past es := by
  induction es generalizing past with
  | nil =>
    rw [evaluateAll_nil] at h
    cases h
  | cons e es ih =>
    rw [visitsOfAll]
    cases he : (evaluate host r env e past).result with
    | error halt' =>
      rw [evaluateAll_cons, Run.bind_of_error he] at h
      cases h
      exact ⟨e, List.mem_cons_self .., past, he, List.subset_append_left ..⟩
    | ok v =>
      rw [evaluateAll_cons, Run.bind_of_ok he] at h
      cases hes : (evaluateAll host r env es
        (past ++ (evaluate host r env e past).calls)).result with
      | error halt' =>
        rw [Run.bind_of_error hes] at h
        cases h
        obtain ⟨e', mem, past', he', sub⟩ := ih hes
        exact ⟨e', List.mem_cons_of_mem _ mem, past', he',
          List.subset_append_of_subset_right _ sub⟩
      | ok vs =>
        rw [Run.bind_of_ok hes] at h
        cases h

/-- A tree that comes to a division by zero has a node that divides by zero. -/
theorem exists_of_divisionByZero {e : Expr} (h : e.height ≤ Nesting.limit)
    (zero : (evaluate host r env e past).result = .error (.fault .divisionByZero)) :
    ∃ visit ∈ e.visits host r env past, visit.DividesByZero host r env := by
  induction e using Expr.induct_parts generalizing past with
  | node e ih =>
    rw [Expr.visits_eq]
    rw [evaluate_eq h] at zero
    cases hparts : (evaluateAll host r env e.parts past).result with
    | error halt =>
      rw [Run.bind_of_error hparts] at zero
      cases zero
      obtain ⟨p, hp, past', failed, sub⟩ := exists_of_evaluateAll_error hparts
      have shallow := Expr.height_le_of_mem_parts hp (Nat.le_succ_of_le h)
      obtain ⟨visit, mem, divides⟩ := ih p hp shallow failed
      exact ⟨visit, List.mem_append_left _ (sub mem), divides⟩
    | ok values =>
      rw [Run.bind_of_ok hparts] at zero
      have concludes := @concludes_conclude host r env
        (past ++ (evaluateAll host r env e.parts past).calls) e values
        (length_of_evaluateAllIn hparts)
      rw [zero] at concludes
      obtain ⟨left, right, a, rfl, rfl⟩ := concludes.divides
      have parts : YieldInTurn host r env past [left, right] [.integer a, .integer 0]
          (evaluateAll host r env [left, right] past).calls := by
        apply yieldInTurn_iff.2
        rw [← hparts]
        rfl
      exact ⟨_, List.mem_append_right _ (List.mem_singleton_self _), left, right, a, _, rfl, parts⟩

end

open Nesting

theorem evaluate_in_order_quotient :
    (evaluate (fun _ _ _ => .nothing) .standard .empty
        (.binary (.binary (.integer 1) "/" (.integer 0)) "&&"
          (.call (.identifier "len") [.string "a"])) []).value = .ok (.error "division by zero") ∧
      (evaluate (fun _ _ _ => .nothing) .standard .empty
        (.binary (.binary (.integer 1) "/" (.integer 0)) "&&"
          (.call (.identifier "len") [.string "a"])) []).calls = [] := by
  obtain ⟨-, -, -, order, -⟩ := evaluate_in_order (fun _ _ _ => .nothing) .standard .empty
    (e := .binary (.binary (.integer 1) "/" (.integer 0)) "&&"
      (.call (.identifier "len") [.string "a"])) (by decide) []
  have fails : ¬ Visit.Yields (fun _ _ _ => .nothing) .standard .empty
      ⟨.binary (.integer 1) "/" (.integer 0), []⟩ := by
    rintro ⟨v, hv⟩
    cases Expr.yields_iff.1 hv
  have operands : ∀ visit ∈ [(⟨.integer 1, []⟩ : Visit), ⟨.integer 0, []⟩],
      visit.Yields (fun _ _ _ => .nothing) .standard .empty := by
    intro visit mem
    simp only [List.mem_cons, List.not_mem_nil, or_false] at mem
    rcases mem with rfl | rfl <;> exact ⟨_, Expr.yields_iff.2 rfl⟩
  obtain ⟨value, made, -, none, calls⟩ := order [⟨.integer 1, []⟩, ⟨.integer 0, []⟩]
    ⟨.binary (.integer 1) "/" (.integer 0), []⟩ _ rfl operands fails
  rw [List.prefix_nil.1 none] at calls
  exact ⟨value.trans rfl, List.forall₂_nil_right_iff.1 calls⟩

end Criterion
