import Criterion.Operator

/-!
Condition trees. The parsers build the first nine forms only, with operators of the language; a tree
that a host builds by hand may have any operator text, a whole program where an expression is due,
nothing at all, or an object that is no tree.
-/

namespace Criterion

inductive Expr
  | identifier (name : String)
  | integer (value : Int)
  | boolean (value : Bool)
  | string (value : String)
  | integers (values : List Int)
  | strings (values : List String)
  | unary (op : String) (operand : Expr)
  | binary (left : Expr) (op : String) (right : Expr)
  | call (function : Expr) (arguments : List Expr)
  | program (body : Expr)
  | absent
  | foreign (kind : String) (identity : Nat)
  deriving Repr, Inhabited

/-- How many levels of nesting are worked on before a condition counts as nested too deeply. There
is room for a program of one literal at least. -/
class Nesting where
  limit : Nat
  two_lt : 2 < limit

namespace Nesting

theorem exists_room [Nesting] : ∃ room, limit = room + 2 :=
  Nat.exists_eq_add_of_le' (Nat.le_of_lt two_lt)

/-- A stack of a thousand calls, two of them to a level and some to spare. -/
scoped instance usual : Nesting := ⟨480, by decide⟩

end Nesting

namespace Expr

/-- The program with a body, which is absent where parsing left nothing usable. -/
def ofBody (body : Option Expr) : Expr := .program (body.getD .absent)

def isLiteral : Expr → Bool
  | integer _ | boolean _ | string _ | integers _ | strings _ => true
  | _ => false

mutual

def height : Expr → Nat
  | unary _ operand => operand.height + 1
  | binary left _ right => max left.height right.height + 1
  | call function arguments => max function.height (heights arguments) + 1
  | program body => body.height + 1
  | identifier _ | integer _ | boolean _ | string _ | integers _ | strings _ | absent
  | foreign _ _ => 1

def heights : List Expr → Nat
  | [] => 0
  | e :: es => max e.height (heights es)

end

mutual

def same : Expr → Expr → Bool
  | identifier a, identifier b => a == b
  | integer a, integer b => a == b
  | boolean a, boolean b => a == b
  | string a, string b => a == b
  | integers a, integers b => a == b
  | strings a, strings b => a == b
  | unary o e, unary p f => o == p && same e f
  | binary l o r, binary m p s => same l m && o == p && same r s
  | call f as, call g bs => same f g && sameAll as bs
  | program e, program f => same e f
  | absent, absent => true
  | foreign k i, foreign l j => k == l && i == j
  | _, _ => false

def sameAll : List Expr → List Expr → Bool
  | [], [] => true
  | e :: es, f :: fs => same e f && sameAll es fs
  | _, _ => false

end

mutual

theorem same_iff : ∀ e f : Expr, same e f ↔ e = f
  | identifier _, f => by cases f <;> simp [same]
  | integer _, f => by cases f <;> simp [same]
  | boolean _, f => by cases f <;> simp [same]
  | string _, f => by cases f <;> simp [same]
  | integers _, f => by cases f <;> simp [same]
  | strings _, f => by cases f <;> simp [same]
  | unary _ e, f => by cases f <;> simp [same, same_iff e]
  | binary l _ r, f => by cases f <;> simp [same, same_iff l, same_iff r, and_assoc]
  | call g as, f => by cases f <;> simp [same, same_iff g, sameAll_iff as]
  | program e, f => by cases f <;> simp [same, same_iff e]
  | absent, f => by cases f <;> simp [same]
  | foreign _ _, f => by cases f <;> simp [same]

theorem sameAll_iff : ∀ es fs : List Expr, sameAll es fs ↔ es = fs
  | [], fs => by cases fs <;> simp [sameAll]
  | e :: es, fs => by cases fs <;> simp [sameAll, same_iff e, sameAll_iff es]

end

instance : DecidableEq Expr := fun e f => decidable_of_iff _ (same_iff e f)

end Expr

end Criterion
