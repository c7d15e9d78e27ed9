namespace Criterion

inductive BinaryOp
  | and | or
  | equal | notEqual
  | less | lessEqual | greater | greaterEqual
  | add | subtract
  | multiply | divide | member
  deriving DecidableEq, Repr

namespace BinaryOp

/-- Every operator, loosest first. -/
def all : List BinaryOp :=
  [and, or, equal, notEqual, less, lessEqual, greater, greaterEqual, add, subtract, multiply,
   divide, member]

def text : BinaryOp → String
  | and => "&&"
  | or => "||"
  | equal => "=="
  | notEqual => "!="
  | less => "<"
  | lessEqual => "<="
  | greater => ">"
  | greaterEqual => ">="
  | add => "+"
  | subtract => "-"
  | multiply => "*"
  | divide => "/"
  | member => "in"

def ofText? (s : String) : Option BinaryOp := all.find? (·.text == s)

@[simp] theorem ofText?_text (op : BinaryOp) : ofText? op.text = some op := by
  cases op <;> rfl

theorem text_of_ofText? {s : String} {op : BinaryOp} (h : ofText? s = some op) : op.text = s := by
  simpa using List.find?_some h

/-- How tightly an operator binds. -/
def precedence : BinaryOp → Nat
  | and | or => 2
  | equal | notEqual => 3
  | less | lessEqual | greater | greaterEqual => 4
  | add | subtract => 5
  | multiply | divide | member => 6

end BinaryOp

inductive UnaryOp
  | not
  deriving DecidableEq, Repr

namespace UnaryOp

def text : UnaryOp → String
  | not => "!"

def ofText? (s : String) : Option UnaryOp := if s = not.text then some not else none

@[simp] theorem ofText?_text (op : UnaryOp) : ofText? op.text = some op := by
  cases op; rfl

theorem text_of_ofText? {s : String} {op : UnaryOp} (h : ofText? s = some op) : op.text = s := by
  cases op
  simp only [ofText?] at h
  split at h
  · next e => exact e.symm
  · contradiction

end UnaryOp

namespace Precedence

/-- What nothing binds more loosely than: the whole of an expression. -/
def lowest : Nat := 1

def unary : Nat := 7

def call : Nat := 8

end Precedence

end Criterion
