import Criterion.Expr.Text
import Criterion.Registry

/-!
Type checking. A tree has a kind if its operators and calls fit the kinds of their operands; what
only evaluation can tell has the kind `unknown`, which fits everywhere. The first fault ends the
check.
-/

namespace Criterion

inductive TypeFault
  | empty
  | unsupported (kind : String)
  | unknownUnary (op : String)
  | operand (op : UnaryOp) (found : Kind)
  | unknownBinary (op : String)
  | leftOperand (left : Expr) (op : BinaryOp) (right : Expr) (found : Kind)
  | rightOperand (op : BinaryOp) (wanted found : Kind)
  | unknownFunction (name : String)
  | arity (name : String) (wanted : List Nat) (found : Nat)
  | noOverload (name : String) (found : List Kind)
  | nestedTooDeeply
  | noText (kind : String)
  deriving DecidableEq, Repr

/-- Several numbers as a choice: their texts in ascending order, each once. -/
def choiceText (numbers : List Nat) : String :=
  let texts := numbers.map fun (n : Nat) => Text.decimal n
  " or ".intercalate (texts.foldl (·.insert · ()) Table.empty).names

def TypeFault.message : TypeFault → String
  | .empty => "empty condition expression"
  | .unsupported kind => "unsupported node kind " ++ kind
  | .unknownUnary op => "unknown prefix operator '" ++ op ++ "'"
  | .operand op found =>
    "prefix operator '" ++ op.text ++ "' expects " ++ Kind.boolean.label ++ ", got " ++ found.label
  | .unknownBinary op => "unknown infix operator '" ++ op ++ "'"
  | .leftOperand left op right found =>
    "infix expression " ++ (Expr.binary left op.text right).text ++
      ": unsupported left operand type " ++ found.label
  | .rightOperand op wanted found =>
    "infix operator '" ++ op.text ++ "' expects right operand of type " ++ wanted.label ++
      ", got " ++ found.label
  | .unknownFunction name => "unknown function '" ++ name ++ "'"
  | .arity name wanted found =>
    "function '" ++ name ++ "' expects " ++ choiceText wanted ++ " argument(s), got " ++
      Text.decimal found
  | .noOverload name found =>
    "no overload of '" ++ name ++ "' accepts argument types (" ++ Kind.labels found ++ ")"
  | .nestedTooDeeply => "expression nested too deeply"
  | .noText kind => "'" ++ kind ++ "' object has no attribute 'render'"

/-- Whether a fault is no finding about a tree, but ends the check of it. -/
def TypeFault.interrupts : TypeFault → Bool
  | .nestedTooDeeply | .noText _ => true
  | _ => false

/-- Operands that an operator takes, and the kind of its result. -/
structure OperandRule where
  left : Kind
  right : Kind
  result : Kind
  deriving DecidableEq, Repr

namespace BinaryOp

/-- The operands that an operator takes: at most one rule for each kind on the left. -/
def rules : BinaryOp → List OperandRule
  | less | lessEqual | greater | greaterEqual =>
    [⟨.integer, .integer, .boolean⟩, ⟨.string, .string, .boolean⟩]
  | equal | notEqual =>
    [⟨.integer, .integer, .boolean⟩, ⟨.string, .string, .boolean⟩, ⟨.boolean, .boolean, .boolean⟩]
  | and | or => [⟨.boolean, .boolean, .boolean⟩]
  | member => [⟨.integer, .integerArray, .boolean⟩, ⟨.string, .stringArray, .boolean⟩]
  | add => [⟨.integer, .integer, .integer⟩, ⟨.string, .string, .string⟩]
  | subtract | multiply | divide => [⟨.integer, .integer, .integer⟩]

def ruleFor? (op : BinaryOp) (left : Kind) : Option OperandRule :=
  op.rules.find? (·.left == left)

def soleKind? : List Kind → Option Kind
  | [] => none
  | kind :: kinds => if kinds.all (· == kind) then some kind else none

/-- The kind of a result when an operand is unknown: the only one that the operator has, else the
one that the known operand leaves over. -/
def resultOfUnknown (op : BinaryOp) (left right : Kind) : Kind :=
  match soleKind? (op.rules.map (·.result)) with
  | some kind => kind
  | none =>
    match if left = .unknown then none else op.ruleFor? left with
    | some rule => rule.result
    | none =>
      if right = .unknown then .unknown
      else (soleKind? ((op.rules.filter (·.right == right)).map (·.result))).getD .unknown

end BinaryOp

/-- Whether arguments of the found kinds can be passed where others are declared. -/
def Signature.accepts (s : Signature) (found : List Kind) : Bool :=
  (s.arguments.zip found).all fun (want, got) => got == .unknown || got == want

/-- The kind of a call to a function with the given signatures, of which one must have the right
number of arguments and accept their kinds. A wrong argument makes the call wrong without a fault of
its own. -/
def callKind (name : String) (candidates : List Signature) (found : List Kind) :
    Except TypeFault Kind :=
  if found.contains .error then .ok .error
  else match candidates.find? (·.accepts found) with
    | some s => .ok s.result
    | none => .error (.noOverload name found)

def UnaryOp.kindFor (op : UnaryOp) (operand : Kind) : Except TypeFault Kind :=
  match operand with
  | .unknown | .boolean => .ok .boolean
  | .error => .ok .error
  | found => .error (.operand op found)

def BinaryOp.kindFor (left : Expr) (op : BinaryOp) (right : Expr) (l r : Kind) :
    Except TypeFault Kind :=
  if l = .error || r = .error then .ok .error
  else if l = .unknown || r = .unknown then .ok (op.resultOfUnknown l r)
  else match op.ruleFor? l with
    | none => .error (.leftOperand left op right l)
    | some rule =>
      if rule.right = r then .ok rule.result else .error (.rightOperand op rule.right r)

mutual

/-- The kind of a tree whose functions are those of a registry, or the first fault met from left to
right with `room` levels of nesting left. -/
def kindOf (r : Registry) (room : Nat) (e : Expr) : Except TypeFault Kind :=
  match room with
  | 0 => .error .nestedTooDeeply
  | room + 1 =>
    match e with
    | .integer _ => .ok .integer
    | .string _ => .ok .string
    | .boolean _ => .ok .boolean
    | .integers _ => .ok .integerArray
    | .strings _ => .ok .stringArray
    | .identifier _ => .ok .unknown
    | .program body => kindOf r room body
    | .unary sign operand =>
      match UnaryOp.ofText? sign with
      | none => .error (.unknownUnary sign)
      | some op => do op.kindFor (← kindOf r room operand)
    | .binary left sign right =>
      match BinaryOp.ofText? sign with
      | none => .error (.unknownBinary sign)
      | some op => do
        let found ← kindOf r room left
        let found' ← kindOf r room right
        BinaryOp.kindFor left op right found found'
    | .call function arguments =>
      if room < function.height then .error .nestedTooDeeply
      else
        match function.render with
        | .error kind => .error (.noText kind)
        | .ok name =>
          let overloads := r.signatures name
          if overloads.isEmpty then .error (.unknownFunction name)
          else
            let candidates := overloads.filter (·.arguments.length == arguments.length)
            if candidates.isEmpty then
              .error (.arity name (overloads.map (·.arguments.length)) arguments.length)
            else do callKind name candidates (← kindsOf r room arguments)
    | .absent => .error .empty
    | .foreign kind _ => .error (.unsupported kind)

def kindsOf (r : Registry) (room : Nat) (es : List Expr) : Except TypeFault (List Kind) :=
  match es with
  | [] => .ok []
  | e :: es => do
    let kind ← kindOf r room e
    let kinds ← kindsOf r room es
    return kind :: kinds

end

/-- The kind of a tree and the list of messages that checking it leaves, unless something ends the
check. With messages there already the tree is not checked at all. -/
def checkAfter [Nesting] (messages : List String) (r : Registry) (e : Expr) :
    Except TypeFault (Kind × List String) :=
  if messages.isEmpty then
    match kindOf r Nesting.limit e with
    | .ok kind => .ok (kind, [])
    | .error fault =>
      if fault.interrupts then .error fault else .ok (.error, [fault.message])
  else .ok (.error, messages)

def check [Nesting] (r : Registry) (e : Expr) : Except TypeFault (Kind × List String) :=
  checkAfter [] r e

end Criterion
