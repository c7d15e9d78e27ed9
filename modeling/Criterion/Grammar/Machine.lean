import Criterion.Grammar.Draft

/-!
The machine that recognises the grammar: it takes one lexeme after the other, keeps what is not yet
complete on a stack, and puts an operator's draft together as soon as the next lexeme shows that
its right operand is complete. It stops at the first lexeme with which no condition can go on.
-/

namespace Criterion.Grammar

/-- The level of the terminals between two operands, loosest first. -/
def Terminal.level? : Terminal → Option Nat
  | andSign | orSign => some 1
  | equality => some 2
  | relation => some 3
  | sum => some 4
  | product | inWord => some 5
  | _ => none

/-- What waits for more on the stack: a negation for its operand, an operator for its right operand,
a parenthesis or a call for what it encloses. -/
inductive Frame
  | negation (sign : String)
  | pending (left : Draft) (level : Nat) (sign : String)
  | group
  | call (function : Draft) (arguments : List Draft)
  deriving Repr

/-- What the machine is in the middle of: it needs an operand or has just had one, or it needs an
array element or has just had one. -/
inductive Machine
  | operand (stack : List Frame)
  | after (stack : List Frame) (d : Draft)
  | element (stack : List Frame) (elements : List Lexeme)
  | afterElement (stack : List Frame) (elements : List Lexeme)
  deriving Repr

namespace Machine

def start : Machine := operand []

/-- Completes what binds an operand at least as tightly as an operator of the given level. -/
def settle (level : Nat) : List Frame → Draft → List Frame × Draft
  | .negation sign :: stack, d => settle level stack (.negation sign d)
  | .pending left l sign :: stack, d =>
    if level ≤ l then settle level stack (.binary left sign d)
    else (.pending left l sign :: stack, d)
  | stack, d => (stack, d)

def stepOperand (stack : List Frame) (l : Lexeme) : Option Machine :=
  match l.terminal with
  | .bang => some (operand (.negation l.text :: stack))
  | .leftParen => some (operand (.group :: stack))
  | .leftBracket => some (element stack [])
  | .word => some (after stack (.word l.text))
  | .number => some (after stack (.number l.text))
  | .quotation => some (after stack (.quotation l))
  | .trueWord => some (after stack (.truth true))
  | .falseWord => some (after stack (.truth false))
  | .rightParen =>
    match stack with
    | .call function [] :: stack => some (after stack (.call function []))
    | _ => none
  | _ => none

def stepAfter (stack : List Frame) (d : Draft) (l : Lexeme) : Option Machine :=
  match l.terminal.level? with
  | some level =>
    let (stack, d) := settle level stack d
    some (operand (.pending d level l.text :: stack))
  | none =>
    match l.terminal with
    | .leftParen => some (operand (.call d [] :: stack))
    | .rightParen =>
      match settle 0 stack d with
      | (.group :: stack, d) => some (after stack d)
      | (.call function arguments :: stack, d) =>
        some (after stack (.call function (arguments ++ [d])))
      | _ => none
    | .comma =>
      match settle 0 stack d with
      | (.call function arguments :: stack, d) =>
        some (operand (.call function (arguments ++ [d]) :: stack))
      | _ => none
    | _ => none

def stepElement (stack : List Frame) (elements : List Lexeme) (l : Lexeme) : Option Machine :=
  match l.terminal with
  | .number | .quotation => some (afterElement stack (elements ++ [l]))
  | .rightBracket => if elements.isEmpty then some (after stack (.array [])) else none
  | _ => none

def stepAfterElement (stack : List Frame) (elements : List Lexeme) (l : Lexeme) :
    Option Machine :=
  match l.terminal with
  | .comma => some (element stack elements)
  | .rightBracket => some (after stack (.array elements))
  | _ => none

def step (m : Machine) (l : Lexeme) : Option Machine :=
  match m with
  | operand stack => stepOperand stack l
  | after stack d => stepAfter stack d l
  | element stack elements => stepElement stack elements l
  | afterElement stack elements => stepAfterElement stack elements l

/-- The machine past several lexemes, or the first one that the grammar does not allow. -/
def run (m : Machine) : List Lexeme → Except Lexeme Machine
  | [] => .ok m
  | l :: ls =>
    match m.step l with
    | some m => m.run ls
    | none => .error l

/-- The draft of all that was taken, if the grammar allows it to end here. -/
def finish : Machine → Option Draft
  | after stack d =>
    match settle 0 stack d with
    | ([], d) => some d
    | _ => none
  | _ => none

def drafter : Drafter := fun ls =>
  match start.run ls with
  | .error l => .error (some l)
  | .ok m =>
    match m.finish with
    | some d => .ok d
    | none => .error none

end Machine

/-- The draft of a source text. At the end of the text the place of its last lexeme is blamed. -/
def draft (drafter : Drafter) (source : String) : Except Refusal Draft :=
  if Text.isAllBlank source then .error .empty
  else
    let (ls, stray) := lexemes .start source.toList
    match drafter ls, stray with
    | .error (some l), _ => .error (.unexpected l.position (.lexeme l))
    | _, some s => .error (.unexpected s.position (.character s.character))
    | .error none, none =>
      .error (.unexpected ((ls.getLast?.map (·.position)).getD .start) .endOfInput)
    | .ok d, none => .ok d

def tree [Nesting] (drafter : Drafter) (source : String) : Except Refusal Expr := do
  let d ← draft drafter source
  d.resolve Nesting.limit

end Criterion.Grammar
