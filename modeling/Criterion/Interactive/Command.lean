namespace Criterion.Interactive

inductive Command
  | set | const | env | tree | reset | clear | traceback | help
  deriving DecidableEq, Repr

namespace Command

def all : List Command := [set, const, env, tree, reset, clear, traceback, help]

def name : Command → String
  | set => "/set"
  | const => "/const"
  | env => "/env"
  | tree => "/tree"
  | reset => "/reset"
  | clear => "/clear"
  | traceback => "/py-traceback"
  | help => "/help"

def description : Command → String
  | set => "Bind a name to a literal"
  | const => "Bind a read-only name to a literal"
  | env => "Show current bindings"
  | tree => "Toggle AST dump before each result"
  | reset => "Reset the REPL environment"
  | clear => "Clear the terminal screen"
  | traceback => "Toggle Python traceback on errors"
  | help => "List commands"

def arguments : Command → String
  | set | const => "NAME LITERAL"
  | tree | traceback => "[on|off]"
  | env | reset | clear | help => ""

def ofName? (word : String) : Option Command := all.find? (·.name == word)

@[simp] theorem ofName?_name (c : Command) : ofName? c.name = some c := by
  cases c <;> rfl

theorem name_of_ofName? {word : String} {c : Command} (h : ofName? word = some c) :
    c.name = word := by
  simpa using List.find?_some h

def synopsis (c : Command) : String :=
  if c.arguments = "" then c.name else c.name ++ " " ++ c.arguments

def columnWidth : Nat := 28

def helpLine (c : Command) : String :=
  String.ofList (c.synopsis.toList.rightpad columnWidth ' ') ++ " " ++ c.description

def usage (c : Command) : String := "Usage: " ++ c.synopsis

end Command

/-- A way to complete the text before the cursor: what it becomes, how many of its characters that
replaces, and a description. -/
structure Completion where
  text : String
  replaced : Nat
  description : String
  deriving DecidableEq, Repr

def completions (text : String) : List Completion :=
  if text.toList.head? = some '/' then
    (Command.all.filter fun c => text.toList.isPrefixOf c.name.toList).map fun c =>
      ⟨c.name, text.length, c.description⟩
  else []

end Criterion.Interactive
