import Criterion.Condition
import Criterion.Interactive.Command

/-!
Interactive sessions: one line after the other, each a command or a condition to be evaluated with
the names that commands have bound.
-/

namespace Criterion.Interactive

/-- What lasts from line to line: what is bound and switched on, and the calls made so far. -/
structure Session where
  environment : Environment
  showTree : Bool
  showTraceback : Bool
  calls : List Call

def Session.start : Session := ⟨.empty, false, false, []⟩

inductive Event
  | output (text : String)
  | error (text : String)
  | clear
  | escape (e : Escape)
  deriving DecidableEq, Repr

namespace Event

def say (line : String) : Event := output (line ++ "\n")

def complain (line : String) : Event := error (line ++ "\n")

end Event

def onSpellings : List String := ["on", "1", "true", "yes"]

def offSpellings : List String := ["off", "0", "false", "no"]

/-- What a switch becomes: what the argument says, or the opposite where there is none. -/
def switch? (argument : String) (current : Bool) : Option Bool :=
  if onSpellings.contains argument.toLower then some true
  else if offSpellings.contains argument.toLower then some false
  else if argument = "" then some !current
  else none

def stateName (isOn : Bool) : String := if isOn then "on" else "off"

namespace Session

def assign [Nesting] (r : Registry) (session : Session) (c : Command) (isConstant : Bool)
    (argument : String) : Session × List Event :=
  let (name, rest) := (Text.splitAt? ' ' argument).getD (argument, "")
  let literal := Text.strip rest
  if name = "" || literal = "" then (session, [.complain c.usage])
  else
    let result : Except Failure (Environment × Value) := do
      let v ← literalValue r literal
      return (← session.environment.assign isConstant name v, v)
    match result with
    | .ok (env, v) => ({ session with environment := env }, [.say (name ++ " = " ++ v.text)])
    | .error f => (session, [.complain ("Error: " ++ f.message)])

def listing (env : Environment) : List String :=
  if env.bindings.entries.isEmpty then ["(no bindings)"]
  else env.bindings.entries.map (Environment.entryText " = ")

def perform [Nesting] (r : Registry) (session : Session) (c : Command) (argument : String) :
    Session × List Event :=
  match c with
  | .set => session.assign r c false argument
  | .const => session.assign r c true argument
  | .env => (session, (listing session.environment).map .say)
  | .tree =>
    match switch? argument session.showTree with
    | some isOn => ({ session with showTree := isOn }, [.say ("AST dump: " ++ stateName isOn)])
    | none => (session, [.complain c.usage])
  | .reset => ({ session with environment := .empty }, [.say "Environment reset."])
  | .clear => (session, [.clear])
  | .traceback =>
    match switch? argument session.showTraceback with
    | some isOn =>
      ({ session with showTraceback := isOn }, [.say ("Python traceback: " ++ stateName isOn)])
    | none => (session, [.complain c.usage])
  | .help => (session, Command.all.map fun c => .say c.helpLine)

/-- The word and the argument of a line that calls for a command. -/
def commandOf? (line : String) : Option (String × String) :=
  let text := Text.strip line
  if text.toList.head? = some '/' then some (Text.splitWord text) else none

def command? [Nesting] (r : Registry) (session : Session) (line : String) :
    Option (Session × List Event) :=
  (commandOf? line).map fun (word, argument) =>
    match Command.ofName? word with
    | some c => session.perform r c argument
    | none => (session, [.complain ("Unknown command: " ++ word)])

/-- Characters that cannot be seen and are not meant to be there. -/
def isInvisible (c : Char) : Bool :=
  c = '\u200b' || c = '\u200c' || c = '\u200d' || c = '\ufeff' || c = '\u00a0' || c = '\r'

def visible (line : String) : String := String.ofList (line.toList.filter (!isInvisible ·))

/-- What follows from a line: the events, and the text of a result if there is one, unless an
exception escapes. -/
structure Turn where
  session : Session
  events : List Event
  result : Except Escape (Option String)

def Turn.quiet (session : Session) (events : List Event) : Turn := ⟨session, events, .ok none⟩

def report (f : Failure) : List Event :=
  f.messages.map fun message => .complain ("Error: " ++ message)

def evaluate [Nesting] (host : Host) (r : Registry) (session : Session) (line : String) : Turn :=
  match Condition.compile .descent r line with
  | .error f => .quiet session (report f)
  | .ok c =>
    let tree := if session.showTree then [Event.output c.dump] else []
    let outcome := c.evaluate host r session.environment session.calls
    let session := { session with calls := session.calls ++ outcome.calls }
    match outcome.value with
    | .ok v => ⟨session, tree, .ok (some v.text)⟩
    | .error (.raised e) => ⟨session, tree, .error e⟩
    | .error f => .quiet session (tree ++ report f)

def take [Nesting] (host : Host) (r : Registry) (session : Session) (line : String) : Turn :=
  let line := visible line
  if Text.isAllBlank line then .quiet session []
  else match session.command? r line with
    | some (session, events) => .quiet session events
    | none => session.evaluate host r line

end Session

inductive Input
  | line (text : String)
  | interrupt
  deriving DecidableEq, Repr

def greeting : String := "condexpr repl (Ctrl-D to exit, /help for commands)"

def prompt : String := ">>> "

namespace Session

def react [Nesting] (host : Host) (r : Registry) (session : Session) : Input → Turn
  | .line text => session.take host r text
  | .interrupt => .quiet session [.say "KeyboardInterrupt"]

/-- The events of a session from some state on, up to the end of what comes from the keyboard or an
exception. -/
def events [Nesting] (host : Host) (r : Registry) (session : Session) : List Input → List Event
  | [] => [.output prompt, .say ""]
  | input :: inputs =>
    let turn := session.react host r input
    .output prompt :: turn.events ++
      match turn.result with
      | .ok result => result.toList.map .say ++ turn.session.events host r inputs
      | .error e => [.escape e]

end Session

def transcript [Nesting] (host : Host) (r : Registry) (inputs : List Input) : List Event :=
  .say greeting :: Session.start.events host r inputs

/-- What several events write to the output; `cleared` stands for the clearing of the screen. -/
def outputText (cleared : String) (events : List Event) : String :=
  String.join (events.map fun
    | .output text => text
    | .clear => cleared
    | .error _ | .escape _ => "")

def errorText (events : List Event) : String :=
  String.join (events.map fun
    | .error text => text
    | .escape e => e.kind ++ ": " ++ e.message ++ "\n"
    | .output _ | .clear => "")

end Criterion.Interactive
