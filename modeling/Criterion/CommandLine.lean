import Criterion.Condition

/-!
The command line: a condition with names bound to literals, whose truth becomes the exit code.
-/

namespace Criterion.CommandLine

/-- What becomes of looking for a file: there is none, its text is read, or the attempt raises an
exception. -/
inductive Lookup
  | absent
  | found (text : String)
  | raised (e : Escape)
  deriving DecidableEq, Repr

def usage : String :=
  "usage: condexpr [--set NAME=LITERAL] [--const NAME=LITERAL] [--tree] [--lark] EXPR|FILE|-"

/-- What the arguments ask for. -/
structure Request where
  environment : Environment
  showTree : Bool
  front : FrontEnd
  source : Option String

def Request.start : Request := ⟨.empty, false, .descent, none⟩

/-- What can be wrong with the use of the command line. -/
inductive UsageFault
  | missingBinding (option : String)
  | malformedBinding (option binding : String)
  | unexpected (argument : String)
  | noInput
  deriving DecidableEq, Repr

def UsageFault.message : UsageFault → String
  | .missingBinding option => option ++ " flag requires NAME=LITERAL"
  | .malformedBinding option binding =>
    option ++ " expects NAME=LITERAL, got " ++ Text.quoted binding
  | .unexpected argument => "Unexpected argument: " ++ argument
  | .noInput => "No input provided on stdin"

/-- Why a command has no result. -/
inductive Trouble
  | usage (fault : UsageFault)
  | failure (f : Failure)
  deriving DecidableEq, Repr

/-- What a command leaves behind. -/
structure Response where
  code : Nat
  output : String
  errors : String
  deriving DecidableEq, Repr

def Response.report (messages : List String) : Response :=
  ⟨2, "", String.join (messages.map fun message => "Error: " ++ message ++ "\n")⟩

/-- The response to a command that has no result. It does not handle exceptions that are none of the
program's own. -/
def Trouble.response : Trouble → Except Escape Response
  | usage fault => .ok (.report [fault.message])
  | failure (.raised e) => .error e
  | failure f => .ok (.report f.messages)

/-- The options that bind a name, and whether they make it a constant. -/
def bindingOptions : List (String × Bool) := [("--set", false), ("--const", true)]

/-- A name and a literal from the text between which an equals sign stands. -/
def binding (option text : String) : Except Trouble (String × String) :=
  match Text.splitAt? '=' text with
  | none => .error (.usage (.malformedBinding option text))
  | some (name, literal) =>
    if Text.strip name = "" then .error (.usage (.malformedBinding option text))
    else .ok (Text.strip name, literal)

namespace Request

def bind [Nesting] (r : Registry) (request : Request) (option : String) (isConstant : Bool)
    (text : String) : Except Trouble Request := do
  let entry ← binding option text
  let env ← (request.environment.assignLiteral r isConstant entry).mapError .failure
  return { request with environment := env }

/-- Adds the arguments of a command to a request, from left to right. There is no request if help is
asked for before anything is wrong. -/
def read [Nesting] (r : Registry) (request : Request) :
    List String → Except Trouble (Option Request)
  | [] => .ok (some request)
  | argument :: rest =>
    if argument = "-h" || argument = "--help" then .ok none
    else if argument = "--tree" then read r { request with showTree := true } rest
    else if argument = "--lark" then read r { request with front := .grammar } rest
    else
      let parts := Text.splitAt? '=' argument
      let option := (parts.map (·.1)).getD argument
      match bindingOptions.lookup option, parts with
      | some isConstant, some (_, text) => do
        read r (← request.bind r option isConstant text) rest
      | some isConstant, none =>
        match rest with
        | [] => .error (.usage (.missingBinding option))
        | text :: rest => do read r (← request.bind r option isConstant text) rest
      | none, _ =>
        match request.source with
        | none => read r { request with source := some argument } rest
        | some _ => .error (.usage (.unexpected argument))

/-- The name under which a file is looked for, unless the source comes from the input. -/
def fileName? (request : Request) : Option String := request.source.filter (· != "-")

/-- Line ends of all conventions as line feeds. -/
def unifyLineEnds : List Char → List Char
  | '\r' :: '\n' :: rest => '\n' :: unifyLineEnds rest
  | '\r' :: rest => '\n' :: unifyLineEnds rest
  | c :: rest => c :: unifyLineEnds rest
  | [] => []

/-- The source of the condition: the input, or the file of the given name if there is one, or else
the argument itself. -/
def sourceText (request : Request) (input : String) (look : String → Lookup) :
    Except Trouble String :=
  match request.fileName? with
  | none => if input = "" then .error (.usage .noInput) else .ok input
  | some argument =>
    match look argument with
    | .absent => .ok argument
    | .found text => .ok (String.ofList (unifyLineEnds text.toList))
    | .raised e => .error (.failure (.raised e))

def respond : Value → Response
  | .error message => ⟨2, "", (Value.error message).text ++ "\n"⟩
  | v => ⟨if v.isTruthy then 0 else 1, v.text ++ "\n", ""⟩

def carryOut [Nesting] (host : Host) (r : Registry) (input : String) (look : String → Lookup)
    (request : Request) : Except Trouble Response := do
  let source ← request.sourceText input look
  let c ← (Condition.compile request.front r source).mapError .failure
  if request.showTree then return ⟨0, c.dump, ""⟩
  else return respond (← (c.evaluate host r request.environment []).value.mapError .failure)

end Request

/-- The response to the arguments of a command, unless an exception ends it. -/
def run [Nesting] (host : Host) (r : Registry) (input : String) (look : String → Lookup)
    (arguments : List String) : Except Escape Response :=
  let result : Except Trouble Response := do
    match ← Request.start.read r arguments with
    | none => return ⟨0, usage ++ "\n", ""⟩
    | some request => request.carryOut host r input look
  match result with
  | .ok response => .ok response
  | .error trouble => trouble.response

end Criterion.CommandLine
