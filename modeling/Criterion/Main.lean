import Criterion.CommandLine
import Criterion.Interactive.Session
import Criterion.Settings

namespace Criterion

open Nesting

def noHost : Host := fun _ _ _ => .nothing

def lookForFile (name : String) : IO CommandLine.Lookup := do
  try return .found (← IO.FS.readFile name)
  catch
    | .noFileOrDirectory .. | .inappropriateType .. => return .absent
    | e => return .raised ⟨"OSError", toString e⟩

/-- Writes a response, or the exception that ended the command, and gives the exit code. -/
def deliver : Except Escape CommandLine.Response → IO UInt32
  | .ok response => do
    (← IO.getStdout).putStr response.output
    (← IO.getStderr).putStr response.errors
    return response.code.toUInt32
  | .error e => do
    (← IO.getStderr).putStr (e.kind ++ ": " ++ e.message ++ "\n")
    return 1

def runCommand (arguments : List String) : IO UInt32 := do
  let name? := match CommandLine.Request.start.read .standard arguments with
    | .ok (some request) => some request.fileName?
    | _ => none
  let input ← if name? = some none then (← IO.getStdin).readToEnd else pure ""
  let file ← match name?.join with
    | some name => lookForFile name
    | none => pure .absent
  deliver (CommandLine.run noHost .standard input (fun _ => file) arguments)

def showEvent : Interactive.Event → IO Unit
  | .output text => do (← IO.getStdout).putStr text
  | .error text => do (← IO.getStderr).putStr text
  | .clear => do (← IO.getStdout).putStr "\x1b[2J\x1b[H"
  | .escape e => do (← IO.getStderr).putStr (e.kind ++ ": " ++ e.message ++ "\n")

/-- Goes on with a session until the input ends, or an exception escapes. -/
partial def converse (session : Interactive.Session) : IO UInt32 := do
  showEvent (.output Interactive.prompt)
  (← IO.getStdout).flush
  let line ← (← IO.getStdin).getLine
  if line = "" then
    showEvent (.say "")
    return 0
  else
    let text := if line.endsWith "\n" then (line.dropEnd 1).toString else line
    let turn := session.react noHost .standard (.line text)
    turn.events.forM showEvent
    match turn.result with
    | .ok result =>
      result.toList.forM fun text => showEvent (.say text)
      converse turn.session
    | .error e =>
      showEvent (.escape e)
      return 1

def runSession : IO UInt32 := do
  let flag := Settings.isOn (← IO.getEnv "CONDEXPR_DEBUG_PY_TRACE")
  showEvent (.say Interactive.greeting)
  converse { Interactive.Session.start with showTraceback := flag }

end Criterion

def main (arguments : List String) : IO UInt32 := do
  if (← IO.appPath).toString.endsWith "repl" then Criterion.runSession
  else Criterion.runCommand arguments
