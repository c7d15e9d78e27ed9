import Criterion.CommandLine
import Criterion.Text.Quoted

namespace Criterion.CommandLine

/-- Text files by their paths within a directory. -/
structure Directory where
  files : List (String × String)
  deriving DecidableEq, Repr

/-- The steps of a path; empty ones and those that stay where they are do not count. -/
def steps (path : String) : List String :=
  (path.splitOn "/").filter fun step => step != "" && step != "."

/-- The exception that a path raises which is longer than a system takes. -/
def tooLong (path : String) : Escape :=
  ⟨"OSError", "[Errno 36] File name too long: " ++ Text.quoted path⟩

/-- Follows a path, step by step, to a file. A name of more than 255 bytes cannot be looked up. -/
def follow (path : String) (files : List (List String × String)) : List String → Lookup
  | [] => .absent
  | step :: rest =>
    if 255 < step.utf8ByteSize then .raised (tooLong path)
    else
      let reached := files.filterMap fun (steps, text) =>
        match steps with
        | [] => none
        | first :: more => if first = step then some (more, text) else none
      match rest, reached.lookup [] with
      | [], some text => .found text
      | _, some _ => .absent
      | _, none => if reached.isEmpty then .absent else follow path reached rest

/-- Looks for the file that a path leads to. There is nothing but the directory. -/
def Directory.look (d : Directory) (path : String) : Lookup :=
  let root := if path.toList.head? = some '/' then "/" else ""
  let whole := root ++ "/".intercalate (steps path)
  if path.toList.contains '\x00' then .absent
  else if 4095 < whole.utf8ByteSize then .raised (tooLong whole)
  else
    let files := d.files.map fun (name, text) => (steps name, text)
    follow whole (if root = "" then files else []) (steps path)

end Criterion.CommandLine
