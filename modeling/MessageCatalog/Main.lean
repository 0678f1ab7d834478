import MessageCatalog.CommandLine.Run

/-!
# The command line

Reads the file that the arguments name, runs the command and writes what it answers. What the user
can mend is written to the error output, with status two.
-/
namespace MessageCatalog.CommandLine

def usage : String :=
  "usage: message-catalog tokens TEXT\n" ++
  "       message-catalog parse TEXT\n" ++
  "       message-catalog render FILE KEY [--var NAME=VALUE ...]\n" ++
  "       message-catalog keys FILE\n"

def Request.file? : Request → Option String
  | .command (.render file _ _) | .command (.keys file) => some file
  | _ => none

def contentOf (path : String) : IO (Option String) := do
  try
    return some (← IO.FS.readFile path)
  catch _ =>
    return none

def report (outcome : Outcome) : IO UInt32 := do
  match outcome with
  | .printed output =>
    IO.print output
    return 0
  | .refused message =>
    IO.eprintln message
    return 2
  | .information =>
    IO.print usage
    return 0
  | .misuse =>
    IO.eprint usage
    return 2
  | .crashed error =>
    IO.eprintln (error.message?.getD "a phrase was misused")
    return 1
  | .unwritable _ =>
    IO.eprintln "the answer cannot be written as JSON"
    return 1

end MessageCatalog.CommandLine

open MessageCatalog.CommandLine in
def main (arguments : List String) : IO UInt32 := do
  let content ← match (Request.ofArguments arguments).file? with
    | some path => contentOf path
    | none => pure none
  report (run (fun _ => content) arguments)
