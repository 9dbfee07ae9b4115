import ComponentLint.Command.Run

/-!
# The command line program
-/

namespace ComponentLint

/-- Reads a file. -/
def readText (path : String) : IO (Except ReadError Text) := do
  try
    let bytes ← IO.FS.readBinFile path
    match String.fromUTF8? bytes with
    | some s => return .ok s.toList
    | none => return .error .notText
  catch
    | .noFileOrDirectory .. => return .error .notFound
    | .inappropriateType .. => return .error .isDirectory
    | e => return .error (.other (toString e))

/-- How the program is called. -/
def usage : String :=
  "Usage: hamber-lint [--settings FILE] [--output human|human-verbose|json|machine] "
    ++ "[--threshold error|warning] [--fail-on-warnings] [--emit-blocks] --session FILE DOCUMENT"

/-- What is printed when arguments are refused, and the exit code. -/
def UsageError.answer : UsageError → String × UInt32
  | .displayHelp => (usage, 0)
  | .displayVersion => ("hamber-lint 0.3.1", 0)
  | .missingArgument => ("error: a required argument is missing\n" ++ usage, 2)
  | .invalidValue => ("error: the value of an option is missing or unknown\n" ++ usage, 2)
  | .unknownArgument => ("error: an argument is unknown\n" ++ usage, 2)
  | .repeatedArgument => ("error: an option is given twice\n" ++ usage, 2)
  | .surplusValue => ("error: an option does not take a value\n" ++ usage, 2)

/-- Runs a request over the files on disk. -/
def runRequest (request : Request) : IO UInt32 := do
  let paths := [request.document, request.session] ++ request.settings.toList
  let files ← paths.mapM fun path => do return (path, ← readText path)
  let read (path : String) := (files.lookup path).getD (.error .notFound)
  match request.run read with
  | .ok printed =>
    IO.eprint printed.err
    IO.print printed.out
    return if printed.failed then 1 else 0
  | .error e =>
    IO.eprintln ("Error: " ++ e.message)
    return 1

end ComponentLint

open ComponentLint in
/-- Runs the program with its arguments. -/
def main (args : List String) : IO UInt32 :=
  match Request.ofArguments args with
  | .ok request => runRequest request
  | .error e => do
    let (text, code) := e.answer
    if code = 0 then IO.println text else IO.eprintln text
    return code
