import ComponentLint.Command.Arguments
import ComponentLint.Recording

/-!
# Running a request

A run reads the component, the settings and the recording, in this order, repeats the lint run
with the recorded answers, and prints a report.

## Main definitions

* `ReadError` — why a file cannot be read.
* `RunError` — why a run gives up.
* `Printed` — what a run prints.
* `Request.run read request` — the run of a request over the files that `read` gives.
-/

namespace ComponentLint

/-- Why a file cannot be read. -/
inductive ReadError where
  | notFound
  | isDirectory
  /-- The file does not hold UTF-8 text. -/
  | notText
  | other (reason : String)
  deriving DecidableEq, Repr

/-- The wording of a read error. -/
def ReadError.message : ReadError → String
  | .notFound => "No such file or directory (os error 2)"
  | .isDirectory => "Is a directory (os error 21)"
  | .notText => "stream did not contain valid UTF-8"
  | .other reason => reason

/-- Why a run gives up. -/
inductive RunError where
  /-- The component or the settings cannot be read. -/
  | unreadable (path : String) (e : ReadError)
  /-- The recording cannot be read. -/
  | unreadableSession (path : String) (e : ReadError)
  | invalidSettings (path : String)
  | invalidSession (path : String)
  | failed (f : Failure)
  deriving DecidableEq, Repr

/-- The wording of a run error. -/
def RunError.message : RunError → String
  | .unreadable path e | .unreadableSession path e => "failed to read " ++ path ++ ": " ++ e.message
  | .invalidSettings path => "invalid settings " ++ path
  | .invalidSession path => "invalid session " ++ path
  | .failed f => f.message

/-- What a run prints, and how it ends. -/
structure Printed where
  out : String
  err : String
  tally : Tally
  failed : Bool
  deriving DecidableEq, Repr

/-- The blocks of a session as they are shown. -/
def Session.renderBlocks (s : Session) : String :=
  String.join <| s.blocks.map fun block =>
    "=== Block " ++ block.1 ++ " ===\n" ++ String.ofList block.2.code ++ "\n"

namespace Request

/-- The settings of a run. -/
def readSettings (request : Request) (read : String → Except ReadError Text) :
    Except RunError Settings :=
  match request.settings with
  | none => .ok {}
  | some path => do
    let text ← (read path).mapError (.unreadable path)
    match Settings.parse? text with
    | some settings => .ok settings
    | none => .error (.invalidSettings path)

/-- The recording of a run. -/
def readRecording (request : Request) (read : String → Except ReadError Text) :
    Except RunError Recording := do
  let text ← (read request.session).mapError (.unreadableSession request.session)
  match Recording.parse? text with
  | some recording => .ok recording
  | none => .error (.invalidSession request.session)

/-- Runs a request over the files that `read` gives. -/
def run (request : Request) (read : String → Except ReadError Text) :
    Except RunError Printed := do
  let source ← (read request.document).mapError (.unreadable request.document)
  let settings ← request.readSettings read
  let recording ← request.readRecording read
  let linter : Linter := { tools := recording.toolchain, settings := settings }
  let session ← (linter.prepare source).result.mapError .failed
  let messages :=
    (recording.report session).filter fun m => request.threshold.includes m.severity
  let tally := Tally.ofMessages messages
  return {
    out := request.format.render request.document source messages
    err := if request.emitBlocks then session.renderBlocks else ""
    tally := tally
    failed := tally.fails request.failOnWarnings }

end Request

end ComponentLint
