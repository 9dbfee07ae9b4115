import ComponentLint.Lint.Blocks
import ComponentLint.Lint.Session
import ComponentLint.Lint.Transpile

/-!
# Preparing a component for the linter

The document is shown to the compiler, its warnings become messages, and the blocks are cut from
the document.  Styles that the compiler cannot read are hidden from it.  If scripts are to be
transpiled, the compiler sees the transpiled document, while the parts of the component are found
in the document as written, with blank scripts.

## Main definitions

* `Linter` — the toolchain, the settings and the filters of a lint run.
* `Linter.analyse` — what the compiler says about a document.
* `Linter.messagesOfWarnings` — the messages of the compiler's warnings.
* `Linter.prepare` — the session of a document.
-/

namespace ComponentLint

open Markup

/-- The toolchain, the settings and the filters of a lint run. -/
structure Linter where
  tools : Toolchain
  settings : Settings
  /-- Warnings that are dropped besides those of the settings. -/
  dropsWarning : Warning → Bool := fun _ => false
  /-- Styles to be hidden, in place of what the settings say. -/
  styleFilter : Option (Attributes → Bool) := none

/-- What the compiler says about a document. -/
structure Analysis where
  component : Component
  warnings : List Warning
  vars : List Variable
  /-- The document that the compiler saw, if scripts were transpiled. -/
  spliced : Option Spliced

namespace Linter

/-- Which styles are hidden from the compiler, if any. -/
def hiddenStyles? (l : Linter) : Option (Attributes → Bool) :=
  match l.styleFilter, l.settings.styles with
  | some filter, _ => some filter
  | none, .attributes => some Attributes.hasLanguage
  | none, .all => some fun _ => true
  | none, .none => none

/-- The document without the hidden styles. -/
def visibleText (l : Linter) (document : Text) : Text :=
  match l.hiddenStyles? with
  | some filter => blankStyles filter document
  | none => document

/-- Asks the compiler about a text. -/
def askCompile (l : Linter) (text : Text) (onRejection : Rejection → Halt) :
    Consultation Halt Compiled :=
  let options := l.settings.optionsInUse
  .ask (.compile text options) ((l.tools.compile text options).mapError onRejection)

/-- Asks the compiler for the parts of a component. -/
def askParse (l : Linter) (text : Text) : Consultation Halt Component :=
  let options := l.settings.compilerOptions
  .ask (.parse text options) ((l.tools.parse text options).mapError .rejected)

/-- A rejection of the spliced document, moved to the document as written. -/
def relocated (d : Spliced) (r : Rejection) : Halt :=
  match d.relocate r with
  | .ok r => .rejected r
  | .error e => .failed (.sourceMap (.mappings e))

/-- What the compiler says about a document. -/
def analyse (l : Linter) (text : Text) : Consultation Halt Analysis :=
  if l.settings.typescript then
    match l.tools.transpile? with
    | none => .ofResult (.error (.failed .missingTranspiler))
    | some transpile => do
      let spliced ← spliceScripts transpile text
      let compiled ← l.askCompile spliced.generated (relocated spliced)
      let component ← l.askParse (clearScripts text)
      return ⟨component, compiled.warnings, compiled.vars, some spliced⟩
  else do
    let compiled ← l.askCompile text .rejected
    return ⟨compiled.component, compiled.warnings, compiled.vars, none⟩

/-- Whether a warning is dropped. -/
def ignores (l : Linter) (w : Warning) : Bool :=
  l.settings.ignoredWarnings.contains w.code || l.dropsWarning w

/-- The position that is reported for a location of the compiler. -/
def reportedPosition (spliced : Option Spliced) (location : Location) :
    Except MappingError Position :=
  match spliced with
  | some d => d.sourcePosition location
  | none => .ok ⟨location.line, location.column + 1⟩

/-- The message of a warning. -/
def warningMessage (spliced : Option Spliced) (w : Warning) : Except MappingError Message := do
  let start ← w.start.mapM (reportedPosition spliced)
  let stop ← w.stop.mapM (reportedPosition spliced)
  return {
    ruleId := some w.code
    severity := .warning
    text := w.message
    line := (start.map (·.line)).getD 0
    column := (start.map (·.column)).getD 0
    endLine := stop.map (·.line)
    endColumn := stop.map (·.column) }

/-- The messages of the warnings that are not dropped. -/
def messagesOfWarnings (l : Linter) (a : Analysis) : Except MappingError (List Message) :=
  (a.warnings.filter (!l.ignores ·)).mapM (warningMessage a.spliced)

/-- The session of a document that was analysed. -/
def session (l : Linter) (text : Text) (a : Analysis) : Except Failure Session := do
  let messages ← (l.messagesOfWarnings a).mapError fun e => .sourceMap (.mappings e)
  let blocks ←
    (componentBlocks l.settings.typescript l.settings.extension text a.component
      a.vars).mapError .invalidRange
  return ⟨messages, a.vars.map (·.name), blocks, l.settings.namedBlocks⟩

/-- The session of a document.  A document that is refused has a session with one message. -/
def prepare (l : Linter) (document : Text) : Consultation Failure Session :=
  let text := l.visibleText document
  let analysis := l.analyse text
  ⟨analysis.calls,
    match analysis.result with
    | .error (.rejected r) => .ok (.ofRejection r)
    | .error (.failed f) => .error f
    | .ok a => l.session text a⟩

end Linter

end ComponentLint
