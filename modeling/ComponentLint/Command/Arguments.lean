import ComponentLint.Report

/-!
# Command line arguments

Arguments are read from left to right.  An option that takes a value waits for it, and is settled
when the next known argument comes; an argument that is not known is refused at once.

## Main definitions

* `Request` — what a run is asked to do.
* `UsageError` — why arguments are refused.
* `Request.ofArguments args` — the request made by arguments.
-/

namespace ComponentLint

/-- The least severity that is reported. -/
inductive Threshold where
  | error
  | warning
  deriving DecidableEq, Repr

/-- Whether a message of a severity is reported. -/
def Threshold.includes : Threshold → Severity → Bool
  | .error, s => s = .error
  | .warning, _ => true

/-- What a run is asked to do. -/
structure Request where
  /-- The component to be linted. -/
  document : String
  /-- The file with the recorded answers. -/
  session : String
  /-- The file with the settings. -/
  settings : Option String
  format : Format
  threshold : Threshold
  failOnWarnings : Bool
  emitBlocks : Bool
  deriving DecidableEq, Repr

/-- Why arguments are refused, or what is shown instead of a run. -/
inductive UsageError where
  | displayHelp
  | displayVersion
  | missingArgument
  /-- The value of an option is missing or unknown. -/
  | invalidValue
  | unknownArgument
  /-- An option is given twice. -/
  | repeatedArgument
  /-- A value for an option that takes none. -/
  | surplusValue
  deriving DecidableEq, Repr

/-- The options that take a value. -/
inductive Setting where
  | session
  | settings
  | output
  | threshold
  deriving DecidableEq, Repr

/-- The options that take no value. -/
inductive Switch where
  | failOnWarnings
  | emitBlocks
  | help
  | version
  deriving DecidableEq, Repr

/-- The option of a long name. -/
def longOption? (name : String) : Option (Setting ⊕ Switch) :=
  match name with
  | "session" => some (.inl .session)
  | "settings" => some (.inl .settings)
  | "output" => some (.inl .output)
  | "threshold" => some (.inl .threshold)
  | "fail-on-warnings" => some (.inr .failOnWarnings)
  | "emit-blocks" => some (.inr .emitBlocks)
  | "help" => some (.inr .help)
  | "version" => some (.inr .version)
  | _ => none

/-- The format of a name. -/
def Format.ofName? (name : String) : Option Format :=
  match name with
  | "human" => some .human
  | "human-verbose" => some .humanVerbose
  | "json" => some .json
  | "machine" => some .machine
  | _ => none

/-- The threshold of a name. -/
def Threshold.ofName? (name : String) : Option Threshold :=
  match name with
  | "error" => some .error
  | "warning" => some .warning
  | _ => none

/-- What was read of the arguments. -/
structure Draft where
  document : Option String := none
  session : Option String := none
  settings : Option String := none
  format : Option Format := none
  threshold : Option Threshold := none
  failOnWarnings : Bool := false
  emitBlocks : Bool := false
  /-- An option that is not settled yet, and its value if it has come. -/
  waiting : Option (Setting × Option String) := none
  /-- All further arguments are taken as they are. -/
  literal : Bool := false

namespace Draft

/-- Takes a value for what has none yet. -/
def once {α : Type} (old new : Option α) : Except UsageError (Option α) :=
  if old.isSome then .error .repeatedArgument
  else if new.isNone then .error .invalidValue
  else .ok new

/-- Takes the value of an option. -/
def assign (d : Draft) (value : String) : Setting → Except UsageError Draft
  | .session => return { d with session := ← once d.session (some value) }
  | .settings => return { d with settings := ← once d.settings (some value) }
  | .output => return { d with format := ← once d.format (Format.ofName? value) }
  | .threshold => return { d with threshold := ← once d.threshold (Threshold.ofName? value) }

/-- Settles the option that waits, if one does. -/
def settle (d : Draft) : Except UsageError Draft :=
  match d.waiting with
  | none => .ok d
  | some (_, none) => .error .invalidValue
  | some (setting, some value) => { d with waiting := none }.assign value setting

/-- Turns a switch. -/
def turn (d : Draft) : Switch → Except UsageError Draft
  | .help => .error .displayHelp
  | .version => .error .displayVersion
  | .failOnWarnings =>
    if d.failOnWarnings then .error .repeatedArgument else .ok { d with failOnWarnings := true }
  | .emitBlocks =>
    if d.emitBlocks then .error .repeatedArgument else .ok { d with emitBlocks := true }

/-- Reads an argument without dashes. -/
def readPlain (d : Draft) (arg : String) : Except UsageError Draft := do
  if d.document.isSome then .error .unknownArgument
  else return { (← d.settle) with document := some arg }

/-- Reads what follows two dashes. -/
def readLong (d : Draft) (body : List Char) : Except UsageError Draft :=
  let name := String.ofList (body.takeWhile (· ≠ '='))
  let value :=
    match body.dropWhile (· ≠ '=') with
    | [] => none
    | _ :: value => some (String.ofList value)
  match longOption? name, value with
  | none, _ => .error .unknownArgument
  | some (.inl setting), none => return { (← d.settle) with waiting := some (setting, none) }
  | some (.inl setting), some value => do (← d.settle).assign value setting
  | some (.inr _), some _ => .error .surplusValue
  | some (.inr switch), none => do (← d.settle).turn switch

/-- Reads the first letter after one dash. -/
def readShort (d : Draft) (letter : Char) : Except UsageError Draft :=
  if letter = 'h' then do (← d.settle).turn .help
  else if letter = 'V' then do (← d.settle).turn .version
  else .error .unknownArgument

/-- Reads one argument. -/
def read (d : Draft) (arg : String) : Except UsageError Draft :=
  if d.literal then d.readPlain arg
  else
    match arg.toList with
    | ['-', '-'] => .ok { d with literal := true }
    | '-' :: '-' :: body => d.readLong body
    | '-' :: letter :: _ => d.readShort letter
    | _ =>
      match d.waiting with
      | some (setting, none) => .ok { d with waiting := some (setting, some arg) }
      | _ => d.readPlain arg

/-- The request, if nothing is missing. -/
def finish (d : Draft) : Except UsageError Request := do
  let d ← d.settle
  match d.document, d.session with
  | some document, some session =>
    return {
      document := document
      session := session
      settings := d.settings
      format := d.format.getD .human
      threshold := d.threshold.getD .warning
      failOnWarnings := d.failOnWarnings
      emitBlocks := d.emitBlocks }
  | _, _ => .error .missingArgument

end Draft

/-- The request made by arguments. -/
def Request.ofArguments (args : List String) : Except UsageError Request :=
  args.foldlM Draft.read {} >>= Draft.finish

end ComponentLint
