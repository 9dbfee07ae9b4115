import ComponentLint.Block.Keep
import ComponentLint.Block.Restore
import ComponentLint.Compiler.Basic

/-!
# Lint sessions

What is kept of a component while the linter works on its blocks: the compiler's messages, the
variables of the component, and the blocks.

## Main definitions

* `Session` — the state between preparing a component and reporting on it.
* `Session.ofRejection r` — the session of a component that was refused.
* `Block.restoreMessages b names messages` — messages on a block, moved to the document.
* `Session.report s lists` — the messages for the user.
-/

namespace ComponentLint

/-- The state between preparing a component and reporting on it. -/
structure Session where
  /-- The messages of the compiler. -/
  messages : List Message := []
  /-- The names of the component's variables. -/
  names : List String := []
  /-- The blocks with their file names, in the order in which the linter sees them. -/
  blocks : List (String × Block) := []
  /-- Whether the linter sees the file names. -/
  namedBlocks : Bool := false
  deriving DecidableEq, Repr

/-- The message of a rejection. -/
def Rejection.toMessage (r : Rejection) : Message where
  ruleId := some r.kind
  severity := .error
  text := r.message
  line := (r.start.map (·.line)).getD 0
  column := (r.start.map (·.column + 1)).getD 0
  endLine := r.stop.map (·.line)
  endColumn := r.stop.map (·.column + 1)

/-- Messages on a block, moved to the document.  Messages on lines that no fragment covers, and
messages that come from the scaffolding, are dropped. -/
def Block.restoreMessages (b : Block) (names : List String) (messages : List Message) :
    List Message :=
  messages.filterMap fun m =>
    match b.placementAt? m.line with
    | none => none
    | some p => if p.keeps b names m then some (p.restore b m) else none

namespace Session

/-- The session of a component that was refused: one message, and nothing to lint. -/
def ofRejection (r : Rejection) : Session where
  messages := [r.toMessage]

/-- The names of the variables, in order and without repetition. -/
def sortedNames (s : Session) : List String :=
  (s.names.mergeSort fun a b => !decide (b < a)).eraseDups

/-- The file name under which the linter sees a block. -/
def visibleName? (s : Session) (name : String) : Option String :=
  if s.namedBlocks then some name else none

/-- The messages for the user, given the messages of the linter on each block: those of the
compiler and those on the blocks, by line and column. -/
def report (s : Session) (lists : List (List Message)) : List Message :=
  Message.sort <|
    s.messages ++ (s.blocks.zip lists).flatMap fun (block, messages) =>
      block.2.restoreMessages s.names messages

end Session

end ComponentLint
