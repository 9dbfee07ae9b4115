import ComponentLint.Compiler.Codec
import ComponentLint.Lint.Prepare

/-!
# Recordings

What the compiler, the transpiler and the linter answered for one component, so that a lint run
can be repeated without them.

## Main definitions

* `Recording` — the recorded answers.
* `Recording.decode`, `Recording.parse?` — reads a recording.
* `Recording.toolchain` — the compiler and transpiler that repeat the answers.
* `Recording.messagesOf` — the linter's messages for blocks.
* `Recording.report` — the messages for the user, with the recorded messages of the linter.
-/

namespace ComponentLint

open Json

/-- A recorded answer, which may be a rejection: an object with an `error`, or else an answer. -/
def decodeReply {α : Type} (d : Decoder α) : Decoder (Except Rejection α) :=
  let rejection : Decoder Rejection := fun n j => do
    let r ← Decoder.memberRow [⟨"error", none⟩] n j
    r.required "error" Rejection.decode
  Decoder.captured (Decoder.orElse (Decoder.map .error rejection) (Decoder.map .ok d))

/-- The recorded answers for one component. -/
structure Recording where
  /-- The answer of the compiler. -/
  compile : Except Rejection Compiled
  /-- The parts of the component, if they were asked for on their own. -/
  parse : Option Component
  /-- The answers of the transpiler, by script body. -/
  transpile : Entries (Except Rejection Transpiled)
  /-- The messages of the linter, by block name. -/
  messages : Entries (List Message)

namespace Recording

/-- Reads a recording. -/
def decode : Decoder Recording := fun n j => do
  let r ← Decoder.row
    [⟨"compile", none⟩, ⟨"parse", none⟩, ⟨"transpile", none⟩, ⟨"messages", none⟩] n j
  return {
    compile := ← r.required "compile" (decodeReply Compiled.decode)
    parse := ← r.optional "parse" Component.decode
    transpile := ← r.orElse "transpile" [] (Decoder.entries (decodeReply Transpiled.decode))
    messages := ← r.orElse "messages" [] (Decoder.entries (Decoder.list Message.decode)) }

/-- The recording written in a text. -/
def parse? (t : Text) : Option Recording := Decoder.ofText decode t

/-- The answer to a question for the parts of the component: that of the compiler, unless it was
recorded on its own. -/
def parts (r : Recording) : Except Rejection Component :=
  match r.parse with
  | some c => .ok c
  | none => r.compile.map (·.component)

/-- The rejection of a script body for which nothing was recorded. -/
def unrecordedScript : Rejection where
  kind := "TranspileError"
  message := "no transpile output was recorded for this script"

/-- The recorded answer of the transpiler for a script body. -/
def transpiled (answers : Entries (Except Rejection Transpiled)) (body : Text) :
    Except Rejection Transpiled :=
  (answers.get? (String.ofList body)).getD (.error unrecordedScript)

/-- The compiler and transpiler that repeat the recorded answers. -/
def toolchain (r : Recording) : Toolchain where
  compile _ _ := r.compile
  parse _ _ := r.parts
  transpile? := some (transpiled r.transpile)

/-- The messages of the linter for each of the named blocks. -/
def messagesOf (r : Recording) (names : List String) : List (List Message) :=
  names.map fun name => (r.messages.get? name).getD []

/-- The messages for the user in a session with the recorded messages of the linter. -/
def report (r : Recording) (s : Session) : List Message :=
  s.report (r.messagesOf (s.blocks.map Prod.fst))

end Recording

end ComponentLint
