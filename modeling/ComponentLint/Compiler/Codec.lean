import ComponentLint.Compiler.Basic
import ComponentLint.Template.Codec

/-!
# Answers of the compiler and the transpiler in JSON

## Main definitions

* `encode` and `decode` for `Location`, `Rejection`, `Warning`, `Variable`, `Component`,
  `Compiled` and `Transpiled`.
-/

namespace ComponentLint

open Json

namespace Location

/-- Writes a location. -/
def encode (l : Location) : Json :=
  .object [("line", .ofNat l.line), ("column", .ofNat l.column)]

/-- Reads a location. -/
def decode : Decoder Location := fun n j => do
  let r ← Decoder.row [⟨"line", none⟩, ⟨"column", none⟩] n j
  return ⟨← r.required "line" Decoder.word, ← r.required "column" Decoder.word⟩

end Location

namespace Rejection

/-- Writes a rejection. -/
def encode (r : Rejection) : Json :=
  .object [("kind", .string r.kind), ("message", .string r.message),
    ("start", orNull Location.encode r.start), ("end", orNull Location.encode r.stop)]

/-- Reads a rejection.  Its kind may go by `name`. -/
def decode : Decoder Rejection := fun n j => do
  let r ← Decoder.row
    [⟨"kind", some "name"⟩, ⟨"message", none⟩, ⟨"start", none⟩, ⟨"end", none⟩] n j
  return {
    kind := ← r.required "kind" Decoder.string
    message := ← r.required "message" Decoder.string
    start := ← r.optional "start" Location.decode
    stop := ← r.optional "end" Location.decode }

end Rejection

namespace Warning

/-- Writes a warning. -/
def encode (w : Warning) : Json :=
  .object [("code", .string w.code), ("message", .string w.message),
    ("start", orNull Location.encode w.start), ("end", orNull Location.encode w.stop)]

/-- Reads a warning. -/
def decode : Decoder Warning := fun n j => do
  let r ← Decoder.row [⟨"code", none⟩, ⟨"message", none⟩, ⟨"start", none⟩, ⟨"end", none⟩] n j
  return {
    code := ← r.required "code" Decoder.string
    message := ← r.required "message" Decoder.string
    start := ← r.optional "start" Location.decode
    stop := ← r.optional "end" Location.decode }

end Warning

namespace Variable

/-- Writes a variable. -/
def encode (v : Variable) : Json :=
  .object <|
    [("name", .string v.name), ("referenced", .bool v.referenced),
      ("referenced_from_script", .bool v.referencedFromScript), ("reassigned", .bool v.reassigned)]
    ++ memberIfSome "export_name" Json.string v.exportName
    ++ [("injected", .bool v.injected), ("module", .bool v.inModule)]

/-- Reads a variable.  Every field may be missing. -/
def decode : Decoder Variable := fun n j => do
  let r ← Decoder.row
    [⟨"name", none⟩, ⟨"referenced", none⟩, ⟨"referenced_from_script", none⟩, ⟨"reassigned", none⟩,
      ⟨"export_name", none⟩, ⟨"injected", none⟩, ⟨"module", none⟩] n j
  return {
    name := ← r.orElse "name" "" Decoder.string
    referenced := ← r.orElse "referenced" false Decoder.bool
    referencedFromScript := ← r.orElse "referenced_from_script" false Decoder.bool
    reassigned := ← r.orElse "reassigned" false Decoder.bool
    exportName := ← r.optional "export_name" Decoder.string
    injected := ← r.orElse "injected" false Decoder.bool
    inModule := ← r.orElse "module" false Decoder.bool }

end Variable

/-! ### Components -/

/-- Writes the body of a script. -/
def encodeScript (body : Span) : Json :=
  .object [("content", .object [("start", .ofNat body.start), ("end", .ofNat body.stop)])]

/-- Reads the range of a script body. -/
def decodeProgram : Decoder Span := fun n j => do
  let r ← Decoder.row [⟨"start", none⟩, ⟨"end", none⟩] n j
  return ⟨← r.required "start" Decoder.word, ← r.required "end" Decoder.word⟩

/-- Reads a script. -/
def decodeScript : Decoder Span := fun n j => do
  let r ← Decoder.row [⟨"content", none⟩] n j
  r.required "content" decodeProgram

namespace Component

/-- Writes the parts of a component. -/
def encode (c : Component) : Json :=
  .object [("module", orNull encodeScript c.moduleScript),
    ("instance", orNull encodeScript c.instanceScript),
    ("html", orNull Node.encode c.template)]

/-- Reads the parts of a component. -/
def decode : Decoder Component := fun n j => do
  let r ← Decoder.row [⟨"module", none⟩, ⟨"instance", none⟩, ⟨"html", none⟩] n j
  return {
    moduleScript := ← r.optional "module" decodeScript
    instanceScript := ← r.optional "instance" decodeScript
    template := ← r.optional "html" Node.decode }

end Component

namespace Compiled

/-- Writes the answer of the compiler. -/
def encode (c : Compiled) : Json :=
  .object [("ast", c.component.encode), ("warnings", .array (c.warnings.map Warning.encode)),
    ("vars", .array (c.vars.map Variable.encode))]

/-- Reads the answer of the compiler. -/
def decode : Decoder Compiled := fun n j => do
  let r ← Decoder.row [⟨"ast", none⟩, ⟨"warnings", none⟩, ⟨"vars", none⟩] n j
  return {
    component := ← r.required "ast" Component.decode
    warnings := ← r.orElse "warnings" [] (Decoder.list Warning.decode)
    vars := ← r.orElse "vars" [] (Decoder.list Variable.decode) }

end Compiled

namespace Transpiled

/-- Writes the answer of the transpiler. -/
def encode (t : Transpiled) : Json :=
  .object [("outputText", ofText t.output), ("sourceMapText", ofText t.sourceMap)]

/-- Reads the answer of the transpiler. -/
def decode : Decoder Transpiled := fun n j => do
  let r ← Decoder.row [⟨"outputText", none⟩, ⟨"sourceMapText", none⟩] n j
  return ⟨← r.required "outputText" Decoder.text, ← r.required "sourceMapText" Decoder.text⟩

end Transpiled

end ComponentLint
