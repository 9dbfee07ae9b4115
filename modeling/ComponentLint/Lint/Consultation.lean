import ComponentLint.Compiler.Basic
import ComponentLint.Settings
import ComponentLint.SourceMap.Splice

/-!
# Consulting the compiler and the transpiler

The compiler and the transpiler are given as functions.  A computation that consults them keeps
the list of what it asked, in order, beside its result.

## Main definitions

* `Toolchain` — the compiler, and the transpiler if there is one.
* `Failure` — why a document could not be prepared, through no fault of its own.
* `Halt` — a rejection of the document, or a failure.
* `Call` — a question to the compiler or the transpiler.
* `Consultation ε α` — the questions asked, and the result.
-/

namespace ComponentLint

/-- The programs that are consulted. -/
structure Toolchain where
  /-- Analyses a component. -/
  compile : Text → Options → Except Rejection Compiled
  /-- Finds the parts of a component. -/
  parse : Text → Options → Except Rejection Component
  /-- Turns the body of a script into one that the compiler understands. -/
  transpile? : Option (Text → Except Rejection Transpiled)

/-- Why a document could not be prepared, through no fault of its own. -/
inductive Failure where
  /-- A source map cannot be used. -/
  | sourceMap (e : SourceMapError)
  /-- The compiler reports a range that the document does not have. -/
  | invalidRange (range : Span)
  /-- Scripts have to be transpiled, and there is no transpiler. -/
  | missingTranspiler
  deriving DecidableEq, Repr

/-- The wording of a failure. -/
def Failure.message : Failure → String
  | .sourceMap e => e.message
  | .invalidRange range =>
    "range " ++ toString range.start ++ ".." ++ toString range.stop
      ++ " is not a valid range of the document"
  | .missingTranspiler => "TypeScript support is enabled but no transpiler was provided"

/-- Why the analysis of a document stops. -/
inductive Halt where
  /-- The compiler or the transpiler refused it. -/
  | rejected (r : Rejection)
  | failed (f : Failure)
  deriving DecidableEq, Repr

/-- A question to the compiler or the transpiler. -/
inductive Call where
  | compile (text : Text) (options : Options)
  | parse (text : Text) (options : Options)
  | transpile (body : Text)

/-- The questions that were asked, in order, and the result. -/
structure Consultation (ε α : Type) where
  calls : List Call
  result : Except ε α

namespace Consultation

variable {ε α β : Type}

/-- A result without a question. -/
def ofResult (r : Except ε α) : Consultation ε α := ⟨[], r⟩

/-- The answer to one question. -/
def ask (call : Call) (answer : Except ε α) : Consultation ε α := ⟨[call], answer⟩

/-- Goes on with a result, if there is one. -/
def andThen (c : Consultation ε α) (next : α → Consultation ε β) : Consultation ε β :=
  match c.result with
  | .error e => ⟨c.calls, .error e⟩
  | .ok a => ⟨c.calls ++ (next a).calls, (next a).result⟩

instance : Monad (Consultation ε) where
  pure a := ⟨[], .ok a⟩
  bind := andThen

end Consultation

end ComponentLint
