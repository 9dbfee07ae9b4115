import ComponentLint.Position
import ComponentLint.Template.Node
import ComponentLint.Text.Basic

/-!
# What the compiler and the transpiler answer

Both run outside this library.  Their answers are plain data that can be recorded.

## Main definitions

* `Rejection` — why the compiler or the transpiler refused its input.
* `Warning`, `Variable` — what the compiler says about a component.
* `Component` — where the scripts and the template of a component stand.
* `Compiled` — the answer of the compiler.
* `Transpiled` — the answer of the transpiler for one script body.
-/

namespace ComponentLint

/-- Why the compiler or the transpiler refused its input. -/
structure Rejection where
  /-- The kind of error, which serves as the rule of its message. -/
  kind : String
  message : String
  start : Option Location := none
  stop : Option Location := none
  deriving DecidableEq, Repr

/-- The wording of a rejection. -/
def Rejection.description (r : Rejection) : String := r.kind ++ ": " ++ r.message

/-- A warning of the compiler. -/
structure Warning where
  code : String
  message : String
  start : Option Location := none
  stop : Option Location := none
  deriving DecidableEq, Repr

/-- A variable of a component. -/
structure Variable where
  name : String := ""
  /-- It is used somewhere in the component. -/
  referenced : Bool := false
  /-- It is used in a script. -/
  referencedFromScript : Bool := false
  /-- It is assigned to after its declaration. -/
  reassigned : Bool := false
  /-- The name of the property, if it is exported. -/
  exportName : Option String := none
  /-- It is provided by the compiler. -/
  injected : Bool := false
  /-- It is declared in the module script. -/
  inModule : Bool := false
  deriving DecidableEq, Repr

/-- Whether a variable is the subscription to a store. -/
def Variable.isSubscription (v : Variable) : Bool := v.name.toList.head? == some '$'

/-- The parts of a component: the bodies of its two scripts, and its template. -/
structure Component where
  moduleScript : Option Span := none
  instanceScript : Option Span := none
  template : Option Node := none

/-- The answer of the compiler. -/
structure Compiled where
  component : Component
  warnings : List Warning := []
  vars : List Variable := []

/-- The answer of the transpiler for one script body. -/
structure Transpiled where
  /-- The generated body. -/
  output : Text
  /-- The text of its source map. -/
  sourceMap : Text
  deriving DecidableEq, Repr

end ComponentLint
