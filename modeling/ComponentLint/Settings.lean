import ComponentLint.Json.Decoder

/-!
# Settings

The settings of a lint run are read from the linter's shared settings, where every key carries the
prefix of this tool.  Keys of other tools are skipped, and missing keys have their defaults.

## Main definitions

* `StyleRule` — which `style` elements are hidden from the compiler.
* `Options` — options for the compiler, as free-form values.
* `Settings` — the settings of a lint run.
* `Settings.optionsInUse` — the options the compiler is called with.
-/

namespace ComponentLint

open Json

/-- Which `style` elements are hidden from the compiler. -/
inductive StyleRule where
  /-- Those that declare a language. -/
  | attributes
  | all
  | none
  deriving DecidableEq, Repr

/-- The word for a style rule. -/
def StyleRule.word : StyleRule → String
  | .attributes => "attributes"
  | .all => "all"
  | .none => "none"

/-- The style rule a word stands for. -/
def StyleRule.ofWord? (w : String) : Option StyleRule :=
  [StyleRule.attributes, .all, .none].find? (·.word == w)

/-- Options for the compiler. -/
abbrev Options := Entries Json

/-- The settings of a lint run. -/
structure Settings where
  /-- Scripts are transpiled before they are compiled. -/
  typescript : Bool := false
  /-- Codes of compiler warnings that are dropped. -/
  ignoredWarnings : List String := []
  /-- Which styles are hidden. -/
  styles : StyleRule := .attributes
  /-- Options for the compiler. -/
  compilerOptions : Options := []
  /-- Blocks carry a file name that the linter can see. -/
  namedBlocks : Bool := false

namespace Settings

/-- The file extension of block names. -/
def extension (s : Settings) : String := if s.typescript then "ts" else "js"

/-- The options the compiler is called with: no code is generated, unless the options of the
settings say otherwise. -/
def optionsInUse (s : Settings) : Options :=
  Entries.putAll [("generate", .bool false)] s.compilerOptions

/-- The keys of the settings, in their order. -/
def fields : List Field :=
  [⟨"hamber3/typescript", none⟩, ⟨"hamber3/ignore-warnings", none⟩, ⟨"hamber3/ignore-styles", none⟩,
    ⟨"hamber3/compiler-options", none⟩, ⟨"hamber3/named-blocks", none⟩]

/-- Writes settings. -/
def encode (s : Settings) : Json :=
  .object [("hamber3/typescript", .bool s.typescript),
    ("hamber3/ignore-warnings", .array (s.ignoredWarnings.map Json.string)),
    ("hamber3/ignore-styles", .string s.styles.word),
    ("hamber3/compiler-options", .object s.compilerOptions),
    ("hamber3/named-blocks", .bool s.namedBlocks)]

/-- Reads settings. -/
def decode : Decoder Settings := fun n j => do
  let r ← Decoder.row fields n j
  return {
    typescript := ← r.orElse "hamber3/typescript" false Decoder.bool
    ignoredWarnings := ← r.orElse "hamber3/ignore-warnings" [] (Decoder.list Decoder.string)
    styles :=
      ← r.orElse "hamber3/ignore-styles" StyleRule.attributes (Decoder.choice StyleRule.ofWord?)
    compilerOptions := ← r.orElse "hamber3/compiler-options" [] (Decoder.entries Decoder.value)
    namedBlocks := ← r.orElse "hamber3/named-blocks" false Decoder.bool }

/-- The settings written in a text. -/
def parse? (t : Text) : Option Settings := Decoder.ofText decode t

end Settings

end ComponentLint
