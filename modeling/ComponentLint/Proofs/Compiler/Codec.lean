import ComponentLint.Compiler.Codec
import ComponentLint.Proofs.Template.Codec

/-!
# Answers of the compiler are read again

All records in an answer of the compiler are stable, except for ambiguous patterns in its template:
what an answer is written as reads as the same answer.

## Main definitions

* `Component.Unambiguous c`, `Compiled.Unambiguous c` — the template has no pattern that can be read
  as a list of nodes.

## Main statements

* `Location.stable`, `Warning.stable`, `Variable.stable`, `Component.stable`, `Compiled.stable` —
  records are read again from what they are written as.
* `Compiled.unambiguous_of_decode_encode` — only an unambiguous answer is.
* `Compiled.unambiguous_of_isValue` — an answer read from a document without repeated names is
  unambiguous.
-/

namespace ComponentLint

open Json Json.Decoder Json.Row

/-! ### Locations, warnings and variables -/

namespace Location

theorem decode_eq_some_iff {n : Nesting} {j : Json} {l : Location} :
    decode n j = some l ↔ ∃ r, Decoder.row [⟨"line", none⟩, ⟨"column", none⟩] n j = some r ∧
      r.required "line" word = some l.line ∧ r.required "column" word = some l.column := by
  rw [decode]
  simp only [Option.bind_eq_bind, Option.bind_eq_some_iff, Option.pure_def, Option.some.injEq]
  constructor
  · rintro ⟨r, hr, line, hline, column, hcolumn, rfl⟩
    exact ⟨r, hr, hline, hcolumn⟩
  · rintro ⟨r, hr, hline, hcolumn⟩
    exact ⟨r, hr, _, hline, _, hcolumn, rfl⟩

theorem stable (l : Location) : Stable decode encode l := by
  refine .record (l := [("line", some (.ofNat l.line)), ("column", some (.ofNat l.column))])
    decode_eq_some_iff rfl (by decide) rfl ?_
  rintro r ⟨hline, hcolumn⟩
  have line := Keeps.required hline (stable_word _)
  have column := Keeps.required hcolumn (stable_word _)
  refine ⟨fun hget => ?_, fun n hfits => ?_⟩
  · exact ⟨line.reread ((hget _).trans rfl), column.reread ((hget _).trans rfl)⟩
  · simp only [List.forall_mem_cons]
    exact ⟨line.value hfits, column.value hfits, List.forall_mem_nil _⟩

theorem neverNull (l : Location) : NeverNull decode encode l := by
  intro _ _ _ _ h
  cases h

end Location

namespace Warning

theorem decode_eq_some_iff {n : Nesting} {j : Json} {w : Warning} :
    decode n j = some w ↔ ∃ r, Decoder.row
        [⟨"code", none⟩, ⟨"message", none⟩, ⟨"start", none⟩, ⟨"end", none⟩] n j = some r ∧
      r.required "code" Decoder.string = some w.code ∧
      r.required "message" Decoder.string = some w.message ∧
      r.optional "start" Location.decode = some w.start ∧
      r.optional "end" Location.decode = some w.stop := by
  rw [decode]
  simp only [Option.bind_eq_bind, Option.bind_eq_some_iff, Option.pure_def, Option.some.injEq]
  constructor
  · rintro ⟨r, hr, code, hcode, message, hmessage, start, hstart, stop, hstop, rfl⟩
    exact ⟨r, hr, hcode, hmessage, hstart, hstop⟩
  · rintro ⟨r, hr, hcode, hmessage, hstart, hstop⟩
    exact ⟨r, hr, _, hcode, _, hmessage, _, hstart, _, hstop, rfl⟩

theorem stable (w : Warning) : Stable decode encode w := by
  refine .record (l := [("code", some (.string w.code)), ("message", some (.string w.message)),
      ("start", some (orNull Location.encode w.start)),
      ("end", some (orNull Location.encode w.stop))])
    decode_eq_some_iff rfl (by decide) rfl ?_
  rintro r ⟨hcode, hmessage, hstart, hstop⟩
  have code := Keeps.required hcode (stable_string _)
  have message := Keeps.required hmessage (stable_string _)
  have start := Keeps.orNull hstart (fun l _ => l.stable) (fun l _ => l.neverNull)
  have stop := Keeps.orNull hstop (fun l _ => l.stable) (fun l _ => l.neverNull)
  refine ⟨fun hget => ?_, fun n hfits => ?_⟩
  · exact ⟨code.reread ((hget _).trans rfl), message.reread ((hget _).trans rfl),
      start.reread ((hget _).trans rfl), stop.reread ((hget _).trans rfl)⟩
  · simp only [List.forall_mem_cons]
    exact ⟨code.value hfits, message.value hfits, start.value hfits, stop.value hfits,
      List.forall_mem_nil _⟩

end Warning

namespace Variable

theorem decode_eq_some_iff {n : Nesting} {j : Json} {v : Variable} :
    decode n j = some v ↔ ∃ r, Decoder.row
        [⟨"name", none⟩, ⟨"referenced", none⟩, ⟨"referenced_from_script", none⟩,
          ⟨"reassigned", none⟩, ⟨"export_name", none⟩, ⟨"injected", none⟩, ⟨"module", none⟩] n j
        = some r ∧
      r.orElse "name" "" Decoder.string = some v.name ∧
      r.orElse "referenced" false Decoder.bool = some v.referenced ∧
      r.orElse "referenced_from_script" false Decoder.bool = some v.referencedFromScript ∧
      r.orElse "reassigned" false Decoder.bool = some v.reassigned ∧
      r.optional "export_name" Decoder.string = some v.exportName ∧
      r.orElse "injected" false Decoder.bool = some v.injected ∧
      r.orElse "module" false Decoder.bool = some v.inModule := by
  rw [decode]
  simp only [Option.bind_eq_bind, Option.bind_eq_some_iff, Option.pure_def, Option.some.injEq]
  constructor
  · rintro ⟨r, hr, name, hname, referenced, hreferenced, fromScript, hfromScript, reassigned,
      hreassigned, exportName, hexportName, injected, hinjected, inModule, hinModule, rfl⟩
    exact ⟨r, hr, hname, hreferenced, hfromScript, hreassigned, hexportName, hinjected, hinModule⟩
  · rintro ⟨r, hr, hname, hreferenced, hfromScript, hreassigned, hexportName, hinjected, hinModule⟩
    exact ⟨r, hr, _, hname, _, hreferenced, _, hfromScript, _, hreassigned, _, hexportName,
      _, hinjected, _, hinModule, rfl⟩

theorem encode_eq (v : Variable) : v.encode = .object (Json.cells [("name", some (.string v.name)),
    ("referenced", some (.bool v.referenced)),
    ("referenced_from_script", some (.bool v.referencedFromScript)),
    ("reassigned", some (.bool v.reassigned)), ("export_name", v.exportName.map Json.string),
    ("injected", some (.bool v.injected)), ("module", some (.bool v.inModule))]) := by
  rw [encode, memberIfSome_eq]
  simp only [Json.cells, List.filterMap_cons, Option.map_some]
  cases v.exportName <;> rfl

theorem stable (v : Variable) : Stable decode encode v := by
  refine .record decode_eq_some_iff v.encode_eq (by decide) rfl ?_
  rintro r ⟨hname, hreferenced, hfromScript, hreassigned, hexportName, hinjected, hinModule⟩
  have flag : ∀ {name : String} {b : Bool}, r.orElse name false Decoder.bool = some b →
      r.Keeps name (·.orElse name false Decoder.bool) b (some (.bool b)) :=
    fun h => Keeps.orElse h (stable_bool _) rfl fun _ _ => rfl
  have name := Keeps.orElse hname (stable_string _) rfl fun _ _ => rfl
  have exportName := Keeps.optional hexportName (fun s _ => stable_string s)
    (fun s _ => neverNull_string s)
  refine ⟨fun hget => ?_, fun n hfits => ?_⟩
  · exact ⟨name.reread ((hget _).trans rfl), (flag hreferenced).reread ((hget _).trans rfl),
      (flag hfromScript).reread ((hget _).trans rfl),
      (flag hreassigned).reread ((hget _).trans rfl), exportName.reread ((hget _).trans rfl),
      (flag hinjected).reread ((hget _).trans rfl), (flag hinModule).reread ((hget _).trans rfl)⟩
  · simp only [List.forall_mem_cons]
    exact ⟨name.value hfits, (flag hreferenced).value hfits, (flag hfromScript).value hfits,
      (flag hreassigned).value hfits, exportName.value hfits, (flag hinjected).value hfits,
      (flag hinModule).value hfits, List.forall_mem_nil _⟩

end Variable

/-! ### Components -/

/-- Writes the range of a script body. -/
def encodeProgram (body : Span) : Json :=
  .object [("start", .ofNat body.start), ("end", .ofNat body.stop)]

theorem decodeProgram_eq_some_iff {n : Nesting} {j : Json} {s : Span} :
    decodeProgram n j = some s ↔ ∃ r, Decoder.row [⟨"start", none⟩, ⟨"end", none⟩] n j = some r ∧
      r.required "start" word = some s.start ∧ r.required "end" word = some s.stop := by
  rw [decodeProgram]
  simp only [Option.bind_eq_bind, Option.bind_eq_some_iff, Option.pure_def, Option.some.injEq]
  constructor
  · rintro ⟨r, hr, start, hstart, stop, hstop, rfl⟩
    exact ⟨r, hr, hstart, hstop⟩
  · rintro ⟨r, hr, hstart, hstop⟩
    exact ⟨r, hr, _, hstart, _, hstop, rfl⟩

theorem stable_program (s : Span) : Stable decodeProgram encodeProgram s := by
  refine .record (l := [("start", some (.ofNat s.start)), ("end", some (.ofNat s.stop))])
    decodeProgram_eq_some_iff rfl (by decide) rfl ?_
  rintro r ⟨hstart, hstop⟩
  have start := Keeps.required hstart (stable_word _)
  have stop := Keeps.required hstop (stable_word _)
  refine ⟨fun hget => ?_, fun n hfits => ?_⟩
  · exact ⟨start.reread ((hget _).trans rfl), stop.reread ((hget _).trans rfl)⟩
  · simp only [List.forall_mem_cons]
    exact ⟨start.value hfits, stop.value hfits, List.forall_mem_nil _⟩

theorem decodeScript_eq_some_iff {n : Nesting} {j : Json} {s : Span} :
    decodeScript n j = some s ↔ ∃ r, Decoder.row [⟨"content", none⟩] n j = some r ∧
      r.required "content" decodeProgram = some s := by
  rw [decodeScript]
  exact Option.bind_eq_some_iff

theorem stable_script (s : Span) : Stable decodeScript encodeScript s := by
  refine .record (l := [("content", some (encodeProgram s))]) decodeScript_eq_some_iff rfl
    (by decide) rfl fun r hcontent => ?_
  have content := Keeps.required hcontent (stable_program s)
  refine ⟨fun hget => content.reread ((hget _).trans rfl), fun n hfits => ?_⟩
  simp only [List.forall_mem_cons]
  exact ⟨content.value hfits, List.forall_mem_nil _⟩

theorem neverNull_script (s : Span) : NeverNull decodeScript encodeScript s := by
  intro _ _ _ _ h
  cases h

namespace Component

theorem decode_eq_some_iff {n : Nesting} {j : Json} {c : Component} :
    decode n j = some c ↔ ∃ r, Decoder.row
        [⟨"module", none⟩, ⟨"instance", none⟩, ⟨"html", none⟩] n j = some r ∧
      r.optional "module" decodeScript = some c.moduleScript ∧
      r.optional "instance" decodeScript = some c.instanceScript ∧
      r.optional "html" Node.decode = some c.template := by
  rw [decode]
  simp only [Option.bind_eq_bind, Option.bind_eq_some_iff, Option.pure_def, Option.some.injEq]
  constructor
  · rintro ⟨r, hr, script, hscript, script', hscript', template, htemplate, rfl⟩
    exact ⟨r, hr, hscript, hscript', htemplate⟩
  · rintro ⟨r, hr, hscript, hscript', htemplate⟩
    exact ⟨r, hr, _, hscript, _, hscript', _, htemplate, rfl⟩

/-- The template has no pattern that can be read as a list of nodes. -/
def Unambiguous (c : Component) : Prop := ∀ t ∈ c.template, t.Unambiguous

/-- The members a component is written with. -/
def fieldCells (c : Component) : List (String × Option Json) :=
  [("module", some (orNull encodeScript c.moduleScript)),
    ("instance", some (orNull encodeScript c.instanceScript)),
    ("html", some (orNull Node.encode c.template))]

theorem stable {c : Component} (h : c.Unambiguous) : Stable decode encode c := by
  refine .record (l := c.fieldCells) decode_eq_some_iff rfl (by decide) rfl ?_
  rintro r ⟨hmodule, hinstance, htemplate⟩
  have moduleScript := Keeps.orNull hmodule (fun s _ => stable_script s)
    (fun s _ => neverNull_script s)
  have instanceScript := Keeps.orNull hinstance (fun s _ => stable_script s)
    (fun s _ => neverNull_script s)
  have template := Keeps.orNull htemplate (fun t ht => Node.stable (h t ht))
    (fun t _ => t.neverNull)
  refine ⟨fun hget => ?_, fun n hfits => ?_⟩
  · exact ⟨moduleScript.reread ((hget _).trans rfl), instanceScript.reread ((hget _).trans rfl),
      template.reread ((hget _).trans rfl)⟩
  · simp only [fieldCells, List.forall_mem_cons]
    exact ⟨moduleScript.value hfits, instanceScript.value hfits, template.value hfits,
      List.forall_mem_nil _⟩

theorem unambiguous_of_isValue {n : Nesting} {j : Json} {c : Component} (h : decode n j = some c)
    (hj : j.IsValue) : c.Unambiguous := by
  intro t ht
  obtain ⟨r, hr, -, -, htemplate⟩ := decode_eq_some_iff.1 h
  obtain ⟨html, hhtml, -, hread⟩ := optional_cases htemplate t ht
  exact Node.unambiguous_of_isValue hread (hj.of_mem_parts ((row_parts hr).2.2 _ html hhtml))

theorem unambiguous_of_decode_encode {n : Nesting} {c : Component}
    (h : decode n c.encode = some c) : c.Unambiguous := by
  intro t ht
  obtain ⟨r, hr, -, -, htemplate⟩ := decode_eq_some_iff.1 h
  have hcell : r.cells.get? "html" = some (orNull Node.encode c.template) :=
    (get?_of_row_cells (l := c.fieldCells) (by decide) rfl hr _).trans rfl
  obtain ⟨html, hhtml, -, hread⟩ := optional_cases htemplate t ht
  rw [Option.mem_def.1 ht] at hcell
  obtain rfl : html = t.encode := Option.some.inj (hhtml.symm.trans hcell)
  exact Node.unambiguous_of_decode_encode hread

end Component

/-! ### Answers -/

namespace Compiled

theorem decode_eq_some_iff {n : Nesting} {j : Json} {c : Compiled} :
    decode n j = some c ↔ ∃ r, Decoder.row
        [⟨"ast", none⟩, ⟨"warnings", none⟩, ⟨"vars", none⟩] n j = some r ∧
      r.required "ast" Component.decode = some c.component ∧
      r.orElse "warnings" [] (Decoder.list Warning.decode) = some c.warnings ∧
      r.orElse "vars" [] (Decoder.list Variable.decode) = some c.vars := by
  rw [decode]
  simp only [Option.bind_eq_bind, Option.bind_eq_some_iff, Option.pure_def, Option.some.injEq]
  constructor
  · rintro ⟨r, hr, component, hcomponent, warnings, hwarnings, vars, hvars, rfl⟩
    exact ⟨r, hr, hcomponent, hwarnings, hvars⟩
  · rintro ⟨r, hr, hcomponent, hwarnings, hvars⟩
    exact ⟨r, hr, _, hcomponent, _, hwarnings, _, hvars, rfl⟩

/-- The template has no pattern that can be read as a list of nodes. -/
def Unambiguous (c : Compiled) : Prop := c.component.Unambiguous

/-- The members an answer is written with. -/
def fieldCells (c : Compiled) : List (String × Option Json) :=
  [("ast", some c.component.encode), ("warnings", some (.array (c.warnings.map Warning.encode))),
    ("vars", some (.array (c.vars.map Variable.encode)))]

/-- **An unambiguous answer is read again from what it is written as.** -/
theorem stable {c : Compiled} (h : c.Unambiguous) : Stable decode encode c := by
  refine .record (l := c.fieldCells) decode_eq_some_iff rfl (by decide) rfl ?_
  rintro r ⟨hcomponent, hwarnings, hvars⟩
  -- where there is room for the component, there is room for an empty list
  obtain ⟨j, hj, hread⟩ := Option.bind_eq_some_iff.1 hcomponent
  obtain ⟨r', hr', -⟩ := Component.decode_eq_some_iff.1 hread
  obtain ⟨hinner, hdepth, -⟩ := row_parts hr'
  have empty : ∀ {α : Type} (d : Decoder α), Decoder.list d r.inner (.array []) = some [] :=
    fun d => list_eq_some_iff.2 ⟨[], _, rfl, hinner, .nil⟩
  have emptyValue : ∀ n, r.FitsInto n → value? n (.array []) = some (.array []) := by
    intro n hfits
    obtain ⟨inner, hinner', -⟩ := (hfits "ast" j hj).parts hinner hdepth
    exact value?_array_self hinner' (List.forall_mem_nil _)
  have component := Keeps.required hcomponent (Component.stable h)
  have warnings := Keeps.orElse hwarnings (.list fun w _ => w.stable) (empty _) emptyValue
  have vars := Keeps.orElse hvars (.list fun v _ => v.stable) (empty _) emptyValue
  refine ⟨fun hget => ?_, fun n hfits => ?_⟩
  · exact ⟨component.reread ((hget _).trans rfl), warnings.reread ((hget _).trans rfl),
      vars.reread ((hget _).trans rfl)⟩
  · simp only [fieldCells, List.forall_mem_cons]
    exact ⟨component.value hfits, warnings.value hfits, vars.value hfits, List.forall_mem_nil _⟩

/-- An answer read from a document without repeated names is unambiguous. -/
theorem unambiguous_of_isValue {n : Nesting} {j : Json} {c : Compiled} (h : decode n j = some c)
    (hj : j.IsValue) : c.Unambiguous := by
  obtain ⟨r, hr, hcomponent, -⟩ := decode_eq_some_iff.1 h
  obtain ⟨ast, hast, hread⟩ := Option.bind_eq_some_iff.1 hcomponent
  exact Component.unambiguous_of_isValue hread (hj.of_mem_parts ((row_parts hr).2.2 _ ast hast))

/-- Only an unambiguous answer is read again from what it is written as. -/
theorem unambiguous_of_decode_encode {n : Nesting} {c : Compiled}
    (h : decode n c.encode = some c) : c.Unambiguous := by
  obtain ⟨r, hr, hcomponent, -⟩ := decode_eq_some_iff.1 h
  have hast : r.cells.get? "ast" = some c.component.encode :=
    (get?_of_row_cells (l := c.fieldCells) (by decide) rfl hr _).trans rfl
  rw [required_of_get?_eq_some hast] at hcomponent
  exact Component.unambiguous_of_decode_encode hcomponent

end Compiled

end ComponentLint
