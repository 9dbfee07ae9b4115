import ComponentLint.Proofs.LineTable.Parts
import ComponentLint.Proofs.Lint.Rejection
import ComponentLint.Proofs.Markup.Clearing

/-!
# Refused bodies in their document

The transpiler sees one script body at a time, and tells a place of the body when it refuses it.
The bodies are handed to it in order until one is refused, and the refusal is moved to the
document.  It keeps its place: a body stands between `>` and `<`, so that no carriage return is
separated from its line feed, and the lines of the body are lines of the document.

## Main definitions

* `locationAt t o` — the location of byte `o` of `t`.
* `LineTable.HasLocation table l` — the text has the location `l`.
* `Location.CarriedTo document body start l l'` — location `l` of a body that starts at byte `start`
  of the document is location `l'` of the document.
* `Rejection.CarriedTo document body start r r'` — the same for a refusal and its locations.
* `ScriptStep transpile document start e rest run` — what the script `e` does to a run.

## Main statements

* `spliceStretches_plain`, `spliceStretches_element` — what one stretch does to a run.
* `spliceStretches_refused`, `exists_refused_of_spliceStretches` — a run ends with the refusal of
  the body that was asked for last.
* `Location.carriedTo_relocate` — a location of a part keeps its place.
* `refused_body_keeps_place` — **the refusal of a body keeps its place in the document.**
-/

namespace ComponentLint

open Text Markup Consultation

/-! ### Locations of a part -/

/-- The location of a byte of a text. -/
def locationAt (t : Text) (o : Nat) : Location := ((LineTable.ofText t).placeOf o).toLocation

/-- The text has the location: its line, counted from one, is there, and its column lies before the
start of the next line, or on the last line not behind the end of the text. -/
def LineTable.HasLocation (table : LineTable) (l : Location) : Prop :=
  ∃ place, l.toPlace? = some place ∧ table.Has place

/-- Location `l` of a body that starts at byte `start` of the document is location `l'` of the
document. -/
structure Location.CarriedTo (document body : Text) (start : Nat) (l l' : Location) : Prop where
  /-- The document has the location. -/
  hasLocation : (LineTable.ofText document).HasLocation l'
  /-- Both locations denote the same byte. -/
  offset_eq : (LineTable.ofText document).offsetOfLocation l' =
    start + (LineTable.ofText body).offsetOfLocation l
  /-- Line 0 stands for the start of the body. -/
  eq_of_line_zero : l.line = 0 → l' = locationAt document start
  /-- Lines are counted from the line on which the body starts, and on this line columns from the
  column at which it starts, exactly if the body has the location. -/
  line_column_iff : (LineTable.ofText body).HasLocation l ↔
    l'.line = (locationAt document start).line + l.line - 1 ∧
      l'.column = l.column + if l.line = 1 then (locationAt document start).column else 0

/-- A refusal of a body that starts at byte `start` of the document says the same of the document,
at the same places. -/
structure Rejection.CarriedTo (document body : Text) (start : Nat) (r r' : Rejection) : Prop where
  kind_eq : r'.kind = r.kind
  message_eq : r'.message = r.message
  start_rel : Option.Rel (Location.CarriedTo document body start) r.start r'.start
  stop_rel : Option.Rel (Location.CarriedTo document body start) r.stop r'.stop

/-- Lines and columns of a place that is counted from another one, as locations have them. -/
theorem Place.eq_behind_iff {origin p q : Place} :
    q = origin.behind p ↔
      q.toLocation.line = origin.toLocation.line + p.toLocation.line - 1 ∧
        q.toLocation.column = p.toLocation.column +
          if p.toLocation.line = 1 then origin.toLocation.column else 0 := by
  obtain ⟨line, column⟩ := q
  simp only [behind, toLocation, Place.mk.injEq, Nat.add_eq_right]
  refine and_congr_left fun _ => ?_
  omega

namespace Location

variable {before body after : Text}

theorem relocate_eq (hafter : after.head? ≠ some '\n') (l : Location) :
    l.relocate (before ++ (body ++ after)) body (size before) =
      (((LineTable.ofText (before ++ (body ++ after))).placeOf (size before)).behind
        ((LineTable.ofText body).placeOf
          ((LineTable.ofText body).offsetOfLocation l))).toLocation := by
  rw [relocate, LineTable.placeOf_part before hafter (LineTable.offsetOfLocation_le_size body l)]

/-- A location of a part keeps its place. -/
theorem carriedTo_relocate (hafter : after.head? ≠ some '\n') (l : Location) :
    CarriedTo (before ++ (body ++ after)) body (size before) l
      (l.relocate (before ++ (body ++ after)) body (size before)) := by
  have hle := LineTable.offsetOfLocation_le_size body l
  have hsize : size before + (LineTable.ofText body).offsetOfLocation l ≤
      size (before ++ (body ++ after)) := by
    rw [size_append, size_append]
    omega
  have htable := LineTable.ofText_wellFormed (before ++ (body ++ after))
  have hplace := htable.isPlaceOf_placeOf hsize
  refine ⟨⟨_, rfl, htable.has_iff.2 ⟨_, hplace⟩⟩, hplace.offsetOf_eq, ?_, ?_⟩
  · intro hline
    have hoffset : (LineTable.ofText body).offsetOfLocation l = 0 := by
      simp [LineTable.offsetOfLocation, toPlace?, hline]
    rw [relocate, hoffset, Nat.add_zero]
    rfl
  · rw [relocate_eq hafter]
    obtain ⟨line, column⟩ := l
    cases line with
    | zero =>
      -- line 0 is moved to the line on which the body starts, and not to the one before
      refine iff_of_false ?_ ?_
      · rintro ⟨place, hplace, -⟩
        cases hplace
      · rintro ⟨hline, -⟩
        simp only [Place.toLocation, Place.behind, locationAt] at hline
        omega
    | succ line =>
      have hhas : (LineTable.ofText body).HasLocation ⟨line + 1, column⟩ ↔
          (LineTable.ofText body).Has ⟨line, column⟩ := by
        simp [LineTable.HasLocation, toPlace?]
      have hinjective :=
        ((LineTable.ofText (before ++ (body ++ after))).placeOf (size before)).behind_injective
      rw [hhas, ← LineTable.placeOf_offsetOf_iff, ← hinjective.eq_iff]
      exact Place.eq_behind_iff

end Location

/-! ### The run up to the refusal -/

namespace Consultation

variable {ε α β : Type} {c : Consultation ε α} {next : α → Consultation ε β}

/-- Behind a failure nothing is asked. -/
theorem calls_bind_of_error {e : ε} (h : c.result = .error e) : (c >>= next).calls = c.calls := by
  show (c.andThen next).calls = _
  simp only [andThen, h]

theorem result_bind {a : α} (h : c.result = .ok a) : (c >>= next).result = (next a).result := by
  show (c.andThen next).result = _
  simp only [andThen, h]

/-- A step that asks nothing and does not fail leaves the questions and the failures as they
are. -/
theorem bind_of_forall_pure (h : ∀ a, ∃ b, next a = pure b) :
    (c >>= next).calls = c.calls ∧ ∀ e, (c >>= next).result = .error e ↔ c.result = .error e := by
  constructor
  · cases hc : c.result with
    | error e => exact calls_bind_of_error hc
    | ok a =>
      obtain ⟨b, hb⟩ := h a
      rw [calls_bind hc, hb, calls_pure, List.append_nil]
  · intro e
    rw [result_bind_eq_error_iff]
    refine or_iff_left ?_
    rintro ⟨a, -, ha⟩
    obtain ⟨b, hb⟩ := h a
    rw [hb] at ha
    cases ha

end Consultation

variable {transpile : Text → Except Rejection Transpiled} {document : Text}

/-- A character outside the scripts does not change how a run ends. -/
theorem spliceStretches_plain (start generatedStart : Nat) (c : Char) (rest : List Stretch) :
    let run := spliceStretches transpile document start generatedStart (.plain c :: rest)
    let later := spliceStretches transpile document (start + c.utf8Size)
      (generatedStart + c.utf8Size) rest
    run.calls = later.calls ∧ ∀ halt, run.result = .error halt ↔ later.result = .error halt := by
  dsimp only
  rw [spliceStretches]
  apply bind_of_forall_pure
  rintro ⟨text, splices⟩
  exact ⟨_, rfl⟩

/-- A script is refused, or has a source map that cannot be used, or the run goes on behind it. -/
inductive ScriptStep (transpile : Text → Except Rejection Transpiled) (document : Text)
    (start : Nat) (e : Element) (rest : List Stretch)
    (run : Consultation Halt (Text × List Splice)) : Prop
  | refused (r : Rejection) (hr : transpile e.body = .error r)
    (hcalls : run.calls = [.transpile e.body])
    (hresult : run.result =
      .error (.rejected (r.relocate document e.body (start + size e.opening))))
  | unusable (t : Transpiled) (f : Failure) (ht : transpile e.body = .ok t)
    (hcalls : run.calls = [.transpile e.body]) (hresult : run.result = .error (.failed f))
  | goesOn (t : Transpiled) (generatedStart : Nat) (ht : transpile e.body = .ok t)
    (hcalls : run.calls = .transpile e.body ::
      (spliceStretches transpile document (start + size e.text) generatedStart rest).calls)
    (hresult : ∀ halt, run.result = .error halt ↔
      (spliceStretches transpile document (start + size e.text) generatedStart rest).result =
        .error halt)

/-- What a script does to a run. -/
theorem spliceStretches_element (start generatedStart : Nat) (e : Element) (rest : List Stretch) :
    ScriptStep transpile document start e rest
      (spliceStretches transpile document start generatedStart (.element e :: rest)) := by
  rw [spliceStretches]
  have hanswer : (transpileBody transpile document e.body (start + size e.opening)).result =
      (transpile e.body).mapError
        fun r => .rejected (r.relocate document e.body (start + size e.opening)) := rfl
  cases ht : transpile e.body with
  | error r =>
    rw [ht] at hanswer
    exact .refused r ht (calls_bind_of_error hanswer) (result_bind_eq_error_iff.2 (.inl hanswer))
  | ok t =>
    rw [ht] at hanswer
    cases hmap : (spliceBody (start + size e.opening) (generatedStart + size e.opening) e.body
        t).result with
    | error halt =>
      obtain ⟨f, -, rfl⟩ := mapError_eq_error_iff.1 hmap
      refine .unusable t (.sourceMap f) ht ?_ ?_
      · rw [calls_bind hanswer, calls_bind_of_error hmap]
        rfl
      · refine result_bind_eq_error_iff.2 (.inr ⟨t, hanswer, ?_⟩)
        exact result_bind_eq_error_iff.2 (.inl hmap)
    | ok splice =>
      -- the rest is run, and what it has generated is put behind the script
      have hstart : start + size e.opening + size (e.body ++ e.closing) = start + size e.text := by
        rw [Element.text, List.append_assoc, size_append e.opening, Nat.add_assoc]
      rw [hstart]
      have hstep : ∀ x : Text × List Splice, ∃ y,
          (pure (e.opening ++ t.output ++ e.closing ++ x.1, splice :: x.2) :
            Consultation Halt (Text × List Splice)) = pure y := fun x => ⟨_, rfl⟩
      obtain ⟨hcalls, hresult⟩ := bind_of_forall_pure
        (c := spliceStretches transpile document (start + size e.text)
          (generatedStart + size e.opening + size (t.output ++ e.closing)) rest) hstep
      refine .goesOn t (generatedStart + size e.opening + size (t.output ++ e.closing)) ht ?_ ?_
      · rw [calls_bind hanswer, calls_bind hmap]
        exact congrArg (Call.transpile e.body :: ·) hcalls
      · intro halt
        rw [result_bind hanswer, result_bind hmap]
        exact hresult halt

/-- A run ends with the refusal of a body that was asked for. -/
theorem spliceStretches_refused {start generatedStart : Nat} {stretches : List Stretch}
    {earlier later : List (Nat × Text)} {x : Nat × Text} {r : Rejection}
    (hbodies : bodiesFrom start stretches = earlier ++ x :: later)
    (hasked : earlier.length <
      (spliceStretches transpile document start generatedStart stretches).calls.length)
    (hr : transpile x.2 = .error r) :
    (spliceStretches transpile document start generatedStart stretches).result =
      .error (.rejected (r.relocate document x.2 x.1)) := by
  induction stretches generalizing start generatedStart earlier with
  | nil => simp [bodiesFrom] at hbodies
  | cons stretch rest ih =>
    cases stretch with
    | plain c =>
      obtain ⟨hcalls, hresult⟩ :=
        @spliceStretches_plain transpile document start generatedStart c rest
      rw [hcalls] at hasked
      exact (hresult _).2 (ih hbodies hasked)
    | element e =>
      rw [bodiesFrom] at hbodies
      -- the refused body is this one, or one further on
      cases earlier with
      | nil =>
        obtain ⟨rfl, -⟩ := List.cons.inj hbodies
        cases @spliceStretches_element transpile document start generatedStart e rest with
        | refused r₁ hr₁ _ hresult =>
          rw [hr] at hr₁
          cases hr₁
          exact hresult
        | unusable t f ht => cases hr.symm.trans ht
        | goesOn t g ht => cases hr.symm.trans ht
      | cons y earlier =>
        obtain ⟨-, hbodies⟩ := List.cons.inj hbodies
        cases @spliceStretches_element transpile document start generatedStart e rest with
        | refused r₁ _ hcalls => simp [hcalls] at hasked
        | unusable t f _ hcalls => simp [hcalls] at hasked
        | goesOn t g _ hcalls hresult =>
          rw [hcalls] at hasked
          exact (hresult _).2 (ih hbodies (Nat.lt_of_succ_lt_succ hasked))

/-- A run that ends with a refusal has asked for the bodies in order, and for the refused one
last. -/
theorem exists_refused_of_spliceStretches {start generatedStart : Nat} {stretches : List Stretch}
    {r' : Rejection}
    (h : (spliceStretches transpile document start generatedStart stretches).result =
      .error (.rejected r')) :
    ∃ earlier x later r, bodiesFrom start stretches = earlier ++ x :: later ∧
      (spliceStretches transpile document start generatedStart stretches).calls =
        (earlier ++ [x]).map (fun y => .transpile y.2) ∧
      transpile x.2 = .error r ∧ r' = r.relocate document x.2 x.1 := by
  induction stretches generalizing start generatedStart with
  | nil => cases h
  | cons stretch rest ih =>
    cases stretch with
    | plain c =>
      obtain ⟨hcalls, hresult⟩ :=
        @spliceStretches_plain transpile document start generatedStart c rest
      rw [hcalls]
      exact ih ((hresult _).1 h)
    | element e =>
      rw [bodiesFrom]
      cases @spliceStretches_element transpile document start generatedStart e rest with
      | refused r hr hcalls hresult =>
        rw [h] at hresult
        cases hresult
        exact ⟨[], _, _, r, rfl, hcalls, hr, rfl⟩
      | unusable t f _ _ hresult =>
        rw [h] at hresult
        cases hresult
      | goesOn t g _ hcalls hresult =>
        obtain ⟨earlier, x, later, r, hbodies, hrest, hr, rfl⟩ := ih ((hresult _).1 h)
        refine ⟨(start + size e.opening, e.body) :: earlier, x, later, r, ?_, ?_, hr, rfl⟩
        · rw [hbodies]
          rfl
        · rw [hcalls, hrest]
          rfl

/-! ### Refusals in the document -/

/-- A script body stands between `>` and `<`. -/
theorem exists_of_mem_bodies {name : Text} {x : Nat × Text} (h : x ∈ bodies name document) :
    ∃ before after, document = before ++ (x.2 ++ after) ∧ x.1 = size before ∧
      after.head? ≠ some '\n' := by
  obtain ⟨front, e, back, hscan, rfl⟩ := exists_of_mem_bodiesFrom h
  have he : e.IsOf name := isOf_of_mem_scan (by rw [hscan]; simp)
  obtain ⟨letters, hclosing, -⟩ := he.closing_form.exists_eq_cons
  refine ⟨front.flatMap Stretch.text ++ e.opening, e.closing ++ back.flatMap Stretch.text, ?_,
    Nat.zero_add _, ?_⟩
  · rw [← flatMap_text_scan name document, hscan]
    simp [Stretch.text, Element.text]
  · simp [hclosing]

/-- A refusal of a body keeps its places. -/
theorem Rejection.carriedTo_relocate {name : Text} {x : Nat × Text} (h : x ∈ bodies name document)
    (r : Rejection) : r.CarriedTo document x.2 x.1 (r.relocate document x.2 x.1) := by
  obtain ⟨before, after, hdocument, hstart, hafter⟩ := exists_of_mem_bodies h
  have hlocation (l : Option Location) :
      Option.Rel (Location.CarriedTo document x.2 x.1) l
        (l.map (Location.relocate document x.2 x.1)) := by
    cases l with
    | none => exact .none
    | some l =>
      rw [hstart, hdocument]
      exact .some (Location.carriedTo_relocate hafter l)
  exact ⟨rfl, rfl, hlocation r.start, hlocation r.stop⟩

/-- **The refusal of a body keeps its place in the document.**  If the transpiler refuses a script
body that it was asked for, the run over the document ends with this refusal, moved to the document:
every location denotes the byte that it denotes in the body; its line is counted from the line on
which the body starts, and its column on the first line from the column at which the body starts,
exactly if the body has the location; line 0 stands for the start of the body.  And a run that ends
with a refusal has asked for the bodies in order, and ends with the refusal of the last one. -/
theorem refused_body_keeps_place (transpile : Text → Except Rejection Transpiled)
    (document : Text) :
    (∀ earlier x later r, bodies scriptName document = earlier ++ x :: later →
      earlier.length < (spliceScripts transpile document).calls.length →
      transpile x.2 = .error r →
      ∃ r', (spliceScripts transpile document).result = .error (.rejected r') ∧
        r.CarriedTo document x.2 x.1 r') ∧
    ∀ r', (spliceScripts transpile document).result = .error (.rejected r') →
      ∃ earlier x later r, bodies scriptName document = earlier ++ x :: later ∧
        (spliceScripts transpile document).calls =
          (earlier ++ [x]).map (fun y => .transpile y.2) ∧
        transpile x.2 = .error r ∧ r.CarriedTo document x.2 x.1 r' := by
  have hrun : ∀ x : Text × List Splice, ∃ y,
      (pure ⟨document, x.1, x.2⟩ : Consultation Halt Spliced) = pure y := fun x => ⟨_, rfl⟩
  obtain ⟨hcalls, hresult⟩ := bind_of_forall_pure
    (c := spliceStretches transpile document 0 0 (scan scriptName document)) hrun
  change (spliceScripts transpile document).calls = _ at hcalls
  change ∀ halt, (spliceScripts transpile document).result = _ ↔ _ at hresult
  constructor
  · intro earlier x later r hbodies hasked hr
    rw [hcalls] at hasked
    have hmem : x ∈ bodies scriptName document := by
      rw [hbodies]
      exact List.mem_append_right _ List.mem_cons_self
    refine ⟨r.relocate document x.2 x.1, ?_, r.carriedTo_relocate hmem⟩
    exact (hresult _).2 (spliceStretches_refused hbodies hasked hr)
  · intro r' hr'
    obtain ⟨earlier, x, later, r, hbodies, hlast, hr, rfl⟩ :=
      exists_refused_of_spliceStretches ((hresult _).1 hr')
    have hmem : x ∈ bodies scriptName document := by
      rw [bodies, hbodies]
      exact List.mem_append_right _ List.mem_cons_self
    exact ⟨earlier, x, later, r, hbodies, hcalls.trans hlast, hr, r.carriedTo_relocate hmem⟩

/-- A document with two scripts, the second with all three kinds of line breaks. -/
def mixedBreaks : Text := "<script>a</script>é\n<script>\r\nb\r@\n</script>".toList

/-- A refusal on the third line, which starts behind a carriage return, and without a line. -/
def refusalOfAt : Rejection := ⟨"TypeError", "unexpected @", some ⟨3, 0⟩, some ⟨0, 5⟩⟩

/-- A transpiler that takes the first script and refuses the second one. -/
def transpileOne (body : Text) : Except Rejection Transpiled :=
  if body = ['a'] then .ok ⟨['a'], "\x7b\"mappings\":\"\"\x7d".toList⟩ else .error refusalOfAt

/-- The refusal moved to the document: its line starts behind the carriage return, and the body
starts on the second line. -/
def refusalInDocument : Rejection := ⟨"TypeError", "unexpected @", some ⟨4, 0⟩, some ⟨2, 8⟩⟩

theorem refused_body_keeps_place_mixedBreaks :
    bodies scriptName mixedBreaks =
        [(8, ['a'])] ++ (29, ['\r', '\n', 'b', '\r', '@', '\n']) :: [] ∧
      1 < (spliceScripts transpileOne mixedBreaks).calls.length ∧
      transpileOne ['\r', '\n', 'b', '\r', '@', '\n'] = .error refusalOfAt ∧
      (spliceScripts transpileOne mixedBreaks).result = .error (.rejected refusalInDocument) ∧
      refusalOfAt.CarriedTo mixedBreaks ['\r', '\n', 'b', '\r', '@', '\n'] 29
        refusalInDocument := by
  have hbodies : bodies scriptName mixedBreaks =
      [(8, ['a'])] ++ (29, ['\r', '\n', 'b', '\r', '@', '\n']) :: [] := by decide +kernel
  have hasked : 1 < (spliceScripts transpileOne mixedBreaks).calls.length := by
    have hcalls : (spliceScripts transpileOne mixedBreaks).calls.length = 2 := by decide +kernel
    omega
  have hresult : (spliceScripts transpileOne mixedBreaks).result =
      .error (.rejected refusalInDocument) := by decide +kernel
  obtain ⟨r', hr', hcarried⟩ :=
    (refused_body_keeps_place transpileOne mixedBreaks).1 _ _ _ refusalOfAt hbodies hasked rfl
  rw [hresult] at hr'
  cases hr'
  exact ⟨hbodies, hasked, rfl, hresult, hcarried⟩

end ComponentLint
