import ComponentLint.Lint.Prepare
import ComponentLint.Proofs.Lint.Transpile
import ComponentLint.Proofs.Markup.Blanking

/-!
# Refused documents

The transpiler, the compiler and the parser may each refuse what they are given.  Whichever of them
does, the session of the document reports it in one message, and there is nothing to lint.  Only a
refusal by the compiler may fail to be reported, when it has to be moved through mappings that
cannot be read.

A refusal and a warning of the compiler are moved to the document on different ways: the locations
of a refusal are moved as locations and made positions afterwards, those of a warning are made
positions at once.  Both end at the same positions.

## Main definitions

* `Toolchain.Rejects tools call r` — the answer to a question is the refusal `r`.
* `Rejection.Fits r`, `Message.Fits m` — lines and columns of a refusal or a message have 32 bits.
* `Session.Reports s r` — a session with one message, that of the refusal `r`.
* `Message.ends m` — where a message starts and ends.
* `Linter.warned l w` — the linter `l` with a compiler that says nothing but the warning `w`.

## Main statements

* `Consultation.result_bind_eq_error_iff`, `Consultation.mem_calls_bind_iff` — how a consultation
  fails, and what it asks.
* `Linter.rejects_cases` — who may refuse a document, and where the analysis then ends.
* `Rejection.fits_relocate`, `Spliced.fits_of_relocate` — a refusal that was moved to the document
  has numbers of 32 bits.
* `Spliced.Weave.sourcePosition_eq_error_iff` — when a location cannot be moved to the document.
* `Linter.ends_of_relocate` — a refusal is moved to where a warning is moved.
* `Linter.rejection_reported` — **a refusal is reported, at the positions of a warning.**
-/

namespace ComponentLint

open Text Markup

/-! ### Consultations that fail -/

namespace Consultation

variable {ε α β : Type} {c : Consultation ε α} {next : α → Consultation ε β}

/-- A consultation fails if one of its parts does. -/
theorem result_bind_eq_error_iff {e : ε} :
    (c >>= next).result = .error e ↔
      c.result = .error e ∨ ∃ a, c.result = .ok a ∧ (next a).result = .error e := by
  show (c.andThen next).result = _ ↔ _
  cases h : c.result with
  | error e' => simp [andThen, h]
  | ok a => simp [andThen, h]

/-- What a consultation asks is asked in its first part, or in the second one if there is one. -/
theorem mem_calls_bind_iff {call : Call} :
    call ∈ (c >>= next).calls ↔
      call ∈ c.calls ∨ ∃ a, c.result = .ok a ∧ call ∈ (next a).calls := by
  show call ∈ (c.andThen next).calls ↔ _
  cases h : c.result with
  | error e => simp [andThen, h]
  | ok a => simp [andThen, h]

end Consultation

open Consultation

theorem mapError_eq_error_iff {ε ε' α : Type} {f : ε → ε'} {r : Except ε α} {e' : ε'} :
    r.mapError f = .error e' ↔ ∃ e, r = .error e ∧ f e = e' := by
  cases r <;> simp [Except.mapError]

/-! ### Refusals -/

/-- The answer to a question is a refusal. -/
def Toolchain.Rejects (tools : Toolchain) : Call → Rejection → Prop
  | .compile text options, r => tools.compile text options = .error r
  | .parse text options, r => tools.parse text options = .error r
  | .transpile body, r => ∃ transpile, tools.transpile? = some transpile ∧
      transpile body = .error r

/-- Line and column of a message, and those of its end if it has one, are numbers of 32 bits. -/
structure Message.Fits (m : Message) : Prop where
  line : m.line < 2 ^ 32
  column : m.column < 2 ^ 32
  endLine : ∀ n ∈ m.endLine, n < 2 ^ 32
  endColumn : ∀ n ∈ m.endColumn, n < 2 ^ 32

/-- The ends of a refusal can be told in numbers of 32 bits, columns being counted from one. -/
def Rejection.Fits (r : Rejection) : Prop :=
  ∀ location, r.start = some location ∨ r.stop = some location →
    Position.Fits ⟨location.line, location.column + 1⟩

theorem Rejection.Fits.toMessage {r : Rejection} (h : r.Fits) : r.toMessage.Fits := by
  obtain ⟨kind, message, start, stop⟩ := r
  refine ⟨?_, ?_, ?_, ?_⟩
  · cases start with
    | none => exact Nat.two_pow_pos 32
    | some location => exact (h location (.inl rfl)).line
  · cases start with
    | none => exact Nat.two_pow_pos 32
    | some location => exact (h location (.inl rfl)).column
  · intro n hn
    obtain ⟨location, hlocation, rfl⟩ := Option.map_eq_some_iff.1 hn
    exact (h location (.inr hlocation)).line
  · intro n hn
    obtain ⟨location, hlocation, rfl⟩ := Option.map_eq_some_iff.1 hn
    exact (h location (.inr hlocation)).column

/-- The refusal of a body, moved to a document of less than `2 ^ 32 - 1` bytes. -/
theorem Rejection.fits_relocate {document : Text} (hsize : size document + 1 < 2 ^ 32)
    (body : Text) (start : Nat) (r : Rejection) : (r.relocate document body start).Fits := by
  rintro location (h | h)
  · obtain ⟨_, -, rfl⟩ := Option.map_eq_some_iff.1 h
    exact LineTable.fits_placeOf hsize _
  · obtain ⟨_, -, rfl⟩ := Option.map_eq_some_iff.1 h
    exact LineTable.fits_placeOf hsize _

/-- A session that reports a refusal: one message, with numbers of 32 bits, and nothing to lint. -/
def Session.Reports (s : Session) (r : Rejection) : Prop :=
  ∃ m, s = { messages := [m] } ∧ m.severity = .error ∧ m.ruleId = some r.kind ∧
    m.text = r.message ∧ m.Fits

section Stretches

variable {transpile : Text → Except Rejection Transpiled} {document : Text}

/-- A body that is refused ends the run over the stretches. -/
theorem spliceStretches_rejects {start generatedStart : Nat} {stretches : List Stretch}
    {call : Call}
    (h : call ∈ (spliceStretches transpile document start generatedStart stretches).calls) :
    ∃ body, call = .transpile body ∧ ∀ r, transpile body = .error r →
      ∃ bodyStart, (spliceStretches transpile document start generatedStart stretches).result =
        .error (.rejected (r.relocate document body bodyStart)) := by
  induction stretches generalizing start generatedStart with
  | nil => cases h
  | cons stretch stretches ih =>
    cases stretch with
    | plain c =>
      rw [spliceStretches] at h ⊢
      rcases mem_calls_bind_iff.1 h with h | ⟨_, -, h⟩
      · obtain ⟨body, hcall, hbody⟩ := ih h
        refine ⟨body, hcall, fun r hr => ?_⟩
        obtain ⟨bodyStart, hresult⟩ := hbody r hr
        exact ⟨bodyStart, result_bind_eq_error_iff.2 (.inl hresult)⟩
      · cases h
    | element e =>
      rw [spliceStretches] at h ⊢
      -- asked for this body, or for one further on, once this one was transpiled
      rcases mem_calls_bind_iff.1 h with h | ⟨t, ht, h⟩
      · rw [calls_transpileBody, List.mem_singleton] at h
        refine ⟨e.body, h, fun r hr => ⟨start + size e.opening, ?_⟩⟩
        exact result_bind_eq_error_iff.2 (.inl (mapError_eq_error_iff.2 ⟨r, hr, rfl⟩))
      · rcases mem_calls_bind_iff.1 h with h | ⟨s, hs, h⟩
        · cases h
        · rcases mem_calls_bind_iff.1 h with h | ⟨_, -, h⟩
          · obtain ⟨body, hcall, hbody⟩ := ih h
            refine ⟨body, hcall, fun r hr => ?_⟩
            obtain ⟨bodyStart, hresult⟩ := hbody r hr
            refine ⟨bodyStart, result_bind_eq_error_iff.2 (.inr ⟨t, ht, ?_⟩)⟩
            refine result_bind_eq_error_iff.2 (.inr ⟨s, hs, ?_⟩)
            exact result_bind_eq_error_iff.2 (.inl hresult)
          · cases h

/-- A body that is refused ends the run over a document. -/
theorem spliceScripts_rejects {call : Call} (h : call ∈ (spliceScripts transpile document).calls) :
    ∃ body, call = .transpile body ∧ ∀ r, transpile body = .error r →
      ∃ bodyStart, (spliceScripts transpile document).result =
        .error (.rejected (r.relocate document body bodyStart)) := by
  rw [spliceScripts] at h ⊢
  rcases mem_calls_bind_iff.1 h with h | ⟨_, -, h⟩
  · obtain ⟨body, hcall, hbody⟩ := spliceStretches_rejects h
    refine ⟨body, hcall, fun r hr => ?_⟩
    obtain ⟨bodyStart, hresult⟩ := hbody r hr
    exact ⟨bodyStart, result_bind_eq_error_iff.2 (.inl hresult)⟩
  · cases h

end Stretches

/-! ### Where an analysis ends -/

namespace Linter

variable {l : Linter} {text : Text} {call : Call} {r : Rejection}

/-- What became of a refusal: the analysis ends with it, moved to the document if the transpiler
refused a body, or if the compiler refused a document with transpiled scripts. -/
inductive Ended (l : Linter) (text : Text) (call : Call) (r : Rejection) : Halt → Prop
  | transpile {body : Text} (start : Nat) (hcall : call = .transpile body) :
    Ended l text call r (.rejected (r.relocate text body start))
  | parse {source : Text} {options : Options} (hcall : call = .parse source options) :
    Ended l text call r (.rejected r)
  | compile {options : Options} (hplain : l.settings.typescript = false)
    (hcall : call = .compile text options) : Ended l text call r (.rejected r)
  | compileSpliced {transpile : Text → Except Rejection Transpiled} {d : Spliced}
    {options : Options} (htypes : l.settings.typescript = true)
    (htranspile : l.tools.transpile? = some transpile)
    (hd : (spliceScripts transpile text).result = .ok d)
    (hcall : call = .compile d.generated options) : Ended l text call r (relocated d r)

/-- **Who may refuse a document**, and where the analysis then ends. -/
theorem rejects_cases (hcall : call ∈ (l.analyse text).calls) (hr : l.tools.Rejects call r) :
    ∃ halt, (l.analyse text).result = .error halt ∧ l.Ended text call r halt := by
  cases htypes : l.settings.typescript with
  | false =>
    simp only [analyse, htypes, Bool.false_eq_true, if_false] at hcall ⊢
    rcases mem_calls_bind_iff.1 hcall with hcall | ⟨_, -, hcall⟩
    · obtain rfl := List.mem_singleton.1 hcall
      refine ⟨_, result_bind_eq_error_iff.2 (.inl ?_), .compile htypes rfl⟩
      exact mapError_eq_error_iff.2 ⟨r, hr, rfl⟩
    · cases hcall
  | true =>
    cases htranspile : l.tools.transpile? with
    | none =>
      simp only [analyse, htypes, htranspile, if_true] at hcall
      cases hcall
    | some transpile =>
      simp only [analyse, htypes, htranspile, if_true] at hcall ⊢
      -- the transpiler, the compiler and the parser are asked in this order
      rcases mem_calls_bind_iff.1 hcall with hcall | ⟨d, hd, hcall⟩
      · obtain ⟨body, rfl, hbody⟩ := spliceScripts_rejects hcall
        obtain ⟨transpile', htranspile', hr⟩ := hr
        obtain rfl := Option.some.inj (htranspile.symm.trans htranspile')
        obtain ⟨start, hresult⟩ := hbody r hr
        exact ⟨_, result_bind_eq_error_iff.2 (.inl hresult), .transpile start rfl⟩
      · rcases mem_calls_bind_iff.1 hcall with hcall | ⟨compiled, hcompiled, hcall⟩
        · obtain rfl := List.mem_singleton.1 hcall
          refine ⟨_, result_bind_eq_error_iff.2 (.inr ⟨d, hd, ?_⟩),
            .compileSpliced htypes htranspile hd rfl⟩
          exact result_bind_eq_error_iff.2 (.inl (mapError_eq_error_iff.2 ⟨r, hr, rfl⟩))
        · rcases mem_calls_bind_iff.1 hcall with hcall | ⟨_, -, hcall⟩
          · obtain rfl := List.mem_singleton.1 hcall
            refine ⟨_, result_bind_eq_error_iff.2 (.inr ⟨d, hd, ?_⟩), .parse rfl⟩
            refine result_bind_eq_error_iff.2 (.inr ⟨compiled, hcompiled, ?_⟩)
            exact result_bind_eq_error_iff.2 (.inl (mapError_eq_error_iff.2 ⟨r, hr, rfl⟩))
          · cases hcall

end Linter

/-! ### Moving a refusal to the document -/

namespace Spliced

variable {d : Spliced}

/-- A location that may be missing is moved as a location and as a position alike. -/
theorem mapM_sourceLocation_cases (d : Spliced) (location? : Option Location) :
    (∃ location ∈ location?, ∃ e, d.sourcePosition location = .error e ∧
      location?.mapM d.sourceLocation = .error e ∧ location?.mapM d.sourcePosition = .error e) ∨
    ∃ n? : Option Nat,
      location?.mapM d.sourceLocation =
        .ok (n?.map fun n => ((LineTable.ofText d.source).placeOf n).toLocation) ∧
      location?.mapM d.sourcePosition =
        .ok (n?.map fun n => ((LineTable.ofText d.source).placeOf n).toPosition) := by
  cases location? with
  | none => exact .inr ⟨none, rfl, rfl⟩
  | some location =>
    rcases d.sourcePosition_cases location with ⟨e, h⟩ | ⟨n, h⟩
    · refine .inl ⟨location, rfl, e, h, ?_, ?_⟩ <;> simp [sourceLocation, h]
    · refine .inr ⟨some n, ?_, ?_⟩ <;> simp [sourceLocation, h]
      rfl

/-- A location cannot be moved to the document exactly if it lies in a splice whose mappings cannot
be read. -/
theorem Weave.sourcePosition_eq_error_iff {lead : Text} {parts : List (Splice × Text)}
    (w : d.Weave lead parts) {location : Location} {e : MappingError} :
    d.sourcePosition location = .error e ↔
      ∃ s ∈ d.splices,
        s.contains ((LineTable.ofText d.generated).offsetOfLocation location) = true ∧
          Mappings.decode s.mappings = .error e := by
  simp only [Splice.contains_iff]
  constructor
  · intro h
    by_contra hnone
    by_cases hin : ∃ s ∈ d.splices,
        s.generatedStart ≤ (LineTable.ofText d.generated).offsetOfLocation location ∧
          (LineTable.ofText d.generated).offsetOfLocation location ≤ s.generatedStop
    · obtain ⟨s, hs, hstart, hstop⟩ := hin
      exact hnone ⟨s, hs, ⟨hstart, hstop⟩, ((w.sourcePosition_inside rfl hs hstart hstop).1 e).1 h⟩
    · obtain ⟨n, -, -, hok⟩ := w.sourcePosition_outside rfl fun s hs hin' => hin ⟨s, hs, hin'⟩
      rw [hok] at h
      cases h
  · rintro ⟨s, hs, ⟨hstart, hstop⟩, hdecode⟩
    exact ((w.sourcePosition_inside rfl hs hstart hstop).1 e).2 hdecode

/-- A refusal cannot be moved to the document only if one of its ends cannot. -/
theorem exists_of_relocate_eq_error {r : Rejection} {e : MappingError}
    (h : d.relocate r = .error e) :
    ∃ location, (r.start = some location ∨ r.stop = some location) ∧
      d.sourcePosition location = .error e := by
  unfold relocate at h
  rcases d.mapM_sourceLocation_cases r.start with ⟨a, ha, e', hposition, hmap, -⟩ | ⟨p?, hmap, -⟩
  · rw [hmap] at h
    cases h
    exact ⟨a, .inl ha, hposition⟩
  · rw [hmap] at h
    rcases d.mapM_sourceLocation_cases r.stop with ⟨b, hb, e', hposition, hmap', -⟩ | ⟨q?, hmap', -⟩
    · rw [hmap'] at h
      cases h
      exact ⟨b, .inr hb, hposition⟩
    · rw [hmap'] at h
      cases h

/-- A refusal that is moved to a document of less than `2 ^ 32 - 1` bytes. -/
theorem fits_of_relocate {r r' : Rejection} (hsize : size d.source + 1 < 2 ^ 32)
    (h : d.relocate r = .ok r') : r'.Fits := by
  -- where it is moved to are places of the document
  have hmoved : ∀ {location? moved? : Option Location},
      location?.mapM d.sourceLocation = .ok moved? → ∀ location, moved? = some location →
        Position.Fits ⟨location.line, location.column + 1⟩ := by
    intro location? moved? hmap location hlocation
    rcases d.mapM_sourceLocation_cases location? with ⟨-, -, e, -, hmap', -⟩ | ⟨n?, hmap', -⟩
    · rw [hmap'] at hmap
      cases hmap
    · rw [hmap'] at hmap
      cases hmap
      obtain ⟨n, -, rfl⟩ := Option.map_eq_some_iff.1 hlocation
      exact LineTable.fits_placeOf hsize n
  unfold relocate at h
  obtain ⟨start, hstart, h⟩ := bind_eq_ok_iff.1 h
  obtain ⟨stop, hstop, h⟩ := bind_eq_ok_iff.1 h
  cases h
  rintro location (hlocation | hlocation)
  · exact hmoved hstart location hlocation
  · exact hmoved hstop location hlocation

/-- A refusal keeps its kind and its wording when it is moved. -/
theorem kind_of_relocate {r r' : Rejection} (h : d.relocate r = .ok r') :
    r'.kind = r.kind ∧ r'.message = r.message := by
  unfold relocate at h
  obtain ⟨start, -, h⟩ := bind_eq_ok_iff.1 h
  obtain ⟨stop, -, h⟩ := bind_eq_ok_iff.1 h
  cases h
  exact ⟨rfl, rfl⟩

end Spliced

/-- Where a message starts and ends: line and column, and those of its end if it has one. -/
def Message.ends (m : Message) : Nat × Nat × Option Nat × Option Nat :=
  (m.line, m.column, m.endLine, m.endColumn)

namespace Linter

/-- **A refusal is moved to where a warning is moved.** -/
theorem ends_of_relocate (d : Spliced) {r : Rejection} {w : Warning} (hstart : w.start = r.start)
    (hstop : w.stop = r.stop) :
    (d.relocate r).map (·.toMessage.ends) = (warningMessage (some d) w).map Message.ends := by
  have hreported : reportedPosition (some d) = d.sourcePosition := rfl
  unfold Spliced.relocate warningMessage
  rw [hstart, hstop, hreported]
  rcases d.mapM_sourceLocation_cases r.start with ⟨-, -, e, -, hl, hp⟩ | ⟨p?, hl, hp⟩
  · rw [hl, hp]
    rfl
  · rw [hl, hp]
    rcases d.mapM_sourceLocation_cases r.stop with ⟨-, -, e, -, hl', hp'⟩ | ⟨q?, hl', hp'⟩
    · rw [hl', hp']
      rfl
    · rw [hl', hp']
      cases p? <;> cases q? <;> rfl

/-- Without transpiled scripts, a refusal stands where a warning stands. -/
theorem ends_of_plain {r : Rejection} {w : Warning} (hstart : w.start = r.start)
    (hstop : w.stop = r.stop) :
    (warningMessage none w).map Message.ends = .ok r.toMessage.ends := by
  unfold warningMessage
  rw [hstart, hstop, Rejection.toMessage]
  cases r.start <;> cases r.stop <;> rfl

/-- The linter with a compiler that says nothing but one warning, which is not dropped, and finds
nothing in the document. -/
def warned (l : Linter) (w : Warning) : Linter where
  tools :=
    { l.tools with
      compile := fun _ _ => .ok { component := {}, warnings := [w] }
      parse := fun _ _ => .ok {} }
  settings := { l.settings with ignoredWarnings := [] }
  styleFilter := l.styleFilter

/-- The session of a document about which there is nothing but one warning. -/
theorem session_warned (l : Linter) (w : Warning) (text : Text) (spliced : Option Spliced) :
    (l.warned w).session text ⟨{}, [w], [], spliced⟩ =
      ((warningMessage spliced w).mapError fun e => .sourceMap (.mappings e)).map
        fun m => { messages := [m], namedBlocks := l.settings.namedBlocks } := by
  have hmessages : (l.warned w).messagesOfWarnings ⟨{}, [w], [], spliced⟩ =
      (warningMessage spliced w).map fun m => [m] := by
    cases h : warningMessage spliced w with
    | error e =>
      simp [messagesOfWarnings, warned, ignores, h]
      rfl
    | ok m =>
      simp [messagesOfWarnings, warned, ignores, h]
      rfl
  rw [session, hmessages]
  cases warningMessage spliced w <;> rfl

variable {l : Linter} {w : Warning} {document : Text}

theorem analyse_warned_plain (h : l.settings.typescript = false) (text : Text) :
    ((l.warned w).analyse text).result = .ok ⟨{}, [w], [], none⟩ := by
  have htypes : (l.warned w).settings.typescript = false := h
  simp only [analyse, htypes, Bool.false_eq_true, if_false]
  rfl

theorem analyse_warned_spliced {transpile : Text → Except Rejection Transpiled} {text : Text}
    {d : Spliced} (h : l.settings.typescript = true)
    (htranspile : l.tools.transpile? = some transpile)
    (hd : (spliceScripts transpile text).result = .ok d) :
    ((l.warned w).analyse text).result = .ok ⟨{}, [w], [], some d⟩ := by
  have htypes : (l.warned w).settings.typescript = true := h
  have htranspile' : (l.warned w).tools.transpile? = some transpile := htranspile
  simp only [analyse, htypes, htranspile', if_true]
  exact result_bind_eq_ok_iff.2 ⟨d, hd, rfl⟩

/-- What is told about a document about which there is nothing but one warning. -/
theorem ends_of_prepare_warned {spliced : Option Spliced}
    (h : ((l.warned w).analyse (l.visibleText document)).result = .ok ⟨{}, [w], [], spliced⟩) :
    ((l.warned w).prepare document).result.map (·.messages.map Message.ends) =
      (((warningMessage spliced w).map Message.ends).mapError
        fun e => .sourceMap (.mappings e)).map fun ends => [ends] := by
  have hvisible : (l.warned w).visibleText document = l.visibleText document := rfl
  unfold prepare
  dsimp only
  rw [hvisible, h]
  dsimp only
  rw [session_warned]
  cases warningMessage spliced w <;> rfl

@[simp] theorem size_visibleText (l : Linter) (document : Text) :
    size (l.visibleText document) = size document := by
  unfold visibleText
  split
  · exact size_blankStyles _ document
  · rfl

theorem prepare_of_rejected {r : Rejection}
    (h : (l.analyse (l.visibleText document)).result = .error (.rejected r)) :
    (l.prepare document).result = .ok (.ofRejection r) := by
  unfold prepare
  dsimp only
  rw [h]

theorem prepare_of_failed {f : Failure}
    (h : (l.analyse (l.visibleText document)).result = .error (.failed f)) :
    (l.prepare document).result = .error f := by
  unfold prepare
  dsimp only
  rw [h]

/-- What is told about a document that the compiler refused, with scripts transpiled. -/
theorem ends_of_prepare_relocated {d : Spliced} {r : Rejection}
    (h : (l.analyse (l.visibleText document)).result = .error (relocated d r)) :
    (l.prepare document).result.map (·.messages.map Message.ends) =
      (((d.relocate r).map (·.toMessage.ends)).mapError
        fun e => .sourceMap (.mappings e)).map fun ends => [ends] := by
  unfold prepare
  dsimp only
  rw [h, relocated]
  cases d.relocate r <;> rfl

/-- **A refusal is reported, at the positions of a warning.**  For every document of less than
`2 ^ 32 - 1` bytes, all settings and filters and whatever the transpiler, the compiler and the
parser answer, if the columns of their refusals are less than `2 ^ 32 - 1`:

* if the analysis ends with a refusal, there is a session, and the refusal is no failure;
* if one of them refuses what it was asked, there is a session with one message, an error under the
  kind of the refusal, and nothing to lint.  Otherwise scripts are transpiled, the compiler refused
  the transpiled document, one end of the refusal lies in a script whose mappings cannot be read,
  and the failure says so;
* if the compiler refused, what is told about the document stands where it would stand if the
  compiler had given a warning with the same ends instead. -/
theorem rejection_reported (l : Linter) (document : Text) (hsize : size document + 1 < 2 ^ 32)
    (hrefusals : ∀ call ∈ (l.prepare document).calls, ∀ r, l.tools.Rejects call r → r.Fits) :
    let text := l.visibleText document
    let run := l.prepare document
    (∀ r, (l.analyse text).result = .error (.rejected r) → run.result = .ok (.ofRejection r)) ∧
    ∀ call ∈ run.calls, ∀ r, l.tools.Rejects call r →
      ((∃ s, run.result = .ok s ∧ s.Reports r) ∨
        ∃ transpile d options location s e,
          l.settings.typescript = true ∧ l.tools.transpile? = some transpile ∧
          (spliceScripts transpile text).result = .ok d ∧ call = .compile d.generated options ∧
          (r.start = some location ∨ r.stop = some location) ∧ s ∈ d.splices ∧
          s.contains ((LineTable.ofText d.generated).offsetOfLocation location) = true ∧
          Mappings.decode s.mappings = .error e ∧
          run.result = .error (.sourceMap (.mappings e))) ∧
      ∀ source options, call = .compile source options →
        ∀ w : Warning, w.start = r.start → w.stop = r.stop →
          run.result.map (·.messages.map Message.ends) =
            ((l.warned w).prepare document).result.map (·.messages.map Message.ends) := by
  intro text run
  have hrejected : ∀ r, (l.analyse text).result = .error (.rejected r) →
      run.result = .ok (.ofRejection r) := fun r h => prepare_of_rejected h
  have htext : size (l.visibleText document) + 1 < 2 ^ 32 := by rwa [size_visibleText]
  refine ⟨hrejected, fun call hcall r hr => ?_⟩
  have hfits := (hrefusals call hcall r hr).toMessage
  obtain ⟨halt, hhalt, hended⟩ := rejects_cases hcall hr
  cases hended with
  | @transpile body start hcall =>
    have hfits := (r.fits_relocate htext body start).toMessage
    refine ⟨.inl ⟨_, hrejected _ hhalt, _, rfl, rfl, rfl, rfl, hfits⟩, fun source options h => ?_⟩
    rw [hcall] at h
    cases h
  | parse hcall =>
    refine ⟨.inl ⟨_, hrejected _ hhalt, _, rfl, rfl, rfl, rfl, hfits⟩, fun source options h => ?_⟩
    rw [hcall] at h
    cases h
  | compile hplain hcall =>
    refine ⟨.inl ⟨_, hrejected _ hhalt, _, rfl, rfl, rfl, rfl, hfits⟩, ?_⟩
    intro source options _ w hw hw'
    rw [ends_of_prepare_warned (analyse_warned_plain hplain _), ends_of_plain hw hw',
      hrejected _ hhalt]
    rfl
  | @compileSpliced transpile d options htypes htranspile hd hcall =>
    obtain ⟨hsource, parts, hsplices, hrun⟩ := exists_splicing_of_spliceScripts hd
    have weave := hrun.weave hsource hsplices
    refine ⟨?_, fun source options _ w hw hw' => ?_⟩
    · unfold relocated at hhalt
      split at hhalt
      · next r' hr' =>
        obtain ⟨hkind, hmessage⟩ := Spliced.kind_of_relocate hr'
        rw [← hsource] at htext
        exact .inl ⟨_, hrejected _ hhalt, _, rfl, rfl, congrArg some hkind, hmessage,
          (Spliced.fits_of_relocate htext hr').toMessage⟩
      · next e he =>
        obtain ⟨location, hlocation, hposition⟩ := Spliced.exists_of_relocate_eq_error he
        obtain ⟨s, hs, hcontains, hdecode⟩ := weave.sourcePosition_eq_error_iff.1 hposition
        exact .inr ⟨transpile, d, options, location, s, e, htypes, htranspile, hd, hcall, hlocation,
          hs, hcontains, hdecode, prepare_of_failed hhalt⟩
    · rw [ends_of_prepare_warned (analyse_warned_spliced htypes htranspile hd),
        ends_of_prepare_relocated hhalt, ends_of_relocate d hw hw']

/-- A refusal of the line feed behind two scripts. -/
def feedRefusal : Rejection where
  kind := "ParseError"
  message := "Unexpected end of line"
  start := some ⟨2, 17⟩
  stop := some ⟨2, 17⟩

/-- A linter whose compiler refuses the line feed behind two scripts, once they are transpiled. -/
def refusingFeed : Linter where
  tools :=
    { compile := fun _ _ => .error feedRefusal
      parse := fun _ _ => .ok {}
      transpile? := some transpileUnevenly }
  settings := { typescript := true, styles := .none }

/-- The scripts have become shorter and longer, and the mappings of one of them cannot be read. -/
theorem rejection_reported_behind_scripts :
    size twoScripts + 1 < 2 ^ 32 ∧
      (∀ call ∈ (refusingFeed.prepare twoScripts).calls, ∀ r,
        refusingFeed.tools.Rejects call r → r.Fits) ∧
      (∃ s, (refusingFeed.prepare twoScripts).result = .ok s ∧ s.Reports feedRefusal) ∧
      (refusingFeed.prepare twoScripts).result.map (·.messages.map Message.ends) =
        ((refusingFeed.warned ⟨"code", "", feedRefusal.start, feedRefusal.stop⟩).prepare
          twoScripts).result.map (·.messages.map Message.ends) := by
  have hsize : size twoScripts + 1 < 2 ^ 32 := by decide +kernel
  have hrefusals : ∀ call ∈ (refusingFeed.prepare twoScripts).calls, ∀ r,
      refusingFeed.tools.Rejects call r → r.Fits := by
    intro call _ r hr
    cases call with
    | compile text options =>
      cases hr
      rintro location (h | h) <;> cases h <;> exact ⟨by decide, by decide⟩
    | parse text options => cases hr
    | transpile body =>
      obtain ⟨transpile, htranspile, hr⟩ := hr
      cases htranspile
      unfold transpileUnevenly at hr
      split at hr <;> cases hr
  have hcall : Call.compile twoScriptsTranspiled.generated refusingFeed.settings.optionsInUse ∈
      (refusingFeed.prepare twoScripts).calls :=
    mem_calls_bind_iff.2 (.inr ⟨_, spliceScripts_twoScripts,
      mem_calls_bind_iff.2 (.inl List.mem_cons_self)⟩)
  obtain ⟨hreports, hwarning⟩ :=
    (rejection_reported refusingFeed twoScripts hsize hrefusals).2 _ hcall feedRefusal rfl
  refine ⟨hsize, hrefusals, ?_, hwarning _ _ rfl _ rfl rfl⟩
  rcases hreports with hreports | ⟨_, d, _, location, s, e, -, htranspile, hd, -, hlocation, hs,
    hcontains, -⟩
  · exact hreports
  · -- the refusal lies outside of both scripts
    cases htranspile
    obtain rfl := Except.ok.inj (spliceScripts_twoScripts.symm.trans hd)
    have hout : ∀ s ∈ twoScriptsTranspiled.splices, s.contains
        ((LineTable.ofText twoScriptsTranspiled.generated).offsetOfLocation ⟨2, 17⟩) = false := by
      decide +kernel
    obtain rfl : ⟨2, 17⟩ = location := by rcases hlocation with h | h <;> exact Option.some.inj h
    rw [hout s hs] at hcontains
    cases hcontains

end Linter

end ComponentLint
