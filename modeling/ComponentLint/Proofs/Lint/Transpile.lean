import ComponentLint.Lint.Transpile
import ComponentLint.Proofs.Lists
import ComponentLint.Proofs.Markup.Search
import ComponentLint.Proofs.SourceMap.Following

/-!
# Transpiled scripts in their document

Transpiling the scripts of a document keeps two positions, one in the document as written and one
in the generated one.  The run over the stretches is described by an invariant, with one lemma for
each kind of stretch: the bodies are those that the search for scripts finds, each is handed to the
transpiler once and in order, and the splices stand where they say in both documents.

## Main definitions

* `Splicing transpile start generatedStart stretches calls text parts` — what a run over stretches
  has done.

## Main statements

* `Consultation.result_bind_eq_ok_iff` — a consultation succeeds if both its parts do.
* `Splicing.plain`, `Splicing.element`, `exists_splicing` — the steps, and the run.
* `weave_of_spliceScripts` — the document with transpiled scripts is woven from the same stretches
  as the document.
* `spliceScripts_decomposition` — **the transpiled document differs from the document in the bodies
  of its scripts.**
* `sourcePosition_of_spliceScripts` — **a position outside the scripts leads back to the same byte,
  and one in a script into the body it was made from.**
-/

namespace ComponentLint

open Text Markup

/-! ### Consultations -/

namespace Consultation

variable {ε α β : Type} {c : Consultation ε α} {next : α → Consultation ε β}

/-- A consultation succeeds if both its parts do. -/
theorem result_bind_eq_ok_iff {b : β} :
    (c >>= next).result = .ok b ↔ ∃ a, c.result = .ok a ∧ (next a).result = .ok b := by
  show (c.andThen next).result = _ ↔ _
  cases h : c.result with
  | error e => simp [andThen, h]
  | ok a => simp [andThen, h]

/-- What is asked in the second part comes behind what is asked in the first. -/
theorem calls_bind {a : α} (h : c.result = .ok a) :
    (c >>= next).calls = c.calls ++ (next a).calls := by
  show (c.andThen next).calls = _
  simp only [andThen, h]

@[simp] theorem calls_pure (a : α) : (pure a : Consultation ε α).calls = [] := rfl

end Consultation

open Consultation

/-- A result that is there does not depend on how errors are told. -/
theorem mapError_eq_ok_iff {ε ε' α : Type} {f : ε → ε'} {r : Except ε α} {a : α} :
    r.mapError f = .ok a ↔ r = .ok a := by
  cases r <;> simp [Except.mapError]

/-- The mappings of a splice are all that a source map decides. -/
theorem Splice.eq_of_ofSourceMap {sourceStart generatedStart : Nat}
    {source generated sourceMap : Text} {s : Splice}
    (h : ofSourceMap sourceStart generatedStart source generated sourceMap = .ok s) :
    s = ⟨sourceStart, generatedStart, source, generated, s.mappings⟩ := by
  unfold ofSourceMap at h
  split at h
  · cases h
  · split at h
    · cases h
      rfl
    · cases h

/-! ### The run over the stretches -/

variable {transpile : Text → Except Rejection Transpiled} {document : Text}

@[simp] theorem calls_transpileBody (body : Text) (start : Nat) :
    (transpileBody transpile document body start).calls = [.transpile body] := rfl

@[simp] theorem calls_spliceBody (start generatedStart : Nat) (body : Text) (t : Transpiled) :
    (spliceBody start generatedStart body t).calls = [] := rfl

/-- What a run over stretches has done, from byte `start` of the document and byte
`generatedStart` of the generated one on: what it has asked, the generated text, and the splices,
each with what follows it up to the next one. -/
structure Splicing (transpile : Text → Except Rejection Transpiled) (start generatedStart : Nat)
    (stretches : List Stretch) (calls : List Call) (text : Text)
    (parts : List (Splice × Text)) : Prop where
  text_eq : text = leadOf stretches ++ generatedOf parts
  cuts_eq : cutsOf stretches = parts.map fun x => (x.1.source, x.2)
  aligned : Aligned start generatedStart (leadOf stretches) parts
  transpiled : ∀ s ∈ parts.map Prod.fst,
    ∃ t, transpile s.source = .ok t ∧ t.output = s.generated
  calls_eq : calls = (parts.map Prod.fst).map fun s => .transpile s.source

namespace Splicing

variable {start generatedStart : Nat} {stretches : List Stretch} {calls : List Call} {text : Text}
  {parts : List (Splice × Text)}

/-- A character outside the scripts is taken over. -/
theorem plain (c : Char)
    (h : Splicing transpile (start + c.utf8Size) (generatedStart + c.utf8Size) stretches calls
      text parts) :
    Splicing transpile start generatedStart (.plain c :: stretches) calls (c :: text) parts where
  text_eq := by rw [h.text_eq]; rfl
  cuts_eq := h.cuts_eq
  aligned := Aligned.prepend [c] h.aligned
  transpiled := h.transpiled
  calls_eq := h.calls_eq

/-- The tags of a script are taken over, and its body is transpiled. -/
theorem element (e : Element) {t : Transpiled} (mappings : Text) (ht : transpile e.body = .ok t)
    (h : Splicing transpile (start + size e.opening + size (e.body ++ e.closing))
      (generatedStart + size e.opening + size (t.output ++ e.closing)) stretches calls text
      parts) :
    Splicing transpile start generatedStart (.element e :: stretches)
      (.transpile e.body :: calls) (e.opening ++ t.output ++ e.closing ++ text)
      ((⟨start + size e.opening, generatedStart + size e.opening, e.body, t.output, mappings⟩,
        e.closing ++ leadOf stretches) :: parts) where
  text_eq := by
    rw [h.text_eq, generatedOf_cons]
    simp only [leadOf, List.append_assoc]
  cuts_eq := by
    rw [cutsOf, h.cuts_eq]
    rfl
  aligned := by
    refine ⟨rfl, rfl, Aligned.prepend e.closing ?_⟩
    have haligned := h.aligned
    rw [size_append, size_append, ← Nat.add_assoc, ← Nat.add_assoc] at haligned
    exact haligned
  transpiled := by
    rintro s (_ | ⟨_, hs⟩)
    · exact ⟨t, ht, rfl⟩
    · exact h.transpiled s hs
  calls_eq := by
    rw [h.calls_eq]
    rfl

end Splicing

/-- **A run over stretches** that succeeds takes over all but the bodies of the scripts. -/
theorem exists_splicing {start generatedStart : Nat} {stretches : List Stretch} {text : Text}
    {splices : List Splice}
    (h : (spliceStretches transpile document start generatedStart stretches).result =
      .ok (text, splices)) :
    ∃ parts, splices = parts.map Prod.fst ∧ Splicing transpile start generatedStart stretches
      (spliceStretches transpile document start generatedStart stretches).calls text parts := by
  induction stretches generalizing start generatedStart text splices with
  | nil =>
    cases h
    exact ⟨[], rfl, rfl, rfl, trivial, by simp, rfl⟩
  | cons stretch stretches ih =>
    cases stretch with
    | plain c =>
      rw [spliceStretches] at h ⊢
      obtain ⟨⟨text', splices'⟩, hrest, hret⟩ := result_bind_eq_ok_iff.1 h
      rw [calls_bind hrest, calls_pure, List.append_nil]
      cases hret
      obtain ⟨parts, hparts, hsplicing⟩ := ih hrest
      exact ⟨parts, hparts, hsplicing.plain c⟩
    | element e =>
      rw [spliceStretches] at h ⊢
      obtain ⟨t, ht, h⟩ := result_bind_eq_ok_iff.1 h
      obtain ⟨s, hs, h⟩ := result_bind_eq_ok_iff.1 h
      obtain ⟨⟨text', splices'⟩, hrest, hret⟩ := result_bind_eq_ok_iff.1 h
      rw [calls_bind ht, calls_bind hs, calls_bind hrest, calls_transpileBody, calls_spliceBody,
        calls_pure, List.append_nil, List.nil_append, List.singleton_append]
      cases hret
      obtain ⟨parts, hparts, hsplicing⟩ := ih hrest
      have htranspile : transpile e.body = .ok t := mapError_eq_ok_iff.1 ht
      have hsplice := Splice.eq_of_ofSourceMap (mapError_eq_ok_iff.1 hs)
      refine ⟨_ :: parts, ?_, hsplicing.element e s.mappings htranspile⟩
      rw [List.map_cons, ← hsplice, ← hparts]

/-! ### The transpiled document -/

/-- The run over a whole document, which is searched for scripts. -/
theorem exists_splicing_of_spliceScripts {d : Spliced}
    (h : (spliceScripts transpile document).result = .ok d) :
    d.source = document ∧ ∃ parts, d.splices = parts.map Prod.fst ∧
      Splicing transpile 0 0 (scan scriptName document)
        (spliceScripts transpile document).calls d.generated parts := by
  rw [spliceScripts] at h ⊢
  obtain ⟨⟨text, splices⟩, hrun, hret⟩ := result_bind_eq_ok_iff.1 h
  rw [calls_bind hrun, calls_pure, List.append_nil]
  cases hret
  exact ⟨rfl, exists_splicing hrun⟩

/-- The bodies that the run has spliced are those that the search for scripts finds. -/
theorem Splicing.dissection {calls : List Call} {text : Text} {parts : List (Splice × Text)}
    (h : Splicing transpile 0 0 (scan scriptName document) calls text parts) :
    Dissection scriptName document (leadOf (scan scriptName document))
      (parts.map fun x => (x.1.source, x.2)) := by
  rw [← h.cuts_eq]
  exact dissection_scan _ _

/-- The transpiled document is woven from the stretches of the document. -/
theorem Splicing.weave {d : Spliced} {calls : List Call} {parts : List (Splice × Text)}
    (h : Splicing transpile 0 0 (scan scriptName document) calls d.generated parts)
    (hsource : d.source = document) (hsplices : d.splices = parts.map Prod.fst) :
    d.Weave (leadOf (scan scriptName document)) parts where
  source_eq := by
    rw [hsource, sourceOf]
    conv_lhs => rw [h.dissection.text_eq]
    rw [List.flatMap_map]
  generated_eq := h.text_eq
  splices_eq := hsplices
  aligned := h.aligned
  after_ne_nil x hx :=
    h.dissection.after_ne_nil (x.1.source, x.2) (List.mem_map.2 ⟨x, hx, rfl⟩)

/-- **The transpiled document differs from the document in the bodies of its scripts.**  The
document is cut at the bodies that the search for scripts finds, and each body goes up to the first
closing tag.  In the place of each body stands what the transpiler gives for it, and the transpiler
is asked once for each body, in order.  Each splice stands where it says in both documents: it is
shifted by what those before it have grown, and does not touch those after it. -/
theorem spliceScripts_decomposition {d : Spliced}
    (h : (spliceScripts transpile document).result = .ok d) :
    ∃ lead parts,
      document = lead ++ sourceOf parts ∧ d.generated = lead ++ generatedOf parts ∧
      d.splices = parts.map Prod.fst ∧
      Dissection scriptName document lead (parts.map fun x => (x.1.source, x.2)) ∧
      (∀ s ∈ d.splices, ∃ t, transpile s.source = .ok t ∧ t.output = s.generated) ∧
      (spliceScripts transpile document).calls = d.splices.map (fun s => .transpile s.source) ∧
      ∀ before s after later, parts = before ++ (s, after) :: later →
        ClosesFirst (closingTag scriptName) s.source (after ++ sourceOf later) ∧
        slice? document s.sourceStart (s.sourceStart + size s.source) = some s.source ∧
        slice? d.generated s.generatedStart s.generatedStop = some s.generated ∧
        (s.generatedStart : Int) =
          s.sourceStart + ((before.map Prod.fst).map Splice.growth).sum ∧
        ∀ s' ∈ later.map Prod.fst, s.generatedStop < s'.generatedStart := by
  obtain ⟨hsource, parts, hsplices, hrun⟩ := exists_splicing_of_spliceScripts h
  have w := hrun.weave hsource hsplices
  refine ⟨_, parts, hsource ▸ w.source_eq, w.generated_eq, hsplices, hrun.dissection,
    hsplices ▸ hrun.transpiled, hsplices ▸ hrun.calls_eq, ?_⟩
  intro before s after later hparts
  refine ⟨?_, hsource ▸ w.slice?_source hparts, w.slice?_generated hparts,
    w.generatedStart_eq hparts, fun s' => w.generatedStop_lt hparts⟩
  have hcuts : parts.map (fun x => (x.1.source, x.2)) =
      before.map (fun x => (x.1.source, x.2)) ++
        (s.source, after) :: later.map fun x => (x.1.source, x.2) := by
    rw [hparts, List.map_append, List.map_cons]
  have hcloses := hrun.dissection.closesFirst hcuts
  rwa [List.flatMap_map] at hcloses

/-- A document with two scripts. -/
def twoScripts : Text := "<script>a</script>é<SCRIPT\nlang=ts>bc</Script>\n".toList

/-- A transpiler that makes one script longer and drops the other one, with mappings that cannot be
read. -/
def transpileUnevenly (body : Text) : Except Rejection Transpiled :=
  if body = ['a'] then .ok ⟨"let a".toList, "\x7b\"mappings\":\"AAAA\"\x7d".toList⟩
  else .ok ⟨[], "\x7b\"mappings\":\"!\"\x7d".toList⟩

/-- The document with two scripts, transpiled. -/
def twoScriptsTranspiled : Spliced where
  source := twoScripts
  generated := "<script>let a</script>é<SCRIPT\nlang=ts></Script>\n".toList
  splices := [⟨8, 8, ['a'], "let a".toList, "AAAA".toList⟩, ⟨36, 40, ['b', 'c'], [], ['!']⟩]

theorem spliceScripts_twoScripts :
    (spliceScripts transpileUnevenly twoScripts).result = .ok twoScriptsTranspiled := by
  decide +kernel

theorem spliceScripts_decomposition_twoScripts :
    (spliceScripts transpileUnevenly twoScripts).result = .ok twoScriptsTranspiled ∧
      (spliceScripts transpileUnevenly twoScripts).calls =
        [.transpile ['a'], .transpile ['b', 'c']] ∧
      ∃ lead parts, parts.map Prod.fst = twoScriptsTranspiled.splices ∧
        Dissection scriptName twoScripts lead (parts.map fun x => (x.1.source, x.2)) ∧
        twoScriptsTranspiled.generated = lead ++ generatedOf parts := by
  refine ⟨spliceScripts_twoScripts, ?_⟩
  obtain ⟨lead, parts, -, hgenerated, hsplices, hcuts, -, hcalls, -⟩ :=
    spliceScripts_decomposition spliceScripts_twoScripts
  exact ⟨hcalls, lead, parts, hsplices.symm, hcuts, hgenerated⟩

/-- **A position in the transpiled document leads back.**  Outside the splices, whatever their
mappings are, it leads to the same byte of the same untouched stretch: its offset without what the
splices before it have grown.  In a splice, both ends included, a position is found exactly if the
mappings of the splice can be read, and it lies in the body as written.  The document has less than
`2 ^ 32 - 1` bytes, so that every position that is found is one of 32 bits. -/
theorem sourcePosition_of_spliceScripts {d : Spliced}
    (h : (spliceScripts transpile document).result = .ok d)
    (hsize : size document + 1 < 2 ^ 32) (location : Location) :
    let offset := (LineTable.ofText d.generated).offsetOfLocation location
    d.source = document ∧
    ((∀ s ∈ d.splices, ¬ (s.generatedStart ≤ offset ∧ offset ≤ s.generatedStop)) →
      ∃ n : Nat, (n : Int) = offset - growthBefore offset d.splices ∧ d.SameByte offset n ∧
        d.sourcePosition location = .ok ((LineTable.ofText document).placeOf n).toPosition) ∧
    (∀ s ∈ d.splices, s.generatedStart ≤ offset → offset ≤ s.generatedStop →
      (∀ e, d.sourcePosition location = .error e ↔ Mappings.decode s.mappings = .error e) ∧
      ((∃ m, Mappings.decode s.mappings = .ok m) →
        ∃ n, s.sourceStart ≤ n ∧ n ≤ s.sourceStart + size s.source ∧
          d.sourcePosition location =
            .ok ((LineTable.ofText document).placeOf n).toPosition)) ∧
    ∀ position, d.sourcePosition location = .ok position → position.Fits := by
  intro offset
  obtain ⟨hsource, parts, hsplices, hrun⟩ := exists_splicing_of_spliceScripts h
  have w := hrun.weave hsource hsplices
  rw [← hsource] at hsize
  refine ⟨hsource, fun hout => ?_, fun s hs hstart hstop => ?_, fun position hposition => ?_⟩
  · rw [← hsource]
    exact w.sourcePosition_outside rfl hout
  · rw [← hsource]
    exact w.sourcePosition_inside rfl hs hstart hstop
  · exact d.fits_of_sourcePosition hsize hposition

/-- Behind both scripts, in the one that was dropped, and in the one that was made longer. -/
theorem sourcePosition_of_twoScripts :
    (spliceScripts transpileUnevenly twoScripts).result = .ok twoScriptsTranspiled ∧
      size twoScripts + 1 < 2 ^ 32 ∧
      (∃ n : Nat, (n : Int) = 43 ∧ twoScriptsTranspiled.SameByte 45 n ∧
        twoScriptsTranspiled.sourcePosition ⟨2, 13⟩ =
          .ok ((LineTable.ofText twoScripts).placeOf n).toPosition) ∧
      (∃ e, twoScriptsTranspiled.sourcePosition ⟨2, 8⟩ = .error e) ∧
      (∃ n, 8 ≤ n ∧ n ≤ 9 ∧ twoScriptsTranspiled.sourcePosition ⟨1, 10⟩ =
        .ok ((LineTable.ofText twoScripts).placeOf n).toPosition) := by
  have hsize : size twoScripts + 1 < 2 ^ 32 := by decide +kernel
  have hmoved := sourcePosition_of_spliceScripts spliceScripts_twoScripts hsize
  refine ⟨spliceScripts_twoScripts, hsize, ?_, ?_, ?_⟩
  · exact (hmoved ⟨2, 13⟩).2.1 (by decide +kernel)
  · exact ⟨_, ((hmoved ⟨2, 8⟩).2.2.1 ⟨36, 40, ['b', 'c'], [], ['!']⟩ (by decide)
      (by decide +kernel) (by decide +kernel)).1 _ |>.2 (by rfl)⟩
  · exact ((hmoved ⟨1, 10⟩).2.2.1 ⟨8, 8, ['a'], "let a".toList, "AAAA".toList⟩ (by decide)
      (by decide +kernel) (by decide +kernel)).2 ⟨_, by rfl⟩

end ComponentLint
