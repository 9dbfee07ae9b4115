import ComponentLint.Proofs.Text.Bytes
import ComponentLint.SourceMap.Splice
import Mathlib.Algebra.Ring.Int.Defs
import Mathlib.Algebra.Ring.Nat

/-!
# A spliced document and its untouched stretches

A document with spliced bodies is taken apart into what stands before the first body, and each
splice together with what follows it up to the next one.  The texts between the bodies are the same
in the document as written and in the generated one, only shifted by what the bodies before them
have grown.

## Main definitions

* `sourceOf parts`, `generatedOf parts` — the splices with what follows them, as written and as
  generated.
* `Aligned start generatedStart lead parts` — the splices stand where they say.
* `Spliced.Weave d lead parts` — `d` is taken apart into `lead` and `parts`.

## Main statements

* `Aligned.starts` — where a splice stands in the two documents.
* `size_generatedOf` — the generated document is longer by what the splices have grown.
* `Spliced.Weave.generatedStart_eq`, `Spliced.Weave.generatedStop_lt` — a splice is shifted by
  what those before it have grown, and does not touch the next one.
-/

namespace ComponentLint

open Text

/-- Splices with what follows each of them, as written. -/
def sourceOf (parts : List (Splice × Text)) : Text := parts.flatMap fun x => x.1.source ++ x.2

/-- Splices with what follows each of them, as generated. -/
def generatedOf (parts : List (Splice × Text)) : Text :=
  parts.flatMap fun x => x.1.generated ++ x.2

@[simp] theorem sourceOf_nil : sourceOf [] = [] := rfl

@[simp] theorem generatedOf_nil : generatedOf [] = [] := rfl

@[simp] theorem sourceOf_cons (s : Splice) (after : Text) (parts : List (Splice × Text)) :
    sourceOf ((s, after) :: parts) = s.source ++ (after ++ sourceOf parts) := by
  rw [sourceOf, List.flatMap_cons, List.append_assoc]
  rfl

@[simp] theorem generatedOf_cons (s : Splice) (after : Text) (parts : List (Splice × Text)) :
    generatedOf ((s, after) :: parts) = s.generated ++ (after ++ generatedOf parts) := by
  rw [generatedOf, List.flatMap_cons, List.append_assoc]
  rfl

@[simp] theorem sourceOf_append (parts more : List (Splice × Text)) :
    sourceOf (parts ++ more) = sourceOf parts ++ sourceOf more :=
  List.flatMap_append

@[simp] theorem generatedOf_append (parts more : List (Splice × Text)) :
    generatedOf (parts ++ more) = generatedOf parts ++ generatedOf more :=
  List.flatMap_append

/-- The generated document is longer by what the splices have grown. -/
theorem size_generatedOf (parts : List (Splice × Text)) :
    (size (generatedOf parts) : Int) =
      size (sourceOf parts) + ((parts.map Prod.fst).map Splice.growth).sum := by
  induction parts with
  | nil => rfl
  | cons x parts ih =>
    obtain ⟨s, after⟩ := x
    rw [sourceOf_cons, generatedOf_cons, List.map_cons, List.map_cons, List.sum_cons,
      Splice.growth]
    simp only [size_append, Int.natCast_add]
    omega

/-- The splices stand where they say, behind a text `lead` that starts at byte `start` of the
document as written and at byte `generatedStart` of the generated one. -/
def Aligned (start generatedStart : Nat) (lead : Text) : List (Splice × Text) → Prop
  | [] => True
  | (s, after) :: rest =>
    s.sourceStart = start + size lead ∧ s.generatedStart = generatedStart + size lead ∧
      Aligned (s.sourceStart + size s.source) s.generatedStop after rest

namespace Aligned

variable {start generatedStart : Nat} {lead : Text}

/-- More text before the first splice. -/
theorem prepend {parts : List (Splice × Text)} (t : Text)
    (h : Aligned (start + size t) (generatedStart + size t) lead parts) :
    Aligned start generatedStart (t ++ lead) parts := by
  cases parts with
  | nil => trivial
  | cons x parts =>
    obtain ⟨hstart, hgenerated, hrest⟩ := h
    refine ⟨?_, ?_, hrest⟩
    · rw [hstart, size_append, Nat.add_assoc]
    · rw [hgenerated, size_append, Nat.add_assoc]

/-- **Where a splice stands**: behind all that comes before it. -/
theorem starts {before later : List (Splice × Text)} {s : Splice} {after : Text}
    (h : Aligned start generatedStart lead (before ++ (s, after) :: later)) :
    s.sourceStart = start + size (lead ++ sourceOf before) ∧
      s.generatedStart = generatedStart + size (lead ++ generatedOf before) := by
  induction before generalizing start generatedStart lead with
  | nil =>
    obtain ⟨hstart, hgenerated, -⟩ := h
    rw [sourceOf_nil, generatedOf_nil, List.append_nil]
    exact ⟨hstart, hgenerated⟩
  | cons x before ih =>
    obtain ⟨s', after'⟩ := x
    obtain ⟨hstart, hgenerated, hrest⟩ := h
    obtain ⟨hs, hg⟩ := ih hrest
    rw [sourceOf_cons, generatedOf_cons]
    rw [Splice.generatedStop] at hg
    simp only [size_append] at hs hg ⊢
    omega

/-- No splice starts before the end of what stands before the first one. -/
theorem le_generatedStart {parts : List (Splice × Text)}
    (h : Aligned start generatedStart lead parts) {s : Splice} (hs : s ∈ parts.map Prod.fst) :
    generatedStart + size lead ≤ s.generatedStart := by
  obtain ⟨⟨s, after⟩, hmem, rfl⟩ := List.mem_map.1 hs
  obtain ⟨before, later, rfl⟩ := List.append_of_mem hmem
  have := h.starts.2
  rw [size_append] at this
  show _ ≤ s.generatedStart
  omega

end Aligned

/-- A spliced document is taken apart into the text before the first splice, and each splice with
what follows it up to the next one. -/
structure Spliced.Weave (d : Spliced) (lead : Text) (parts : List (Splice × Text)) : Prop where
  source_eq : d.source = lead ++ sourceOf parts
  generated_eq : d.generated = lead ++ generatedOf parts
  splices_eq : d.splices = parts.map Prod.fst
  aligned : Aligned 0 0 lead parts
  /-- Two splices do not touch. -/
  after_ne_nil : ∀ x ∈ parts, x.2 ≠ []

/-- A text that is not empty has bytes. -/
theorem Text.size_pos {t : Text} (h : t ≠ []) : 0 < size t := by
  obtain ⟨c, t, rfl⟩ := List.exists_cons_of_ne_nil h
  have := c.utf8Size_pos
  rw [size_cons]
  omega

namespace Spliced.Weave

variable {d : Spliced} {lead : Text} {parts before later : List (Splice × Text)}

/-- A body stands in the document as written where its splice says. -/
theorem slice?_source {s : Splice} {after : Text} (w : d.Weave lead parts)
    (hparts : parts = before ++ (s, after) :: later) :
    slice? d.source s.sourceStart (s.sourceStart + size s.source) = some s.source := by
  subst hparts
  rw [slice?_eq_some_iff]
  refine ⟨lead ++ sourceOf before, after ++ sourceOf later, ?_, ?_, rfl⟩
  · rw [w.source_eq, sourceOf_append, sourceOf_cons]
    simp only [List.append_assoc]
  · rw [w.aligned.starts.1, Nat.zero_add]

/-- A generated body stands in the generated document where its splice says. -/
theorem slice?_generated {s : Splice} {after : Text} (w : d.Weave lead parts)
    (hparts : parts = before ++ (s, after) :: later) :
    slice? d.generated s.generatedStart s.generatedStop = some s.generated := by
  subst hparts
  rw [slice?_eq_some_iff]
  refine ⟨lead ++ generatedOf before, after ++ generatedOf later, ?_, ?_, rfl⟩
  · rw [w.generated_eq, generatedOf_append, generatedOf_cons]
    simp only [List.append_assoc]
  · rw [w.aligned.starts.2, Nat.zero_add]

/-- A splice is shifted by what those before it have grown. -/
theorem generatedStart_eq {s : Splice} {after : Text} (w : d.Weave lead parts)
    (hparts : parts = before ++ (s, after) :: later) :
    (s.generatedStart : Int) =
      s.sourceStart + ((before.map Prod.fst).map Splice.growth).sum := by
  subst hparts
  obtain ⟨hsource, hgenerated⟩ := w.aligned.starts
  have hgrowth := size_generatedOf before
  rw [hsource, hgenerated]
  simp only [size_append, Int.natCast_add]
  omega

/-- A splice does not touch those after it. -/
theorem generatedStop_lt {s : Splice} {after : Text} (w : d.Weave lead parts)
    (hparts : parts = before ++ (s, after) :: later) {s' : Splice}
    (hs' : s' ∈ later.map Prod.fst) : s.generatedStop < s'.generatedStart := by
  subst hparts
  have hpos := size_pos (w.after_ne_nil (s, after) (by simp))
  obtain ⟨⟨s', after'⟩, hmem, rfl⟩ := List.mem_map.1 hs'
  obtain ⟨between, rest, rfl⟩ := List.append_of_mem hmem
  have hs := w.aligned.starts.2
  have haligned := w.aligned
  rw [List.append_cons, ← List.append_assoc] at haligned
  have hs' := haligned.starts.2
  simp only [generatedOf_append, generatedOf_cons, generatedOf_nil, List.append_nil,
    size_append] at hs hs'
  show s.generatedStart + size s.generated < s'.generatedStart
  simp only at hpos
  omega

end Spliced.Weave

end ComponentLint
