import ComponentLint.Proofs.LineTable.Words
import ComponentLint.Proofs.SourceMap.Weave
import ComponentLint.Span

/-!
# From the generated document back

An offset outside the splices is moved by what the splices before it have grown.  Since the texts
between the splices are the same in both documents, it arrives at the same byte of the same text.
An offset in a splice, both ends included, is decided by the mappings of that splice alone, and
never leaves the body.

## Main definitions

* `growthBefore offset splices` — how much the splices that end before an offset have grown.
* `gapsFrom start stop spans` — the spans between the given ones.
* `Spliced.sourceGaps d`, `Spliced.generatedGaps d` — the untouched stretches of `d`, as written
  and as generated.
* `SameByteAmong`, `Spliced.SameByte d offset n` — byte `offset` of the generated document is byte
  `n` of the document as written, in the same untouched stretch.

## Main statements

* `Spliced.followPast_append` — splices that do not contain the offset are passed.
* `SameByteAmong.head`, `SameByteAmong.tail`, `exists_sameByteAmong` — the same byte, before a
  splice, behind it, and among all of them.
* `Spliced.Weave.sourcePosition_outside` — outside the splices, the same byte is found.
* `Spliced.Weave.sourcePosition_inside` — inside a splice, its mappings decide.
-/

namespace ComponentLint

open Text

/-! ### Past the splices -/

/-- How much the splices that end before an offset have grown. -/
def growthBefore (offset : Nat) (splices : List Splice) : Int :=
  ((splices.filter (·.generatedStop < offset)).map Splice.growth).sum

theorem growthBefore_cons (offset : Nat) (s : Splice) (splices : List Splice) :
    growthBefore offset (s :: splices) =
      (if s.generatedStop < offset then s.growth else 0) + growthBefore offset splices := by
  unfold growthBefore
  by_cases h : s.generatedStop < offset
  · rw [List.filter_cons_of_pos (by simpa using h), if_pos h]
    rfl
  · rw [List.filter_cons_of_neg (by simpa using h), if_neg h, Int.zero_add]

theorem Splice.contains_iff {s : Splice} {offset : Nat} :
    s.contains offset = true ↔ s.generatedStart ≤ offset ∧ offset ≤ s.generatedStop := by
  rw [Splice.contains, Bool.and_eq_true, decide_eq_true_iff, decide_eq_true_iff]

namespace Spliced

/-- Splices that do not contain the offset are passed, and their growth is taken back. -/
theorem followPast_append {offset : Nat} {before : List Splice}
    (h : ∀ s ∈ before, ¬ (s.generatedStart ≤ offset ∧ offset ≤ s.generatedStop))
    (rest : List Splice) (shifted : Int) :
    followPast offset (before ++ rest) shifted =
      followPast offset rest (shifted - growthBefore offset before) := by
  induction before generalizing shifted with
  | nil => rw [List.nil_append, growthBefore, List.filter_nil, List.map_nil, List.sum_nil,
      Int.sub_zero]
  | cons s before ih =>
    obtain ⟨hs, hbefore⟩ := List.forall_mem_cons.1 h
    rw [← Splice.contains_iff] at hs
    rw [List.cons_append, followPast, if_neg hs, ih hbefore, growthBefore_cons]
    split
    · rw [Int.sub_sub]
    · rw [Int.zero_add]

/-- An offset outside the splices is moved by what those before it have grown. -/
theorem followPast_outside {offset : Nat} {splices : List Splice}
    (h : ∀ s ∈ splices, ¬ (s.generatedStart ≤ offset ∧ offset ≤ s.generatedStop))
    (shifted : Int) :
    followPast offset splices shifted =
      .ok (shifted - growthBefore offset splices).toNat := by
  have := followPast_append h [] shifted
  rwa [List.append_nil] at this

end Spliced

/-! ### Untouched stretches -/

/-- The spans between the given ones, from byte `start` up to byte `stop`. -/
def gapsFrom (start stop : Nat) : List Span → List Span
  | [] => [⟨start, stop⟩]
  | span :: rest => ⟨start, span.start⟩ :: gapsFrom span.stop stop rest

/-- The span of the body as written. -/
def Splice.sourceSpan (s : Splice) : Span := ⟨s.sourceStart, s.sourceStart + size s.source⟩

/-- The span of the generated body. -/
def Splice.generatedSpan (s : Splice) : Span := ⟨s.generatedStart, s.generatedStop⟩

namespace Spliced

/-- The untouched stretches of the document as written. -/
def sourceGaps (d : Spliced) : List Span :=
  gapsFrom 0 (size d.source) (d.splices.map Splice.sourceSpan)

/-- The untouched stretches of the generated document. -/
def generatedGaps (d : Spliced) : List Span :=
  gapsFrom 0 (size d.generated) (d.splices.map Splice.generatedSpan)

end Spliced

/-- Byte `offset` of a generated text is byte `n` of the text as written, in the same one of the
untouched stretches, which are `generatedGaps` in the one and `gaps` in the other. -/
structure SameByteAmong (source generated : Text) (gaps generatedGaps : List Span)
    (offset n : Nat) : Prop where
  /-- Both stand equally far from the start of a stretch that is the same text in both. -/
  exists_gap : ∃ (i : Nat) (a b : Span) (stretch : Text),
    gaps[i]? = some a ∧ generatedGaps[i]? = some b ∧
      a.slice? source = some stretch ∧ b.slice? generated = some stretch ∧
      b.start ≤ offset ∧ offset ≤ b.stop ∧ n = a.start + (offset - b.start)
  /-- The bytes are equal; at the end of the texts there is none. -/
  byte_eq : (bytes source)[n]? = (bytes generated)[offset]?

/-- Byte `offset` of the generated document is byte `n` of the document as written, in the same
untouched stretch. -/
def Spliced.SameByte (d : Spliced) (offset n : Nat) : Prop :=
  SameByteAmong d.source d.generated d.sourceGaps d.generatedGaps offset n

namespace SameByteAmong

/-- A byte of the first stretch.  Its end counts if the same text follows. -/
theorem head {front generatedFront lead rest generatedRest : Text} {i : Nat}
    (hi : i ≤ size lead) (hrest : i < size lead ∨ rest = generatedRest)
    (gaps generatedGaps : List Span) :
    SameByteAmong (front ++ (lead ++ rest)) (generatedFront ++ (lead ++ generatedRest))
      (⟨size front, size front + size lead⟩ :: gaps)
      (⟨size generatedFront, size generatedFront + size lead⟩ :: generatedGaps)
      (size generatedFront + i) (size front + i) where
  exists_gap := by
    refine ⟨0, _, _, lead, rfl, rfl, ?_, ?_, Nat.le_add_right _ _, Nat.add_le_add_left hi _, ?_⟩
    · exact slice?_eq_some_iff.2 ⟨front, rest, (List.append_assoc ..).symm, rfl, rfl⟩
    · exact slice?_eq_some_iff.2
        ⟨generatedFront, generatedRest, (List.append_assoc ..).symm, rfl, rfl⟩
    · rw [Nat.add_sub_cancel_left]
  byte_eq := by
    rw [getElem?_bytes_append, getElem?_bytes_append]
    rcases hrest with hlt | rfl
    · rw [getElem?_bytes_append_left hlt, getElem?_bytes_append_left hlt]
    · rfl

/-- A byte of a later stretch. -/
theorem tail {source generated : Text} {gaps generatedGaps : List Span} {offset n : Nat}
    (h : SameByteAmong source generated gaps generatedGaps offset n) (a b : Span) :
    SameByteAmong source generated (a :: gaps) (b :: generatedGaps) offset n where
  exists_gap := by
    obtain ⟨i, hi⟩ := h.exists_gap
    exact ⟨i + 1, hi⟩
  byte_eq := h.byte_eq

end SameByteAmong

/-- Nothing that starts behind an offset ends before it. -/
theorem growthBefore_eq_zero {offset : Nat} {splices : List Splice}
    (h : ∀ s ∈ splices, offset < s.generatedStart) : growthBefore offset splices = 0 := by
  have hnone : splices.filter (·.generatedStop < offset) = [] := by
    rw [List.filter_eq_nil_iff]
    intro s hs hstop
    have hstart := h s hs
    rw [decide_eq_true_iff, Splice.generatedStop] at hstop
    omega
  rw [growthBefore, hnone]
  rfl

/-- **The same byte in the same stretch.**  The induction goes over the splices; `front` and
`generatedFront` are what has been passed in the two documents. -/
theorem exists_sameByteAmong {front generatedFront lead : Text} {parts : List (Splice × Text)}
    (haligned : Aligned (size front) (size generatedFront) lead parts) {offset : Nat}
    (hle : size generatedFront ≤ offset)
    (hstop : offset ≤ size (generatedFront ++ (lead ++ generatedOf parts)))
    (hout : ∀ s ∈ parts.map Prod.fst,
      ¬ (s.generatedStart ≤ offset ∧ offset ≤ s.generatedStop)) :
    ∃ n : Nat,
      (n : Int) =
        size front + (offset - size generatedFront) - growthBefore offset (parts.map Prod.fst) ∧
      SameByteAmong (front ++ (lead ++ sourceOf parts))
        (generatedFront ++ (lead ++ generatedOf parts))
        (gapsFrom (size front) (size (front ++ (lead ++ sourceOf parts)))
          ((parts.map Prod.fst).map Splice.sourceSpan))
        (gapsFrom (size generatedFront) (size (generatedFront ++ (lead ++ generatedOf parts)))
          ((parts.map Prod.fst).map Splice.generatedSpan))
        offset n := by
  induction parts generalizing front generatedFront lead with
  | nil =>
    obtain ⟨i, rfl⟩ := Nat.exists_eq_add_of_le hle
    simp only [sourceOf_nil, generatedOf_nil, List.append_nil, size_append] at hstop ⊢
    refine ⟨size front + i, ?_, ?_⟩
    · simp only [growthBefore, List.map_nil, List.filter_nil, List.sum_nil]
      omega
    · have hhead := @SameByteAmong.head front generatedFront lead [] [] i (by omega) (Or.inr rfl)
        [] []
      rwa [List.append_nil] at hhead
  | cons x parts ih =>
    obtain ⟨s, after⟩ := x
    obtain ⟨hs, hg, hrest⟩ := haligned
    simp only [List.map_cons] at hout ⊢
    obtain ⟨houts, hout⟩ := List.forall_mem_cons.1 hout
    by_cases hbefore : offset < s.generatedStart
    · -- the offset lies before the splice, in `lead`
      obtain ⟨i, rfl⟩ := Nat.exists_eq_add_of_le hle
      have hi : i < size lead := by omega
      have hzero : growthBefore (size generatedFront + i) (s :: parts.map Prod.fst) = 0 := by
        refine growthBefore_eq_zero (List.forall_mem_cons.2 ⟨hbefore, fun s' hs' => ?_⟩)
        have hle' := hrest.le_generatedStart hs'
        rw [Splice.generatedStop] at hle'
        omega
      refine ⟨size front + i, by rw [hzero]; omega, ?_⟩
      rw [gapsFrom, gapsFrom, Splice.sourceSpan, Splice.generatedSpan, hs, hg]
      exact SameByteAmong.head (Nat.le_of_lt hi) (Or.inl hi) _ _
    · -- the splice is passed
      have hafter : s.generatedStop < offset := by omega
      have hfront : s.sourceStart + size s.source = size (front ++ lead ++ s.source) := by
        simp only [size_append, hs]
      have hgfront : s.generatedStop = size (generatedFront ++ lead ++ s.generated) := by
        simp only [size_append, Splice.generatedStop, hg]
      rw [hfront, hgfront] at hrest
      obtain ⟨n, hn, hbyte⟩ := ih hrest (by omega) (by simpa using hstop) hout
      refine ⟨n, ?_, ?_⟩
      · rw [hn, growthBefore_cons, if_pos hafter, ← hfront, ← hgfront, Splice.growth,
          Splice.generatedStop]
        omega
      · rw [← hfront, ← hgfront] at hbyte
        simp only [List.append_assoc, sourceOf_cons, generatedOf_cons] at hbyte ⊢
        exact hbyte.tail _ _

/-! ### Positions -/

/-- A place that mappings lead to lies in the body. -/
theorem Splice.bodyOffset_le (s : Splice) (origin : Option Origin) :
    s.bodyOffset origin ≤ size s.source := by
  unfold bodyOffset
  split
  · exact Nat.zero_le _
  · split
    · exact Nat.zero_le _
    · exact LineTable.offsetOf_le_size s.source _

namespace Spliced

/-- A position is found if an offset is, and is its place in the document as written. -/
theorem sourcePosition_eq_map (d : Spliced) (location : Location) :
    d.sourcePosition location =
      (d.sourceOffset ((LineTable.ofText d.generated).offsetOfLocation location)).map
        fun n => ((LineTable.ofText d.source).placeOf n).toPosition := by
  rw [sourcePosition]
  cases d.sourceOffset ((LineTable.ofText d.generated).offsetOfLocation location) <;> rfl

/-- A location is moved to the position of an offset, or not at all. -/
theorem sourcePosition_cases (d : Spliced) (location : Location) :
    (∃ e, d.sourcePosition location = .error e) ∨
      ∃ n, d.sourcePosition location =
        .ok ((LineTable.ofText d.source).placeOf n).toPosition := by
  rw [sourcePosition_eq_map]
  cases d.sourceOffset ((LineTable.ofText d.generated).offsetOfLocation location) with
  | error e => exact .inl ⟨e, rfl⟩
  | ok n => exact .inr ⟨n, rfl⟩

/-- In a document of less than `2 ^ 32 - 1` bytes, a position that is found has numbers of 32
bits. -/
theorem fits_of_sourcePosition {d : Spliced} (hsize : size d.source + 1 < 2 ^ 32)
    {location : Location} {p : Position} (h : d.sourcePosition location = .ok p) : p.Fits := by
  rcases d.sourcePosition_cases location with ⟨e, herror⟩ | ⟨n, hok⟩
  · rw [herror] at h
    cases h
  · rw [hok] at h
    cases h
    exact LineTable.fits_placeOf hsize n

namespace Weave

variable {d : Spliced} {lead : Text} {parts : List (Splice × Text)}

/-- Outside the splices, the same byte is found, whatever the mappings are. -/
theorem sourcePosition_outside (w : d.Weave lead parts) {location : Location} {offset : Nat}
    (hoffset : (LineTable.ofText d.generated).offsetOfLocation location = offset)
    (hout : ∀ s ∈ d.splices, ¬ (s.generatedStart ≤ offset ∧ offset ≤ s.generatedStop)) :
    ∃ n : Nat, (n : Int) = offset - growthBefore offset d.splices ∧ d.SameByte offset n ∧
      d.sourcePosition location = .ok ((LineTable.ofText d.source).placeOf n).toPosition := by
  have hstop : offset ≤ size d.generated := by
    rw [← hoffset]
    exact LineTable.offsetOfLocation_le_size _ _
  have hout' := hout
  rw [w.splices_eq] at hout'
  rw [w.generated_eq] at hstop
  obtain ⟨n, hn, hbyte⟩ :=
    @exists_sameByteAmong [] [] lead parts w.aligned offset (Nat.zero_le _) hstop hout'
  rw [List.nil_append, List.nil_append, ← w.source_eq, ← w.generated_eq, ← w.splices_eq] at hbyte
  have hn' : (n : Int) = offset - growthBefore offset d.splices := by
    rw [hn, w.splices_eq, size_nil]
    omega
  refine ⟨n, hn', hbyte, ?_⟩
  rw [sourcePosition_eq_map, hoffset, sourceOffset, followPast_outside hout, ← hn']
  rfl

/-- Inside a splice its mappings decide, since the splices before it do not reach the offset. -/
theorem sourceOffset_inside (w : d.Weave lead parts) {s : Splice} (hs : s ∈ d.splices)
    {offset : Nat} (hstart : s.generatedStart ≤ offset) (hstop : offset ≤ s.generatedStop) :
    d.sourceOffset offset = s.sourceOffset offset := by
  rw [w.splices_eq] at hs
  obtain ⟨⟨s, after⟩, hmem, rfl⟩ := List.mem_map.1 hs
  obtain ⟨before, later, hparts⟩ := List.append_of_mem hmem
  have hbefore : ∀ s' ∈ before.map Prod.fst,
      ¬ (s'.generatedStart ≤ offset ∧ offset ≤ s'.generatedStop) := by
    intro s' hs'
    obtain ⟨⟨s', after'⟩, hmem', rfl⟩ := List.mem_map.1 hs'
    obtain ⟨earlier, between, rfl⟩ := List.append_of_mem hmem'
    have hlt : s'.generatedStop < s.generatedStart :=
      w.generatedStop_lt (hparts.trans (List.append_assoc ..)) (by simp)
    rintro ⟨-, hle⟩
    exact absurd (Nat.lt_of_lt_of_le hlt hstart) (Nat.not_lt.2 hle)
  rw [sourceOffset, w.splices_eq, hparts, List.map_append, List.map_cons,
    followPast_append hbefore, followPast, if_pos (Splice.contains_iff.2 ⟨hstart, hstop⟩)]

/-- Inside a splice, a position is found exactly if its mappings can be read, and it lies in the
body as written. -/
theorem sourcePosition_inside (w : d.Weave lead parts) {location : Location} {offset : Nat}
    (hoffset : (LineTable.ofText d.generated).offsetOfLocation location = offset) {s : Splice}
    (hs : s ∈ d.splices) (hstart : s.generatedStart ≤ offset) (hstop : offset ≤ s.generatedStop) :
    (∀ e, d.sourcePosition location = .error e ↔ Mappings.decode s.mappings = .error e) ∧
    ((∃ m, Mappings.decode s.mappings = .ok m) →
      ∃ n, s.sourceStart ≤ n ∧ n ≤ s.sourceStart + size s.source ∧
        d.sourcePosition location = .ok ((LineTable.ofText d.source).placeOf n).toPosition) := by
  rw [sourcePosition_eq_map, hoffset, w.sourceOffset_inside hs hstart hstop, Splice.sourceOffset]
  cases Mappings.decode s.mappings with
  | error e => exact ⟨fun _ => ⟨fun h => by cases h; rfl, fun h => by cases h; rfl⟩, nofun⟩
  | ok m =>
    refine ⟨fun _ => ⟨nofun, nofun⟩, fun _ => ⟨_, Nat.le_add_right _ _, ?_, rfl⟩⟩
    exact Nat.add_le_add_left (s.bodyOffset_le _) _

end Weave

end Spliced

end ComponentLint
