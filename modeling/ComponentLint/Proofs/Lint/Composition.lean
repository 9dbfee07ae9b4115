import ComponentLint.Proofs.Lint.Transpile
import ComponentLint.Proofs.SourceMap.Order

/-!
# Through the mappings of a script

A location in a transpiled script leads back in four steps: to an offset of the transpiled
document, to a place in the generated body, over the segment that decides about that place, and
from the place that the segment names to an offset of the body as written.  What decides is the
last segment of the line that has started, or, if the line has no segments, the last one of the
nearest line before that has some.

## Main definitions

* `Mappings.Decides m p chosen` — `chosen` is the segment of `m` that decides about place `p`, if
  there is one.

## Main statements

* `Mappings.decides_iff` — **one segment decides about a place**, the one that is chosen.
* `sourcePosition_through_mappings` — **a location in a script leads to where the segment says
  that decides about it.**
-/

namespace ComponentLint

open Text

namespace Mappings

/-- What decides about a place. -/
inductive Decides (m : Mappings) (p : Place) : Option Segment → Prop
  /-- The last segment of the line that does not start behind the column. -/
  | onLine {before after : List Segment} {s : Segment}
      (hline : m.getD p.line [] = before ++ s :: after) (hs : s.column.toInt ≤ p.column)
      (hafter : ∀ x ∈ after, p.column < x.column.toInt) : Decides m p (some s)
  /-- For a line without segments, the last segment of the nearest line before that has some. -/
  | above {i : Nat} {front : List Segment} {s : Segment} (hline : m.getD p.line [] = [])
      (hi : i < p.line) (hlast : m.getD i [] = front ++ [s])
      (hbetween : ∀ j, i < j → j < p.line → m.getD j [] = []) : Decides m p (some s)
  /-- No line up to this one has segments. -/
  | nothing (hlines : ∀ j, j ≤ p.line → m.getD j [] = []) : Decides m p none

variable {m : Mappings} {p : Place}

/-! ### On a line with segments -/

theorem started_append {column : Nat} {before : List Segment}
    (h : ∀ s ∈ before, s.column.toInt ≤ column) (rest : List Segment) :
    started column (before ++ rest) = before ++ started column rest :=
  List.takeWhile_append_of_pos (by simpa using h)

/-- The last segment that is passed is the last one that does not start behind the column. -/
theorem getLast?_passed_append {column : Nat} {before after : List Segment} {s : Segment}
    (hsorted : (before ++ s :: after).Pairwise fun s s' => s.column ≤ s'.column)
    (hs : s.column.toInt ≤ column) (hafter : ∀ x ∈ after, column < x.column.toInt) :
    (passed column (before ++ s :: after)).getLast? = some s := by
  have hbefore : ∀ x ∈ before, x.column.toInt ≤ column := by
    intro x hx
    have hle := (List.pairwise_append.1 hsorted).2.2 x hx s List.mem_cons_self
    rw [Int32.le_iff_toInt_le] at hle
    omega
  have hrest : started column after = [] := by
    cases after with
    | nil => rfl
    | cons x after => exact started_cons_of_lt (hafter x List.mem_cons_self) after
  have hstarted : started column (before ++ s :: after) = before ++ [s] := by
    rw [started_append hbefore, started_cons_of_le hs, hrest]
  simp [passed, hstarted]

/-- If the first segment of a line in order has started, there is a last one that has. -/
theorem exists_last_started {column : Nat} {s : Segment} {rest : List Segment}
    (hsorted : (s :: rest).Pairwise fun s s' => s.column ≤ s'.column)
    (hs : s.column.toInt ≤ column) :
    ∃ (before : List Segment) (x : Segment) (after : List Segment),
      s :: rest = before ++ x :: after ∧ x.column.toInt ≤ column ∧
      ∀ y ∈ after, column < y.column.toInt := by
  induction rest generalizing s with
  | nil => exact ⟨[], s, [], rfl, hs, by simp⟩
  | cons next rest ih =>
    have hrest := (List.pairwise_cons.1 hsorted).2
    by_cases hnext : next.column.toInt ≤ column
    · obtain ⟨before, x, after, heq, hx, hafter⟩ := ih hrest hnext
      exact ⟨s :: before, x, after, by rw [heq]; rfl, hx, hafter⟩
    · -- the segments behind the next one do not start before it
      refine ⟨[], s, next :: rest, rfl, hs, ?_⟩
      intro y hy
      rcases List.mem_cons.1 hy with rfl | hy
      · omega
      · have hle := (List.pairwise_cons.1 hrest).1 y hy
        rw [Int32.le_iff_toInt_le] at hle
        omega

/-! ### On a line without segments -/

theorem flatten_take_eq_nil {l : Nat} (h : ∀ j, j < l → m.getD j [] = []) :
    (m.take l).flatten = [] := by
  induction l with
  | zero => rfl
  | succ l ih =>
    rw [flatten_take_succ, h l (Nat.lt_succ_self l), List.append_nil]
    exact ih fun j hj => h j (Nat.lt_succ_of_lt hj)

/-- The last segment of the lines before is the last one of the nearest line that has some. -/
theorem getLast?_flatten_take {i l : Nat} {front : List Segment} {s : Segment} (hi : i < l)
    (hlast : m.getD i [] = front ++ [s]) (hbetween : ∀ j, i < j → j < l → m.getD j [] = []) :
    (m.take l).flatten.getLast? = some s := by
  induction l with
  | zero => omega
  | succ l ih =>
    rw [flatten_take_succ]
    rcases Nat.lt_or_ge i l with h | h
    · rw [hbetween l h (Nat.lt_succ_self l), List.append_nil]
      exact ih h fun j hj hl => hbetween j hj (Nat.lt_succ_of_lt hl)
    · obtain rfl : i = l := by omega
      rw [hlast]
      simp

/-- The lines before have no segments, or one of them is the nearest that has some. -/
theorem exists_nearest (m : Mappings) (l : Nat) :
    (∀ j, j < l → m.getD j [] = []) ∨ ∃ i front s, i < l ∧ m.getD i [] = front ++ [s] ∧
      ∀ j, i < j → j < l → m.getD j [] = [] := by
  induction l with
  | zero => exact Or.inl fun j hj => absurd hj (Nat.not_lt_zero j)
  | succ l ih =>
    rcases List.eq_nil_or_concat' (m.getD l []) with hl | ⟨front, s, hl⟩
    · have hextend {i : Nat} (h : ∀ j, i ≤ j → j < l → m.getD j [] = []) :
          ∀ j, i ≤ j → j < l + 1 → m.getD j [] = [] := by
        intro j hij hj
        rcases Nat.lt_succ_iff_lt_or_eq.1 hj with hj | rfl
        · exact h j hij hj
        · exact hl
      rcases ih with hnone | ⟨i, front, s, hi, hlast, hbetween⟩
      · left
        intro j hj
        exact hextend (fun j _ hj => hnone j hj) j (Nat.zero_le j) hj
      · exact Or.inr ⟨i, front, s, Nat.lt_succ_of_lt hi, hlast, hextend hbetween⟩
    · refine Or.inr ⟨l, front, s, Nat.lt_succ_self l, hl, ?_⟩
      intro j hj hj'
      omega

/-! ### One segment decides -/

theorem Decides.getLast?_reached {chosen : Option Segment} (h : m.Decides p chosen)
    (hsorted : (m.getD p.line []).Pairwise fun s s' => s.column ≤ s'.column) :
    (m.reached p).getLast? = chosen := by
  cases h with
  | onLine hline hs hafter =>
    rw [hline] at hsorted
    rw [reached, hline, List.getLast?_append, getLast?_passed_append hsorted hs hafter]
    rfl
  | above hline hi hlast hbetween =>
    have hpassed : passed p.column [] = [] := rfl
    rw [reached, hline, hpassed, List.append_nil, getLast?_flatten_take hi hlast hbetween]
  | nothing hlines =>
    have hpassed : passed p.column [] = [] := rfl
    rw [reached, hlines p.line (Nat.le_refl _), hpassed, List.append_nil,
      flatten_take_eq_nil fun j hj => hlines j (Nat.le_of_lt hj)]
    rfl

/-- Something decides about every place that is not before the first segment of its line. -/
theorem exists_decides (hsorted : (m.getD p.line []).Pairwise fun s s' => s.column ≤ s'.column)
    (hfirst : ∀ first ∈ (m.getD p.line []).head?, first.column.toInt ≤ p.column) :
    ∃ chosen, m.Decides p chosen := by
  cases hline : m.getD p.line [] with
  | nil =>
    rcases m.exists_nearest p.line with hnone | ⟨i, front, s, hi, hlast, hbetween⟩
    · refine ⟨none, .nothing ?_⟩
      intro j hj
      rcases Nat.lt_or_eq_of_le hj with hj | rfl
      · exact hnone j hj
      · exact hline
    · exact ⟨some s, .above hline hi hlast hbetween⟩
  | cons s rest =>
    rw [hline] at hsorted hfirst
    obtain ⟨before, x, after, heq, hx, hafter⟩ := exists_last_started hsorted (hfirst s rfl)
    exact ⟨some x, .onLine (hline.trans heq) hx hafter⟩

/-- **One segment decides about a place**, the one that is chosen. -/
theorem decides_iff (hsorted : (m.getD p.line []).Pairwise fun s s' => s.column ≤ s'.column)
    (hfirst : ∀ first ∈ (m.getD p.line []).head?, first.column.toInt ≤ p.column)
    {chosen : Option Segment} : m.Decides p chosen ↔ chosen = m.chosenAt p := by
  rw [chosenAt_eq hsorted]
  constructor
  · intro h
    exact (h.getLast?_reached hsorted).symm
  · rintro rfl
    obtain ⟨chosen, h⟩ := exists_decides hsorted hfirst
    rwa [h.getLast?_reached hsorted]

theorem covering_mem (column : Nat) (s : Segment) (rest : List Segment) :
    covering column s rest ∈ s :: rest := by
  fun_induction covering column s rest with
  | case1 => exact List.mem_cons_self
  | case2 => exact List.mem_cons_self
  | case3 _ _ _ _ ih => exact List.mem_cons_of_mem _ ih

/-- On a line with segments, in order or not, one of them is chosen. -/
theorem exists_mem_chosenAt (h : m.getD p.line [] ≠ []) :
    ∃ x ∈ m.getD p.line [], m.chosenAt p = some x := by
  unfold chosenAt
  cases hline : m.getD p.line [] with
  | nil => exact absurd hline h
  | cons s rest => exact ⟨_, covering_mem p.column s rest, rfl⟩

end Mappings

/-! ### From the location to the document -/

theorem Splice.bodyOffset_of_neg (s : Splice) {origin : Option Origin}
    (h : ∀ o ∈ origin, o.line < 0) : s.bodyOffset origin = 0 := by
  cases origin with
  | none => rfl
  | some o => rw [bodyOffset, if_pos (h o rfl)]

/-- **A location in a script leads to where the segment says that decides about it.**  Take a
location in a transpiled script whose mappings can be read.  It is moved by the line and the column
that the chosen segment names, a negative column taken for the first one, to an offset in the body
as written; it is moved to the start of the body if no segment is chosen, or if the chosen one names
no place or a negative line.  The chosen segment is one of the line if there are any.  On a line on
which generated columns do not fall and the first segment has started, if there is one, it is the
segment that decides. -/
theorem sourcePosition_through_mappings {transpile : Text → Except Rejection Transpiled}
    {document : Text} {d : Spliced} (h : (spliceScripts transpile document).result = .ok d)
    {s : Splice} (hs : s ∈ d.splices) {m : Mappings} (hm : Mappings.decode s.mappings = .ok m)
    (location : Location) {offset : Nat}
    (hoffset : (LineTable.ofText d.generated).offsetOfLocation location = offset)
    (hstart : s.generatedStart ≤ offset) (hstop : offset ≤ s.generatedStop) {p : Place}
    (hplace : (LineTable.ofText s.generated).placeOf (offset - s.generatedStart) = p) :
    ∃ chosen n,
      (((m.getD p.line []).Pairwise fun x y => x.column ≤ y.column) →
        (∀ first ∈ (m.getD p.line []).head?, first.column.toInt ≤ p.column) →
        ∀ x, m.Decides p x ↔ x = chosen) ∧
      (m.getD p.line [] ≠ [] → ∃ x ∈ m.getD p.line [], chosen = some x) ∧
      d.sourcePosition location =
        .ok ((LineTable.ofText document).placeOf (s.sourceStart + n)).toPosition ∧
      n ≤ size s.source ∧
      (∀ o ∈ chosen.bind Segment.origin, 0 ≤ o.line →
        n = (LineTable.ofText s.source).offsetOf
          ⟨o.line.toInt.toNat, (max o.column.toInt 0).toNat⟩) ∧
      ((∀ o ∈ chosen.bind Segment.origin, o.line < 0) → n = 0) := by
  obtain ⟨hsource, parts, hsplices, hrun⟩ := exists_splicing_of_spliceScripts h
  have w := hrun.weave hsource hsplices
  have hinside : d.sourceOffset offset =
      .ok (s.sourceStart + s.bodyOffset ((m.chosenAt p).bind Segment.origin)) := by
    rw [w.sourceOffset_inside hs hstart hstop, Splice.sourceOffset_eq hm, Splice.placeAt, hplace,
      Mappings.originAt_eq_bind]
  refine ⟨m.chosenAt p, s.bodyOffset ((m.chosenAt p).bind Segment.origin), ?_,
    Mappings.exists_mem_chosenAt, ?_, s.bodyOffset_le _, ?_, s.bodyOffset_of_neg⟩
  · intro hsorted hfirst x
    exact Mappings.decides_iff hsorted hfirst
  · rw [Spliced.sourcePosition_eq_map, hoffset, hinside, hsource]
    rfl
  · intro o ho hline
    rw [Option.mem_def] at ho
    rw [ho, s.bodyOffset_of_nonneg hline, Origin.place]
    congr 2
    omega

/-- A document with a script of two lines. -/
def twoLines : Text := "<script>ab\ncd</script>".toList

/-- A transpiler that gives three lines, with mappings for the first and the last one. -/
def transpileSparsely (_ : Text) : Except Rejection Transpiled :=
  .ok ⟨"x\ny\nz".toList, "\x7b\"mappings\":\"AACA,AAAD;;A\"\x7d".toList⟩

/-- The script of two lines, and what it was replaced by. -/
def sparseSplice : Splice where
  sourceStart := 8
  generatedStart := 8
  source := "ab\ncd".toList
  generated := "x\ny\nz".toList
  mappings := "AACA,AAAD;;A".toList

/-- The document with a script of two lines, transpiled. -/
def twoLinesTranspiled : Spliced where
  source := twoLines
  generated := "<script>x\ny\nz</script>".toList
  splices := [sparseSplice]

theorem spliceScripts_twoLines :
    (spliceScripts transpileSparsely twoLines).result = .ok twoLinesTranspiled := by
  decide +kernel

/-- Two segments start at `x`, the second one with a negative column.  The line of `y` has no
segment, and the segment at `z` names no place. -/
def sparseMappings : Mappings :=
  [[⟨0, some ⟨0, 1, 0, none⟩⟩, ⟨0, some ⟨0, 1, -1, none⟩⟩], [], [⟨0, none⟩]]

theorem decode_sparseSplice : Mappings.decode sparseSplice.mappings = .ok sparseMappings := by
  rfl

/-- The second of two segments at the same column decides about `x`, and also about `y`: both come
from the start of the second line.  The segment that decides behind `z` names no place. -/
theorem sourcePosition_through_sparse_mappings :
    (spliceScripts transpileSparsely twoLines).result = .ok twoLinesTranspiled ∧
      Mappings.decode sparseSplice.mappings = .ok sparseMappings ∧
      twoLinesTranspiled.sourcePosition ⟨1, 8⟩ = .ok ⟨2, 1⟩ ∧
      twoLinesTranspiled.sourcePosition ⟨2, 1⟩ = .ok ⟨2, 1⟩ ∧
      twoLinesTranspiled.sourcePosition ⟨3, 1⟩ = .ok ⟨1, 9⟩ := by
  refine ⟨spliceScripts_twoLines, decode_sparseSplice, ?_, ?_, ?_⟩
  · have hoffset :
        (LineTable.ofText twoLinesTranspiled.generated).offsetOfLocation ⟨1, 8⟩ = 8 := by
      decide +kernel
    have hplace : (LineTable.ofText sparseSplice.generated).placeOf (8 - 8) = ⟨0, 0⟩ := by
      decide +kernel
    have hfirst : sparseMappings.getD 0 [] =
        [⟨0, some ⟨0, 1, 0, none⟩⟩] ++ ⟨0, some ⟨0, 1, -1, none⟩⟩ :: [] := rfl
    obtain ⟨chosen, n, hchosen, -, hposition, -, horigin, -⟩ := sourcePosition_through_mappings
      spliceScripts_twoLines List.mem_cons_self decode_sparseSplice ⟨1, 8⟩ hoffset (by decide)
      (by decide +kernel) hplace
    obtain rfl := (hchosen (by decide) (by decide) _).1 (.onLine hfirst (by decide) (by decide))
    rw [hposition, horigin _ rfl (by decide)]
    rfl
  · have hoffset :
        (LineTable.ofText twoLinesTranspiled.generated).offsetOfLocation ⟨2, 1⟩ = 11 := by
      decide +kernel
    have hplace : (LineTable.ofText sparseSplice.generated).placeOf (11 - 8) = ⟨1, 1⟩ := by
      decide +kernel
    have hlast : sparseMappings.getD 0 [] =
        [⟨0, some ⟨0, 1, 0, none⟩⟩] ++ [⟨0, some ⟨0, 1, -1, none⟩⟩] := rfl
    obtain ⟨chosen, n, hchosen, -, hposition, -, horigin, -⟩ := sourcePosition_through_mappings
      spliceScripts_twoLines List.mem_cons_self decode_sparseSplice ⟨2, 1⟩ hoffset (by decide)
      (by decide +kernel) hplace
    obtain rfl := (hchosen (by decide) (by decide) _).1
      (.above rfl Nat.zero_lt_one hlast (by simp; omega))
    rw [hposition, horigin _ rfl (by decide)]
    rfl
  · have hoffset :
        (LineTable.ofText twoLinesTranspiled.generated).offsetOfLocation ⟨3, 1⟩ = 13 := by
      decide +kernel
    have hplace : (LineTable.ofText sparseSplice.generated).placeOf (13 - 8) = ⟨2, 1⟩ := by
      decide +kernel
    have honly : sparseMappings.getD 2 [] = [] ++ ⟨0, none⟩ :: [] := rfl
    obtain ⟨chosen, n, hchosen, -, hposition, -, -, hnone⟩ := sourcePosition_through_mappings
      spliceScripts_twoLines List.mem_cons_self decode_sparseSplice ⟨3, 1⟩ hoffset (by decide)
      (by decide +kernel) hplace
    obtain rfl := (hchosen (by decide) (by decide) _).1 (.onLine honly (by decide) (by decide))
    rw [hposition, hnone (by simp)]
    rfl

end ComponentLint
