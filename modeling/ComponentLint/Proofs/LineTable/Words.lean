import ComponentLint.Proofs.LineTable.Places
import ComponentLint.Text.Lines
import Mathlib.Algebra.Ring.Nat

/-!
# Places and extents in numbers of 32 bits

Offsets, lines and columns are counted here without a bound, and kept as numbers of 32 bits by
those who exchange them.  What is counted in a text of less than `2 ^ 32 - 1` bytes is such a
number, also when one is added to it.  So nothing is cut off, and no sum leaves the range.

## Main definitions

* `Position.Fits p`, `Extent.Fits e` — the numbers of a position or an extent have 32 bits.

## Main statements

* `Text.fits_feedPlace`, `LineTable.fits_placeOf` — **the positions of a text.**
* `Extent.fits_of_prefix` — the extents of what stands at the front of a text.
-/

namespace ComponentLint

/-! ### Positions -/

/-- Line and column are numbers of 32 bits. -/
structure Position.Fits (p : Position) : Prop where
  line : p.line < 2 ^ 32
  column : p.column < 2 ^ 32

/-- The position of a place that is counted within `n` bytes. -/
theorem Place.fits_toPosition {p : Place} {n : Nat} (hline : p.line ≤ n) (hcolumn : p.column ≤ n)
    (hn : n + 1 < 2 ^ 32) : p.toPosition.Fits where
  line := Nat.lt_of_le_of_lt (Nat.succ_le_succ hline) hn
  column := Nat.lt_of_le_of_lt (Nat.succ_le_succ hcolumn) hn

/-- The position of an offset, lines being ended by line feeds. -/
theorem Text.fits_feedPlace (t : Text) {o : Nat} (ho : o + 1 < 2 ^ 32) :
    (t.feedPlace o).toPosition.Fits :=
  Place.fits_toPosition (feedPlace_line_le t o) (feedPlace_column_le t o) ho

namespace LineTable

variable {table : LineTable}

/-- A line starts behind at least one byte of each line before it. -/
theorem WellFormed.le_start (h : table.WellFormed) {i a : Nat} (hi : table.startOf? i = some a) :
    i ≤ a := by
  induction i generalizing a with
  | zero => exact Nat.zero_le a
  | succ i ih =>
    obtain ⟨b, hb⟩ := exists_startOf?_of_le hi (Nat.le_succ i)
    exact Nat.lt_of_le_of_lt (ih hb) (h.start_lt hb hi (Nat.lt_succ_self i))

/-- The position of an offset, also of one behind the end. -/
theorem fits_placeOf {t : Text} (h : Text.size t + 1 < 2 ^ 32) (o : Nat) :
    ((ofText t).placeOf o).toPosition.Fits := by
  have htable := ofText_wellFormed t
  obtain ⟨start, hstart, hoffset, hle, -⟩ := htable.isPlaceOf_placeOf (Nat.min_le_right o _)
  have hline := htable.le_start hstart
  rw [placeOf_min_size] at hline hoffset
  have hsize : (ofText t).size = Text.size t := rfl
  exact Place.fits_toPosition (by omega) (by omega) h

end LineTable

/-! ### Extents -/

/-- Length, lines and last line of an extent are numbers of 32 bits. -/
structure Extent.Fits (e : Extent) : Prop where
  length : e.length < 2 ^ 32
  lines : e.lines < 2 ^ 32
  last : e.last < 2 ^ 32

/-- The extent of what stands at the front of a text.  It is that of the place behind it. -/
theorem Extent.fits_of_prefix {s t : Text} (h : Text.size t + 1 < 2 ^ 32) (hs : s <+: t) :
    (Extent.of s).Fits := by
  obtain ⟨r, rfl⟩ := hs
  rw [Text.size_append] at h
  have hfits := (s ++ r).fits_feedPlace (o := Text.size s) (by omega)
  rw [Text.feedPlace_size] at hfits
  exact ⟨by show Text.size s < _; omega, hfits.line, Nat.lt_of_succ_lt hfits.column⟩

end ComponentLint
