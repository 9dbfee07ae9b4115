import ComponentLint.Proofs.Outdent
import Mathlib.Algebra.Order.BigOperators.Group.List
import Mathlib.Algebra.Order.Group.Nat

/-!
# Undoing an outdent

The table of removals is all that is needed to go back from an outdented text to the text.  Row by
row, the margin is put before each row from which it was taken.  Byte by byte, an offset is moved
by what was taken up to and including its row.

A text that ends with a line feed has one row more than the table has entries, and a last row of
blanks disappears while it keeps its entry.  Rows are therefore those between line feeds, and a row
without entry counts as one from which nothing was taken.

## Main definitions

* `Outdented.bytesTaken o i` — the bytes that were taken from row `i`.
* `Outdented.sourceOffset o q` — where byte `q` of the outdented text stood before.
* `Removal.Fits r` — the numbers of a table have 32 bits.

## Main statements

* `intercalate_rows_outdent` — the rows with their margins make up the text.
* `sum_perLine_outdent_le` — no more is taken from a text than it has.
* `bytes_eq_append` — cutting the outdented text at `q` cuts the text at the matching offset.
* `outdent_undone` — **outdenting loses nothing, and its table locates every byte.**
-/

namespace ComponentLint

open Text

/-! ### Row by row -/

/-- What was taken from a row is the margin if as much was taken as the margin has bytes. -/
theorem taken_outdent (t : Text) (i : Nat) :
    (outdent t).removal.taken (outdent t).margin i =
      if (outdent t).removal.onLine i = size (outdent t).margin then (outdent t).margin
      else [] := by
  rw [Removal.taken, takenOf]
  rcases onLine_outdent t i with hzero | hall
  · rw [if_pos hzero, hzero]
    split
    · -- nothing was taken, so the margin has no bytes
      next hempty => exact (size_eq_zero.1 hempty.symm).symm
    · rfl
  · rw [if_pos hall]
    split
    · next hzero => exact (size_eq_zero.1 (hall.symm.trans hzero)).symm
    · rfl

/-- **The rows of an outdented text with their margins make up the text.** -/
theorem intercalate_rows_outdent (t : Text) :
    ['\n'].intercalate (((outdent t).text.splitOn '\n').mapIdx fun i row =>
      (if (outdent t).removal.onLine i = size (outdent t).margin then (outdent t).margin else [])
        ++ row) = t := by
  have hrows := splitOn_withMargins (feed_notMem_taken t) (outdent t).text
  rw [withMargins_outdent] at hrows
  simp only [taken_outdent] at hrows
  rw [← hrows]
  exact List.intercalate_splitOn '\n'

/-! ### Byte by byte -/

namespace Outdented

/-- Where byte `q` of an outdented text stood before: what was taken up to and including its row
comes on top. -/
def sourceOffset (o : Outdented) (q : Nat) : Nat :=
  q + o.removal.beforeLine ((o.text.feedPlace q).line + 1)

/-- The bytes that were taken from a row. -/
def bytesTaken (o : Outdented) (i : Nat) : List UInt8 := bytes (o.removal.taken o.margin i)

end Outdented

/-- The second part of the table is computed from the first one. -/
theorem before_outdent (t : Text) :
    (outdent t).removal.before = Removal.sums 0 (outdent t).removal.perLine := rfl

theorem beforeLine_outdent (t : Text) (line : Int) :
    (outdent t).removal.beforeLine line = ((outdent t).removal.perLine.take line.toNat).sum :=
  Removal.beforeLine_ofLines _ line

theorem length_bytesTaken (t : Text) (i : Nat) :
    ((outdent t).bytesTaken i).length = (outdent t).removal.perLine.getD i 0 := by
  rw [Outdented.bytesTaken, length_bytes, size_taken]

/-- Cutting the outdented text at byte `q` cuts the text, too. -/
theorem bytes_eq_append (t : Text) (q : Nat) :
    bytes t = withMargins feed (outdent t).bytesTaken ((bytes (outdent t).text).take q) ++
      marginsFrom feed (outdent t).bytesTaken (((bytes (outdent t).text).take q).count feed)
        ((bytes (outdent t).text).drop q) := by
  rw [← withMargins_cut]
  conv_lhs => rw [← withMargins_outdent t, bytes_withMargins]
  rfl

/-- What stands before the cut reaches up to the matching offset. -/
theorem length_withMargins_take (t : Text) {q : Nat} (hq : q ≤ size (outdent t).text) :
    (withMargins feed (outdent t).bytesTaken ((bytes (outdent t).text).take q)).length =
      (outdent t).sourceOffset q := by
  have htake : ((bytes (outdent t).text).take q).length = q := by
    rw [List.length_take, length_bytes, Nat.min_eq_left hq]
  rw [length_withMargins feed (length_bytesTaken t), htake, Outdented.sourceOffset,
    beforeLine_outdent]
  rfl

/-- The matching offset lies in the text. -/
theorem sourceOffset_le_size (t : Text) {q : Nat} (hq : q ≤ size (outdent t).text) :
    (outdent t).sourceOffset q ≤ size t := by
  have hlength := congrArg List.length (bytes_eq_append t q)
  rw [List.length_append, length_withMargins_take t hq, length_bytes] at hlength
  omega

/-- The byte at the matching offset is the same. -/
theorem getElem?_bytes_sourceOffset (t : Text) {q : Nat} (hq : q < size (outdent t).text) :
    (bytes t)[(outdent t).sourceOffset q]? = (bytes (outdent t).text)[q]? := by
  -- it is the first byte behind the cut, since margins are put behind a line feed
  rw [← length_withMargins_take t (Nat.le_of_lt hq), bytes_eq_append t q,
    List.getElem?_append_right (Nat.le_refl _), Nat.sub_self, ← List.head?_eq_getElem?,
    head?_marginsFrom, List.head?_drop]

/-! ### The numbers of the table -/

/-- All numbers of a table have 32 bits. -/
structure Removal.Fits (r : Removal) : Prop where
  perLine : ∀ n ∈ r.perLine, n < 2 ^ 32
  before : ∀ n ∈ r.before, n < 2 ^ 32

/-- No more is taken from a text than it has. -/
theorem sum_perLine_outdent_le (t : Text) : (outdent t).removal.perLine.sum ≤ size t := by
  have hend := feedPlace_size (outdent t).text []
  rw [List.append_nil] at hend
  have hall : (outdent t).removal.beforeLine ((outdent t).text.count '\n' + 1) =
      (outdent t).removal.perLine.sum := by
    rw [beforeLine_outdent]
    exact congrArg List.sum (List.take_of_length_le (length_perLine_outdent t))
  -- behind the last byte, all that was taken has been put back
  have hle := sourceOffset_le_size t (Nat.le_refl (size (outdent t).text))
  rw [Outdented.sourceOffset, hend, hall] at hle
  exact Nat.le_trans (Nat.le_add_left ..) hle

theorem fits_removal_outdent {t : Text} (h : size t < 2 ^ 32) : (outdent t).removal.Fits := by
  have hsum := Nat.lt_of_le_of_lt (sum_perLine_outdent_le t) h
  refine ⟨fun n hn => ?_, fun n hn => ?_⟩
  · exact Nat.lt_of_le_of_lt (List.le_sum_of_mem hn) hsum
  · have hle := Removal.le_of_mem_sums hn
    rw [Nat.zero_add] at hle
    exact Nat.lt_of_le_of_lt hle hsum

/-- **Outdenting loses nothing, and its table locates every byte.**  The rows of the outdented text
make up the text, each behind the margin or behind nothing, as the table says.  The margin consists
of spaces and tabs.  The second part of the table are the running sums of the first one, and since
the text has less than `2 ^ 32` bytes, they are numbers of 32 bits.  Byte `q` of the outdented text
is the byte of the text that stands further on by what was removed up to and including the row of
`q`. -/
theorem outdent_undone (t : Text) (hsize : size t < 2 ^ 32) :
    let o := outdent t
    (['\n'].intercalate ((o.text.splitOn '\n').mapIdx fun i row =>
      (if o.removal.onLine i = size o.margin then o.margin else []) ++ row) = t) ∧
    (∀ i, o.removal.onLine i = 0 ∨ o.removal.onLine i = size o.margin) ∧
    (∀ c ∈ o.margin, c = ' ' ∨ c = '\t') ∧
    o.removal.before.length = o.removal.perLine.length + 1 ∧
    (∀ i ≤ o.removal.perLine.length,
      o.removal.before[i]? = some (o.removal.perLine.take i).sum) ∧
    o.removal.Fits ∧
    ∀ q ≤ size o.text,
      q + o.removal.beforeLine ((o.text.feedPlace q).line + 1) ≤ size t ∧
      (q < size o.text →
        (bytes t)[q + o.removal.beforeLine ((o.text.feedPlace q).line + 1)]? =
          (bytes o.text)[q]?) := by
  intro o
  refine ⟨intercalate_rows_outdent t, onLine_outdent t, ?_, ?_, ?_, fits_removal_outdent hsize, ?_⟩
  · intro c hc
    simpa [isBlank] using isBlank_of_mem_margin hc
  · rw [before_outdent, Removal.length_sums]
  · intro i hi
    rw [before_outdent, Removal.getElem?_sums 0 hi, Nat.zero_add]
  · intro q hq
    exact ⟨sourceOffset_le_size t hq, getElem?_bytes_sourceOffset t⟩

/-- A row without the margin, a row of blanks that disappears, and a wide character. -/
theorem outdent_undone_uneven :
    let t : Text := "  a\n b\n  é\n  ".toList
    size t < 2 ^ 32 ∧ (outdent t).text = "a\n b\né\n".toList ∧
      (outdent t).removal = ⟨[2, 0, 2, 2], [0, 2, 2, 4, 6]⟩ ∧ (outdent t).removal.Fits ∧
      (bytes t)[10]? = (bytes (outdent t).text)[6]? := by
  intro t
  have hsize : size t < 2 ^ 32 := by decide
  obtain ⟨-, -, -, -, -, hfits, hbytes⟩ := outdent_undone t hsize
  exact ⟨hsize, by decide, by decide, hfits, (hbytes 6 (by decide)).2 (by decide)⟩

end ComponentLint
