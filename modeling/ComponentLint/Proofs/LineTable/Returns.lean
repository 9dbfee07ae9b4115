import ComponentLint.Proofs.LineTable.Words
import Mathlib.Data.List.TakeWhile

/-!
# Places behind a carriage return

A place that is counted by line feeds is looked up in a line table, which ends lines also at a
carriage return alone.  Each such carriage return before the place makes the table start lines too
early: one on an earlier line makes it take a line for the place that starts too far ahead, and one
on the line of the place makes it stop at the start of the next line.  So the table finds the
offset of the place exactly if there is none.  In the other direction, a table counts the lines of a
text as its line feeds do exactly if no carriage return is alone, and then it finds the places that
are counted by line feeds.

## Main definitions

* `Text.PairedBefore t n` — every carriage return that ends before byte `n` has a line feed behind
  it.

## Main statements

* `Text.returnsPaired_iff` — what it means that carriage returns are paired.
* `Text.breaks_eq_count_iff` — a table counts the line feeds exactly if no carriage return is alone.
* `LineTable.startOf?_breaks` — which line starts behind a line feed.
* `LineTable.offsetOf_feedPlace_iff` — **a table finds a place that is counted by line feeds exactly
  if no carriage return alone stands before it.**
* `LineTable.placeOf_eq_feedPlace` — with paired carriage returns, a table finds the places that are
  counted by line feeds.
* `LineTable.lines_agree_iff_paired` — **a table and an extent agree about lines exactly if carriage
  returns are paired.**
-/

namespace ComponentLint

namespace Text

/-- Every carriage return that ends before byte `n` is followed by a line feed. -/
def PairedBefore (t : Text) (n : Nat) : Prop :=
  ∀ s r, t = s ++ '\r' :: r → size s + 1 < n → r.head? = some '\n'

theorem PairedBefore.mono {t : Text} {m n : Nat} (h : PairedBefore t n) (hmn : m ≤ n) :
    PairedBefore t m :=
  fun s r ht hs => h s r ht (Nat.lt_of_lt_of_le hs hmn)

/-- What follows each carriage return of a text: first the one at the front, then all others. -/
theorem forall_return_cons_iff {c : Char} {t : Text} {P : Text → Prop} :
    (∀ s r, c :: t = s ++ '\r' :: r → P r) ↔
      (c = '\r' → P t) ∧ ∀ s r, t = s ++ '\r' :: r → P r := by
  constructor
  · intro h
    refine ⟨fun hc => h [] t (by rw [hc]; rfl), fun s r ht => h (c :: s) r ?_⟩
    rw [ht, List.cons_append]
  · rintro ⟨hhead, htail⟩ s r ht
    cases s with
    | nil =>
      obtain ⟨rfl, rfl⟩ := List.cons.inj ht
      exact hhead rfl
    | cons d s => exact htail s r (List.cons.inj ht).2

/-- Carriage returns are paired if a line feed follows each of them, wherever it stands. -/
theorem returnsPaired_iff {t : Text} :
    ReturnsPaired t ↔ ∀ s r, t = s ++ '\r' :: r → r.head? = some '\n' := by
  induction t with
  | nil => simp [ReturnsPaired]
  | cons c t ih => rw [ReturnsPaired, ih, forall_return_cons_iff]

/-- The line ends of a text are its line feeds exactly if a line feed follows every carriage
return. -/
theorem breaks_eq_count_iff {t : Text} {next? : Option Char} :
    breaks t next? = t.count '\n' ↔
      ∀ s r, t = s ++ '\r' :: r → r.head?.or next? = some '\n' := by
  induction t with
  | nil => simp [breaks]
  | cons c t ih =>
    have hle := count_le_breaks t next?
    rw [forall_return_cons_iff, ← ih, breaks]
    by_cases hends : endsLine c (t.head?.or next?) = true
    · rw [if_pos hends]
      rcases endsLine_iff.1 hends with rfl | ⟨rfl, hnext⟩
      · rw [List.count_cons_self, Nat.add_comm]
        simp
      · rw [List.count_cons_of_ne (by decide)]
        refine iff_of_false (by omega) fun h => hnext (h.1 rfl)
    · rw [if_neg hends, Nat.zero_add]
      rw [endsLine_iff, not_or] at hends
      rw [List.count_cons_of_ne hends.1]
      refine ⟨fun h => ⟨fun hc => ?_, h⟩, fun h => h.2⟩
      by_contra hne
      exact hends.2 ⟨hc, hne⟩

/-- A text is empty or ends with a line feed: a line starts behind it. -/
def EndsRow (u : Text) : Prop := u = [] ∨ ∃ v, u = v ++ ['\n']

/-- A text is made of whole rows and the row that is begun. -/
theorem exists_rows_append (t : Text) : ∃ u x, t = u ++ x ∧ EndsRow u ∧ '\n' ∉ x := by
  rcases notMem_or_exists_append_cons '\n' t with h | ⟨v, x, rfl, hx⟩
  · exact ⟨[], t, rfl, Or.inl rfl, h⟩
  · exact ⟨v ++ ['\n'], x, List.append_cons .., Or.inr ⟨v, rfl⟩, hx⟩

/-- The place behind whole rows and a row that is begun. -/
theorem feedPlace_rows {u x : Text} (hu : EndsRow u) (hx : '\n' ∉ x) (r : Text) :
    feedPlace (u ++ x ++ r) (size (u ++ x)) = ⟨u.count '\n', size x⟩ := by
  have hlast : lastLine (u ++ x) = x := by
    rw [lastLine_eq_lastRow, lastRow_append_of_notMem u hx]
    rcases hu with rfl | ⟨v, rfl⟩
    · rfl
    · rw [lastRow_append_cons]
      rfl
  rw [feedPlace_size, List.count_append, List.count_eq_zero_of_not_mem hx, hlast]
  rfl

/-- No carriage return is the last character of whole rows. -/
theorem EndsRow.ne_append_return {u : Text} (hu : EndsRow u) (s : Text) : u ≠ s ++ ['\r'] := by
  rintro rfl
  rcases hu with h | ⟨v, h⟩
  · exact absurd h (by simp)
  · exact absurd (List.append_inj_right' h rfl) (by decide)

end Text

namespace LineTable

open Text

/-! ### The line behind whole rows -/

theorem size_mem_starts {u : Text} (hu : EndsRow u) (v : Text) :
    Text.size u ∈ (ofText (u ++ v)).starts := by
  rcases hu with rfl | ⟨w, rfl⟩
  · exact List.mem_cons_self
  · refine List.mem_cons_of_mem _ (mem_lineStartsFrom_iff.2 ⟨w, '\n', v, ?_, ?_, ?_⟩)
    · rw [← List.append_cons]
    · exact endsLine_iff.2 (Or.inl rfl)
    · rw [size_append, Nat.zero_add]
      rfl

/-- Behind whole rows starts the line whose number is that of the line ends in them. -/
theorem startOf?_breaks {u : Text} (hu : EndsRow u) (v : Text) :
    (ofText (u ++ v)).startOf? (breaks u v.head?) = some (Text.size u) := by
  have h := ofText_wellFormed (u ++ v)
  obtain ⟨j, hj⟩ := List.getElem?_of_mem (size_mem_starts hu v)
  have hj : (ofText (u ++ v)).startOf? j = some (Text.size u) := hj
  have hplace : (ofText (u ++ v)).IsPlaceOf ⟨j, 0⟩ (Text.size u) :=
    ⟨Text.size u, hj, rfl, h.start_le_size hj, fun next hnext =>
      h.start_lt hj hnext (Nat.lt_succ_self j)⟩
  have hline : breaks u v.head? = j := by
    rw [← placeOf_line_size rfl, h.placeOf_eq hplace]
  rwa [hline]

/-- A line that starts inside a row starts behind a carriage return alone. -/
theorem exists_return_of_start {u x r : Text} (hx : '\n' ∉ x) {n : Nat}
    (hn : n ∈ (ofText (u ++ x ++ r)).starts) (hlow : Text.size u < n)
    (hhigh : n ≤ Text.size (u ++ x)) :
    ∃ s w, u ++ x ++ r = s ++ '\r' :: w ∧ n = Text.size s + 1 ∧ w.head? ≠ some '\n' := by
  rcases List.mem_cons.1 hn with rfl | hn
  · exact absurd hlow (Nat.not_lt_zero _)
  obtain ⟨s, c, w, ht, hends, rfl⟩ := mem_lineStartsFrom_iff.1 hn
  rw [Nat.zero_add] at hlow hhigh ⊢
  rcases endsLine_iff.1 hends with rfl | ⟨rfl, hw⟩
  · -- the row has no line feed
    rw [List.append_cons] at ht
    obtain ⟨y, hy, -⟩ := exists_append_of_size_le ht.symm (by rw [size_append]; exact hhigh)
    have hcut : u ++ x = s ++ '\n' :: y := by rw [hy, ← List.append_cons]
    obtain ⟨z, rfl, hz⟩ := exists_append_of_size_le hcut (Nat.le_of_lt_succ hlow)
    rw [hz] at hx
    exact absurd (List.mem_append_right _ List.mem_cons_self) hx
  · exact ⟨s, w, ht, rfl, hw⟩

/-! ### Looking up a place that is counted by line feeds -/

/-- The offset of a column on the row behind `u`, as the table sees it, is the true one exactly if
the row is the line of that number and no line starts before the column is reached. -/
theorem offsetOf_row_iff {u : Text} (hu : EndsRow u) (v : Text) (column : Nat)
    (hcolumn : Text.size u + column ≤ Text.size (u ++ v)) :
    (ofText (u ++ v)).offsetOf ⟨u.count '\n', column⟩ = Text.size u + column ↔
      breaks u v.head? = u.count '\n' ∧
        ∀ n ∈ (ofText (u ++ v)).starts, Text.size u < n → Text.size u + column ≤ n := by
  have h := ofText_wellFormed (u ++ v)
  have hj := startOf?_breaks hu v
  have hle := count_le_breaks u v.head?
  obtain ⟨start, hstart⟩ := exists_startOf?_of_le hj hle
  have hoffset : (ofText (u ++ v)).offsetOf ⟨u.count '\n', column⟩ = min (start + column)
      (((ofText (u ++ v)).startOf? (u.count '\n' + 1)).getD (Text.size (u ++ v))) := by
    rw [offsetOf, hstart]
    rfl
  rw [hoffset]
  constructor
  · intro heq
    have hstart_le : Text.size u ≤ start := by omega
    -- a line with a smaller number would start earlier
    have hline : breaks u v.head? = u.count '\n' := by
      by_contra hne
      have := h.start_lt hstart hj (by omega)
      omega
    refine ⟨hline, fun n hn hlow => ?_⟩
    obtain ⟨i, hi⟩ := List.getElem?_of_mem hn
    have hi : (ofText (u ++ v)).startOf? i = some n := hi
    have hnumber : u.count '\n' < i := by
      by_contra hge
      rw [hline] at hj
      have := h.start_le hi hj (by omega)
      omega
    obtain ⟨next, hnext⟩ := exists_startOf?_of_le hi (Nat.succ_le_of_lt hnumber)
    have hbound := h.start_le hnext hi (Nat.succ_le_of_lt hnumber)
    rw [hnext, Option.getD_some] at heq
    omega
  · rintro ⟨hline, hbound⟩
    rw [hline, hstart] at hj
    obtain rfl : start = Text.size u := Option.some.inj hj
    refine Nat.min_eq_left ?_
    cases hnext : (ofText (u ++ v)).startOf? (u.count '\n' + 1) with
    | none => exact hcolumn
    | some next =>
      exact hbound next (List.mem_of_getElem? hnext) (h.start_lt hstart hnext (Nat.lt_succ_self _))

/-- **A table finds a place that is counted by line feeds exactly if no carriage return alone
stands before it.**  One that stands right before it does no harm. -/
theorem offsetOf_feedPlace_iff (s r : Text) :
    (ofText (s ++ r)).offsetOf (feedPlace (s ++ r) (Text.size s)) = Text.size s ↔
      PairedBefore (s ++ r) (Text.size s) := by
  obtain ⟨u, x, rfl, hu, hx⟩ := exists_rows_append s
  have hrow := offsetOf_row_iff hu (x ++ r) (Text.size x) (by simp)
  rw [feedPlace_rows hu hx, size_append]
  rw [← List.append_assoc] at hrow
  rw [hrow, breaks_eq_count_iff]
  constructor
  · rintro ⟨hpaired, hbound⟩ a b ht ha
    by_contra hb
    rcases Nat.lt_or_ge (Text.size u) (Text.size a + 1) with hlow | hlow
    · -- on the row, the carriage return would start a line
      have hstart : Text.size a + 1 ∈ (ofText (u ++ x ++ r)).starts :=
        List.mem_cons_of_mem _ (mem_lineStartsFrom_iff.2
          ⟨a, '\r', b, ht, endsLine_iff.2 (Or.inr ⟨rfl, hb⟩), by rw [Nat.zero_add]⟩)
      have := hbound _ hstart hlow
      omega
    · rw [List.append_assoc, List.append_cons] at ht
      obtain ⟨y, hy, rfl⟩ := exists_append_of_size_le ht.symm (by rw [size_append]; exact hlow)
      rw [List.head?_append] at hb
      exact hb (hpaired a y (by rw [hy, ← List.append_cons]))
  · intro hpaired
    refine ⟨fun a y hy => ?_, fun n hn hlow => ?_⟩
    · have hne : y ≠ [] := by
        rintro rfl
        exact hu.ne_append_return a hy
      have hpos : 0 < Text.size y := Nat.pos_of_ne_zero fun h => hne (size_eq_zero.1 h)
      have hsize : Text.size u = Text.size a + (1 + Text.size y) := by
        rw [hy, size_append]
        rfl
      rw [← List.head?_append]
      exact hpaired a (y ++ (x ++ r)) (by rw [hy]; simp) (by omega)
    · by_contra hhigh
      obtain ⟨a, b, ht, rfl, hb⟩ := exists_return_of_start hx hn hlow (by rw [size_append]; omega)
      exact hb (hpaired a b ht (by omega))

/-! ### Lines of a table and lines of an extent -/

/-- A table counts one line more than the text has line ends. -/
theorem count_ofText (t : Text) : (ofText t).count = breaks t none + 1 := by
  have hall : (lineStartsFrom 0 t).takeWhile (· ≤ 0 + Text.size t) = lineStartsFrom 0 t :=
    List.takeWhile_eq_self_iff.2 fun n hn => by simpa using le_of_mem_lineStartsFrom hn
  have hlength := length_takeWhile_lineStartsFrom 0 t []
  rw [List.append_nil, hall] at hlength
  exact congrArg (· + 1) hlength

/-- With paired carriage returns, a table finds the places that are counted by line feeds. -/
theorem placeOf_eq_feedPlace {s r : Text} (hpaired : ReturnsPaired (s ++ r)) :
    (ofText (s ++ r)).placeOf (Text.size s) = feedPlace (s ++ r) (Text.size s) := by
  obtain ⟨u, x, rfl, hu, hx⟩ := exists_rows_append s
  have hinside : Text.size (u ++ x) ≤ (ofText (u ++ x ++ r)).size :=
    Nat.le_trans (Nat.le_add_right ..) (Nat.le_of_eq (size_append ..).symm)
  obtain ⟨start, hstart, hcolumn, -, -⟩ := (ofText_wellFormed _).isPlaceOf_placeOf hinside
  have hline : ((ofText (u ++ x ++ r)).placeOf (Text.size (u ++ x))).line = u.count '\n' := by
    rw [placeOf_line_eq_count rfl hpaired, List.count_append, List.count_eq_zero_of_not_mem hx]
    rfl
  -- the line is the one that starts behind the whole rows
  have hrows : (ofText (u ++ x ++ r)).startOf? (u.count '\n') = some (Text.size u) := by
    rw [List.append_assoc] at hpaired ⊢
    rw [← breaks_eq_count hpaired]
    exact startOf?_breaks hu (x ++ r)
  rw [hline, hrows] at hstart
  obtain rfl : Text.size u = start := Option.some.inj hstart
  rw [size_append] at hcolumn
  rw [feedPlace_rows hu hx, ← hline, Nat.add_left_cancel hcolumn, ← size_append]

/-- **A table and an extent agree about lines exactly if carriage returns are paired**: they count
the same number of lines of a text if and only if a line feed follows each carriage return, and then
the place of every offset between two characters, also of one between a carriage return and its line
feed, is that at the end of the text before it.  The text has less than `2 ^ 32 - 1` bytes, so that
its extent and those of all its fronts are in numbers of 32 bits. -/
theorem lines_agree_iff_paired (t : Text) (hsize : Text.size t + 1 < 2 ^ 32) :
    ((Extent.of t).lines = (ofText t).count ↔ ReturnsPaired t) ∧
      (ReturnsPaired t → ∀ o before after, cut? t o = some (before, after) →
        (ofText t).placeOf o = ⟨(Extent.of before).lines - 1, (Extent.of before).last⟩) ∧
      ∀ before, before <+: t → (Extent.of before).Fits := by
  refine ⟨?_, ?_, fun before => Extent.fits_of_prefix hsize⟩
  · calc (Extent.of t).lines = (ofText t).count
      _ ↔ t.count '\n' = breaks t none := by
        rw [count_ofText]
        exact Nat.add_right_cancel_iff
      _ ↔ ReturnsPaired t := by
        rw [eq_comm, breaks_eq_count_iff, returnsPaired_iff]
        simp only [Option.or_none]
  · intro hpaired o before after hcut
    obtain ⟨rfl, rfl⟩ := cut?_eq_some_iff.1 hcut
    rw [placeOf_eq_feedPlace hpaired, feedPlace_size]
    rfl

/-- An offset between a carriage return and its line feed, which is still on the first line. -/
theorem lines_agree_between_breaks :
    let t : Text := ['ä', '\r', '\n', 'b']
    Text.size t + 1 < 2 ^ 32 ∧ ReturnsPaired t ∧ (Extent.of t).lines = (ofText t).count ∧
      cut? t 3 = some (['ä', '\r'], ['\n', 'b']) ∧ (ofText t).placeOf 3 = ⟨0, 3⟩ ∧
      (Extent.of ['ä', '\r']).Fits :=
  have hsize : Text.size ['ä', '\r', '\n', 'b'] + 1 < 2 ^ 32 := by decide
  have hpaired : ReturnsPaired ['ä', '\r', '\n', 'b'] := by decide
  have hagree := lines_agree_iff_paired _ hsize
  ⟨hsize, hpaired, hagree.1.2 hpaired, rfl, hagree.2.1 hpaired 3 _ _ rfl,
    hagree.2.2 _ (by decide)⟩

/-- A carriage return alone makes a line for the table, but not for the extent. -/
example : (ofText ['a', '\r', 'b']).count = 2 ∧ (Extent.of ['a', '\r', 'b']).lines = 1 := by decide

end LineTable

end ComponentLint
