import ComponentLint.LineTable
import ComponentLint.Proofs.Text.Bytes

/-!
# Lines by a table and lines by line feeds

A line table ends a line also after a carriage return that no line feed follows; an extent does
not.  So a table never counts fewer lines, and it counts the same ones if every carriage return is
followed by a line feed.

## Main definitions

* `Text.ReturnsPaired t` — every carriage return of `t` is followed by a line feed.
* `Text.breaks t next?` — the number of line ends in `t` when `next?` follows it.
* `Text.Unbroken t` — no character of `t` breaks a line.

## Main statements

* `LineTable.placeOf_line_mono` — an offset further on is on no earlier line.
* `LineTable.placeOf_line_size` — between two characters, the line is the number of line ends
  before.
* `LineTable.offsetOf_le_size` — every place has an offset inside the text.
* `LineTable.placeOf_line_eq_count` — **with paired carriage returns, lines are counted by line
  feeds.**
-/

namespace ComponentLint

namespace Text

/-- Every carriage return is followed by a line feed. -/
def ReturnsPaired : Text → Prop
  | [] => True
  | c :: t => (c = '\r' → t.head? = some '\n') ∧ ReturnsPaired t

instance decidableReturnsPaired : (t : Text) → Decidable (ReturnsPaired t)
  | [] => isTrue trivial
  | c :: t =>
    have := decidableReturnsPaired t
    inferInstanceAs (Decidable ((c = '\r' → t.head? = some '\n') ∧ ReturnsPaired t))

/-- The number of line ends in a text when `next?` follows it. -/
def breaks : Text → Option Char → Nat
  | [], _ => 0
  | c :: t, next? => (if endsLine c (t.head?.or next?) then 1 else 0) + breaks t next?

/-- No character of the text breaks a line. -/
def Unbroken (t : Text) : Prop := ∀ c ∈ t, c ≠ '\n' ∧ c ≠ '\r'

theorem unbroken_iff {t : Text} : Unbroken t ↔ '\n' ∉ t ∧ '\r' ∉ t := by
  constructor
  · intro h
    exact ⟨fun hmem => (h _ hmem).1 rfl, fun hmem => (h _ hmem).2 rfl⟩
  · rintro ⟨hfeed, hret⟩ c hc
    exact ⟨fun heq => hfeed (heq ▸ hc), fun heq => hret (heq ▸ hc)⟩

/-- A line feed always ends a line. -/
theorem count_le_breaks (t : Text) (next? : Option Char) : t.count '\n' ≤ breaks t next? := by
  induction t with
  | nil => exact Nat.le_refl 0
  | cons c t ih =>
    rw [breaks]
    by_cases hc : c = '\n'
    · subst hc
      rw [List.count_cons_self, if_pos (by simp [endsLine])]
      omega
    · rw [List.count_cons_of_ne hc]
      omega

/-- With paired carriage returns, only line feeds end lines. -/
theorem breaks_eq_count {s r : Text} (h : ReturnsPaired (s ++ r)) :
    breaks s r.head? = s.count '\n' := by
  induction s with
  | nil => rfl
  | cons c s ih =>
    rw [List.cons_append, ReturnsPaired] at h
    obtain ⟨hc, hs⟩ := h
    rw [breaks, ih hs]
    by_cases hfeed : c = '\n'
    · subst hfeed
      rw [List.count_cons_self, if_pos (by simp [endsLine]), Nat.add_comm]
    · have hends : endsLine c (s.head?.or r.head?) = false := by
        rw [← List.head?_append, endsLine]
        by_cases hret : c = '\r'
        · rw [hc hret]
          simp [hfeed]
        · simp [hfeed, hret]
      rw [List.count_cons_of_ne hfeed, hends]
      exact Nat.zero_add _

end Text

/-! ### Where lines start -/

/-- Lines start after the text in which they are looked for starts. -/
theorem lt_of_mem_lineStartsFrom {start n : Nat} {t : Text} (h : n ∈ lineStartsFrom start t) :
    start < n := by
  induction t generalizing start with
  | nil => cases h
  | cons c t ih =>
    have hpos := c.utf8Size_pos
    rw [lineStartsFrom] at h
    split at h
    · rcases List.mem_cons.1 h with rfl | h
      · omega
      · have := ih h
        omega
    · have := ih h
      omega

/-- Lines start inside the text. -/
theorem le_of_mem_lineStartsFrom {start n : Nat} {t : Text} (h : n ∈ lineStartsFrom start t) :
    n ≤ start + Text.size t := by
  induction t generalizing start with
  | nil => cases h
  | cons c t ih =>
    rw [Text.size_cons]
    rw [lineStartsFrom] at h
    split at h
    · rcases List.mem_cons.1 h with rfl | h
      · omega
      · have := ih h
        omega
    · have := ih h
      omega

/-- A text without line breaks starts no line. -/
theorem lineStartsFrom_append_of_unbroken {s : Text} (h : s.Unbroken) (start : Nat) (t : Text) :
    lineStartsFrom start (s ++ t) = lineStartsFrom (start + Text.size s) t := by
  induction s generalizing start with
  | nil => rfl
  | cons c s ih =>
    obtain ⟨⟨hfeed, hreturn⟩, hs⟩ := List.forall_mem_cons.1 h
    have hends : endsLine c (s ++ t).head? = false := by simp [endsLine, hfeed, hreturn]
    rw [List.cons_append, lineStartsFrom, hends, Text.size_cons, ← Nat.add_assoc]
    exact ih hs (start + c.utf8Size)

/-- The line starts up to the end of an initial part belong to the line ends in it. -/
theorem length_takeWhile_lineStartsFrom (start : Nat) (s r : Text) :
    ((lineStartsFrom start (s ++ r)).takeWhile (· ≤ start + Text.size s)).length
      = Text.breaks s r.head? := by
  induction s generalizing start with
  | nil =>
    rw [List.nil_append, Text.size_nil, Nat.add_zero]
    cases h : lineStartsFrom start r with
    | nil => rfl
    | cons n l =>
      -- the next line starts behind the cut
      have hn : start < n := lt_of_mem_lineStartsFrom (h ▸ List.mem_cons_self)
      rw [List.takeWhile_cons_of_neg (by simpa using hn)]
      rfl
  | cons c s ih =>
    have hnext := ih (start + c.utf8Size)
    rw [Nat.add_assoc] at hnext
    rw [List.cons_append, lineStartsFrom, Text.size_cons, Text.breaks, ← List.head?_append]
    by_cases hends : endsLine c (s ++ r).head? = true
    · rw [if_pos hends, if_pos hends, List.takeWhile_cons_of_pos (by simp), List.length_cons,
        hnext, Nat.add_comm]
    · rw [if_neg hends, if_neg hends, hnext, Nat.zero_add]

namespace LineTable

/-! ### The line of an offset -/

/-- More is taken while numbers stay below a larger bound. -/
private theorem length_takeWhile_mono {a b : Nat} (h : a ≤ b) (l : List Nat) :
    (l.takeWhile (· ≤ a)).length ≤ (l.takeWhile (· ≤ b)).length := by
  induction l with
  | nil => exact Nat.le_refl 0
  | cons n l ih =>
    by_cases hn : n ≤ a
    · rw [List.takeWhile_cons_of_pos (by simpa using hn),
        List.takeWhile_cons_of_pos (by simpa using Nat.le_trans hn h)]
      exact Nat.succ_le_succ ih
    · rw [List.takeWhile_cons_of_neg (by simpa using hn)]
      exact Nat.zero_le _

/-- An offset further on is on no earlier line. -/
theorem placeOf_line_mono (table : LineTable) {a b : Nat} (h : a ≤ b) :
    (table.placeOf a).line ≤ (table.placeOf b).line := by
  have hmin : min a table.size ≤ min b table.size := by omega
  exact Nat.sub_le_sub_right (length_takeWhile_mono hmin table.starts) 1

/-- Between two characters, the line is the number of line ends before. -/
theorem placeOf_line_size {t s r : Text} (h : t = s ++ r) :
    ((ofText t).placeOf (Text.size s)).line = Text.breaks s r.head? := by
  subst h
  have hmin : min (Text.size s) (ofText (s ++ r)).size = Text.size s := by
    show min (Text.size s) (Text.size (s ++ r)) = _
    rw [Text.size_append]
    omega
  have hlen := length_takeWhile_lineStartsFrom 0 s r
  rw [Nat.zero_add] at hlen
  rw [placeOf, hmin, ← hlen]
  show ((0 :: lineStartsFrom 0 (s ++ r)).takeWhile (· ≤ Text.size s)).length - 1 = _
  rw [List.takeWhile_cons_of_pos (by simp)]
  rfl

/-- Every place has an offset inside the text. -/
theorem offsetOf_le_size (t : Text) (place : Place) : (ofText t).offsetOf place ≤ Text.size t := by
  unfold offsetOf
  split
  · exact Nat.le_refl _
  · refine Nat.le_trans (Nat.min_le_right _ _) ?_
    cases hnext : (ofText t).startOf? (place.line + 1) with
    | none => exact Nat.le_refl _
    | some n =>
      have hmem : n ∈ lineStartsFrom 0 t := List.mem_of_getElem? (i := place.line) hnext
      simpa using le_of_mem_lineStartsFrom hmem

/-- Every location has an offset inside the text. -/
theorem offsetOfLocation_le_size (t : Text) (location : Location) :
    (ofText t).offsetOfLocation location ≤ Text.size t := by
  unfold offsetOfLocation
  split
  · exact Nat.zero_le _
  · exact offsetOf_le_size t _

/-- **With paired carriage returns, lines are counted by line feeds.** -/
theorem placeOf_line_eq_count {t s r : Text} (h : t = s ++ r) (hpaired : Text.ReturnsPaired t) :
    ((ofText t).placeOf (Text.size s)).line = s.count '\n' := by
  rw [placeOf_line_size h]
  subst h
  exact Text.breaks_eq_count hpaired

end LineTable

end ComponentLint
