import ComponentLint.Proofs.Text.Bytes
import Mathlib.Algebra.Ring.Nat
import Mathlib.Data.List.SplitOn
import Mathlib.Tactic.Conv

/-!
# Rows and their margins

A list is cut into rows at a separator.  Putting a margin before each row is the inverse of
outdenting, and indenting a replacement is the special case in which all margins are equal.  The
rows of a text and the rows of its bytes get their margins in the same way, so both are treated
here at once.

## Main definitions

* `marginsFrom sep margin row l` — `l` with a margin before each row that it begins.
* `withMargins sep margin l` — `l` with a margin before each of its rows.

## Main statements

* `marginsFrom_append`, `withMargins_cut` — margins are put piece by piece.
* `marginsFrom_congr` — only the margins of the rows that are begun matter.
* `splitOn_withMargins` — row `i` of the result is row `i` with its margin.
* `length_marginsFrom` — the length, when the lengths of the margins are listed.
* `bytes_marginsFrom` — the bytes of a text with margins.
-/

namespace ComponentLint

variable {α : Type} [DecidableEq α]

/-! ### Putting margins -/

/-- Puts a margin before each row that a list begins.  The list starts inside row `row`, which is
left alone. -/
def marginsFrom (sep : α) (margin : Nat → List α) (row : Nat) : List α → List α
  | [] => []
  | a :: l =>
    if a = sep then a :: (margin (row + 1) ++ marginsFrom sep margin (row + 1) l)
    else a :: marginsFrom sep margin row l

/-- Puts a margin before each row of a list. -/
def withMargins (sep : α) (margin : Nat → List α) (l : List α) : List α :=
  margin 0 ++ marginsFrom sep margin 0 l

@[simp] theorem marginsFrom_nil (sep : α) (margin : Nat → List α) (row : Nat) :
    marginsFrom sep margin row [] = [] := rfl

@[simp] theorem marginsFrom_cons_self (sep : α) (margin : Nat → List α) (row : Nat) (l : List α) :
    marginsFrom sep margin row (sep :: l)
      = sep :: (margin (row + 1) ++ marginsFrom sep margin (row + 1) l) :=
  if_pos rfl

theorem marginsFrom_cons_of_ne {sep a : α} (h : a ≠ sep) (margin : Nat → List α) (row : Nat)
    (l : List α) : marginsFrom sep margin row (a :: l) = a :: marginsFrom sep margin row l :=
  if_neg h

/-- Margins are put piece by piece: the second piece starts as many rows further on as the first
one has separators. -/
theorem marginsFrom_append (sep : α) (margin : Nat → List α) (row : Nat) (l r : List α) :
    marginsFrom sep margin row (l ++ r)
      = marginsFrom sep margin row l ++ marginsFrom sep margin (row + l.count sep) r := by
  induction l generalizing row with
  | nil => rfl
  | cons a l ih =>
    by_cases h : a = sep
    · subst h
      rw [List.cons_append, marginsFrom_cons_self, marginsFrom_cons_self, ih, List.count_cons_self,
        List.cons_append, List.append_assoc, Nat.add_assoc, Nat.add_comm 1]
    · rw [List.cons_append, marginsFrom_cons_of_ne h, marginsFrom_cons_of_ne h, ih,
        List.count_cons_of_ne h, List.cons_append]

/-- A list that begins no row is left alone. -/
theorem marginsFrom_of_notMem {sep : α} (margin : Nat → List α) (row : Nat) {l : List α}
    (h : sep ∉ l) : marginsFrom sep margin row l = l := by
  induction l with
  | nil => rfl
  | cons a l ih =>
    rw [List.mem_cons, not_or] at h
    rw [marginsFrom_cons_of_ne (Ne.symm h.1), ih h.2]

/-- Only the margins of the rows that are begun matter, however these rows are counted. -/
theorem marginsFrom_congr {sep : α} {m m' : Nat → List α} {row row' : Nat} {l : List α}
    (h : ∀ i, i < l.count sep → m (row + 1 + i) = m' (row' + 1 + i)) :
    marginsFrom sep m row l = marginsFrom sep m' row' l := by
  induction l generalizing row row' with
  | nil => rfl
  | cons a l ih =>
    by_cases ha : a = sep
    · subst ha
      rw [List.count_cons_self] at h
      have hhead : m (row + 1) = m' (row' + 1) := h 0 (Nat.succ_pos _)
      have htail : ∀ i, i < l.count a → m (row + 1 + 1 + i) = m' (row' + 1 + 1 + i) := by
        intro i hi
        have := h (i + 1) (Nat.succ_lt_succ hi)
        rwa [← Nat.add_assoc, Nat.add_right_comm _ i, ← Nat.add_assoc,
          Nat.add_right_comm _ i] at this
      rw [marginsFrom_cons_self, marginsFrom_cons_self, hhead, ih htail]
    · rw [List.count_cons_of_ne ha] at h
      rw [marginsFrom_cons_of_ne ha, marginsFrom_cons_of_ne ha, ih h]

/-- A list of one row gets one margin. -/
theorem withMargins_of_notMem {sep : α} (margin : Nat → List α) {l : List α} (h : sep ∉ l) :
    withMargins sep margin l = margin 0 ++ l := by
  rw [withMargins, marginsFrom_of_notMem _ _ h]

/-- The first row gets the first margin, and the rows after it get the others. -/
theorem withMargins_append_cons {sep : α} (margin : Nat → List α) {l : List α} (h : sep ∉ l)
    (r : List α) :
    withMargins sep margin (l ++ sep :: r)
      = margin 0 ++ (l ++ sep :: withMargins sep (fun i => margin (i + 1)) r) := by
  have hshift : marginsFrom sep margin 1 r = marginsFrom sep (fun i => margin (i + 1)) 0 r := by
    refine marginsFrom_congr fun i _ => ?_
    rw [Nat.zero_add, Nat.add_right_comm]
  rw [withMargins, marginsFrom_append, marginsFrom_of_notMem _ _ h, marginsFrom_cons_self,
    List.count_eq_zero_of_not_mem h, hshift]
  rfl

/-- A list that is cut anywhere gets the margins of its two parts. -/
theorem withMargins_cut (sep : α) (margin : Nat → List α) (l : List α) (n : Nat) :
    withMargins sep margin l =
      withMargins sep margin (l.take n) ++
        marginsFrom sep margin ((l.take n).count sep) (l.drop n) := by
  conv_lhs => rw [← List.take_append_drop n l]
  rw [withMargins, marginsFrom_append, Nat.zero_add, withMargins, List.append_assoc]

/-! ### Rows of the result -/

/-- What holds no separator joins the first row of what follows it. -/
theorem splitOn_append_of_notMem {sep : α} {l : List α} (h : sep ∉ l) (r : List α) :
    (l ++ r).splitOn sep = (r.splitOn sep).modifyHead (l ++ ·) := by
  induction l with
  | nil =>
    rw [List.nil_append]
    cases r.splitOn sep <;> rfl
  | cons a l ih =>
    rw [List.mem_cons, not_or] at h
    rw [List.cons_append, List.splitOn_cons_eq_if_modifyHead,
      if_neg (by simpa using Ne.symm h.1), ih h.2, List.modifyHead_modifyHead]
    rfl

/-- There is one row more than there are separators. -/
theorem length_splitOn (sep : α) (l : List α) : (l.splitOn sep).length = l.count sep + 1 := by
  induction l with
  | nil => rfl
  | cons a l ih =>
    rw [List.splitOn_cons_eq_if_modifyHead]
    by_cases h : a = sep
    · subst h
      rw [if_pos (beq_self_eq_true a), List.length_cons, ih, List.count_cons_self]
    · rw [if_neg (by simpa using h), List.length_modifyHead, ih, List.count_cons_of_ne h]

/-- The first row is left alone, and each further row gets its margin. -/
theorem splitOn_marginsFrom {sep : α} {margin : Nat → List α} (h : ∀ i, sep ∉ margin i)
    (row : Nat) (l : List α) :
    (marginsFrom sep margin row l).splitOn sep
      = (l.splitOn sep).mapIdx fun i r => (if i = 0 then [] else margin (row + i)) ++ r := by
  induction l generalizing row with
  | nil => rfl
  | cons a l ih =>
    obtain ⟨r, rs, hr⟩ := List.exists_cons_of_ne_nil (List.splitOn_ne_nil sep l)
    by_cases ha : a = sep
    · -- a row begins, and its margin joins the first row of what follows
      subst ha
      rw [marginsFrom_cons_self, List.splitOn_cons_eq_if_modifyHead,
        List.splitOn_cons_eq_if_modifyHead, if_pos (beq_self_eq_true a),
        if_pos (beq_self_eq_true a), splitOn_append_of_notMem (h _), ih, hr]
      simp [Nat.add_assoc, Nat.add_comm 1]
    · rw [marginsFrom_cons_of_ne ha, List.splitOn_cons_eq_if_modifyHead,
        List.splitOn_cons_eq_if_modifyHead, if_neg (by simpa using ha),
        if_neg (by simpa using ha), ih, hr]
      simp

/-- Row `i` of a list with margins is row `i` of the list with its margin. -/
theorem splitOn_withMargins {sep : α} {margin : Nat → List α} (h : ∀ i, sep ∉ margin i)
    (l : List α) :
    (withMargins sep margin l).splitOn sep
      = (l.splitOn sep).mapIdx fun i r => margin i ++ r := by
  obtain ⟨r, rs, hr⟩ := List.exists_cons_of_ne_nil (List.splitOn_ne_nil sep l)
  rw [withMargins, splitOn_append_of_notMem (h 0), splitOn_marginsFrom h, hr]
  simp

/-- Margins without separators add none. -/
theorem count_marginsFrom {sep : α} {margin : Nat → List α} (h : ∀ i, sep ∉ margin i)
    (row : Nat) (l : List α) : (marginsFrom sep margin row l).count sep = l.count sep := by
  have hlen := congrArg List.length (splitOn_marginsFrom h row l)
  rw [List.length_mapIdx, length_splitOn, length_splitOn] at hlen
  exact Nat.succ.inj hlen

theorem count_withMargins {sep : α} {margin : Nat → List α} (h : ∀ i, sep ∉ margin i)
    (l : List α) : (withMargins sep margin l).count sep = l.count sep := by
  rw [withMargins, List.count_append, List.count_eq_zero_of_not_mem (h 0), Nat.zero_add,
    count_marginsFrom h]

/-- The last row of a list with margins, when the list is more than one row. -/
theorem lastRow_marginsFrom_of_mem {sep : α} {margin : Nat → List α} (h : ∀ i, sep ∉ margin i)
    (row : Nat) {l : List α} (hl : sep ∈ l) (pre : List α) :
    lastRow sep (pre ++ marginsFrom sep margin row l)
      = margin (row + l.count sep) ++ lastRow sep l := by
  rcases notMem_or_exists_append_cons sep l with hn | ⟨s, r, rfl, hr⟩
  · exact absurd hl hn
  have hrow : sep ∉ margin (row + s.count sep + 1) ++ r := by
    rw [List.mem_append, not_or]
    exact ⟨h _, hr⟩
  rw [marginsFrom_append, marginsFrom_cons_self, marginsFrom_of_notMem _ _ hr,
    ← List.append_assoc, lastRow_append_cons, lastRow_append_cons, lastRow_of_notMem hrow,
    lastRow_of_notMem hr, List.count_append, List.count_cons_self,
    List.count_eq_zero_of_not_mem hr]
  rfl

/-- A margin is put before a row, so the front of the list stays in front. -/
theorem head?_marginsFrom (sep : α) (margin : Nat → List α) (row : Nat) (l : List α) :
    (marginsFrom sep margin row l).head? = l.head? := by
  cases l with
  | nil => rfl
  | cons a l =>
    rw [marginsFrom]
    split <;> rfl

/-! ### Lengths -/

/-- One more entry of a list of numbers, missing entries counting zero. -/
theorem sum_take_succ (ns : List Nat) (n : Nat) :
    (ns.take (n + 1)).sum = (ns.take n).sum + ns.getD n 0 := by
  rw [List.take_add_one, List.sum_append_nat, List.getD_eq_getElem?_getD]
  cases ns[n]? <;> simp

theorem sum_take_mono (ns : List Nat) {a b : Nat} (h : a ≤ b) :
    (ns.take a).sum ≤ (ns.take b).sum := by
  induction h with
  | refl => exact Nat.le_refl _
  | @step b _ ih =>
    rw [sum_take_succ]
    exact Nat.le_trans ih (Nat.le_add_right ..)

theorem sum_take_le (ns : List Nat) (n : Nat) : (ns.take n).sum ≤ ns.sum := by
  have h := sum_take_mono ns (Nat.le_max_left n ns.length)
  rwa [List.take_of_length_le (Nat.le_max_right ..)] at h

/-- The length of a list with margins, when the lengths of the margins are listed. -/
theorem length_marginsFrom (sep : α) {margin : Nat → List α} {ns : List Nat}
    (h : ∀ i, (margin i).length = ns.getD i 0) (row : Nat) (l : List α) :
    (marginsFrom sep margin row l).length + (ns.take (row + 1)).sum
      = l.length + (ns.take (row + 1 + l.count sep)).sum := by
  induction l generalizing row with
  | nil => simp
  | cons a l ih =>
    by_cases ha : a = sep
    · -- the margin of the row that begins is the next entry of `ns`
      subst ha
      have hrec := ih (row + 1)
      rw [sum_take_succ, ← h] at hrec
      rw [marginsFrom_cons_self, List.length_cons, List.length_append, List.length_cons,
        List.count_cons_self, Nat.add_comm (l.count a), ← Nat.add_assoc (row + 1)]
      omega
    · rw [marginsFrom_cons_of_ne ha, List.length_cons, List.length_cons,
        List.count_cons_of_ne ha]
      have hrec := ih row
      omega

theorem length_withMargins (sep : α) {margin : Nat → List α} {ns : List Nat}
    (h : ∀ i, (margin i).length = ns.getD i 0) (l : List α) :
    (withMargins sep margin l).length = l.length + (ns.take (l.count sep + 1)).sum := by
  have hlen := length_marginsFrom sep h 0 l
  have hfirst : (ns.take 1).sum = (margin 0).length := by
    rw [sum_take_succ ns 0, h, List.take_zero, List.sum_nil, Nat.zero_add]
  rw [Nat.zero_add, hfirst, Nat.add_comm 1] at hlen
  rw [withMargins, List.length_append]
  omega

/-! ### Margins of texts -/

/-- The bytes of a text with margins. -/
theorem bytes_marginsFrom (margin : Nat → Text) (row : Nat) (t : Text) :
    Text.bytes (marginsFrom '\n' margin row t)
      = marginsFrom feed (fun i => Text.bytes (margin i)) row (Text.bytes t) := by
  induction t generalizing row with
  | nil => rfl
  | cons c t ih =>
    by_cases h : c = '\n'
    · subst h
      rw [marginsFrom_cons_self, Text.bytes_cons, Text.bytes_append, ih, Text.bytes_cons,
        utf8EncodeChar_feed, List.singleton_append, List.singleton_append, marginsFrom_cons_self]
    · have hc := feed_notMem_utf8EncodeChar h
      rw [marginsFrom_cons_of_ne h, Text.bytes_cons, Text.bytes_cons, ih, marginsFrom_append,
        marginsFrom_of_notMem _ _ hc, List.count_eq_zero_of_not_mem hc, Nat.add_zero]

theorem bytes_withMargins (margin : Nat → Text) (t : Text) :
    Text.bytes (withMargins '\n' margin t)
      = withMargins feed (fun i => Text.bytes (margin i)) (Text.bytes t) := by
  rw [withMargins, Text.bytes_append, bytes_marginsFrom, withMargins]

end ComponentLint
