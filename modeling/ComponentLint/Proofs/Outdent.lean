import ComponentLint.Outdent
import ComponentLint.Proofs.Text.Margins
import Mathlib.Data.List.Basic

/-!
# Outdenting loses nothing

What `outdent` takes from a line is the margin or nothing, and the table of removals says which.
Putting back what was taken rebuilds the text.  Everything that is moved from a block to the
document rests on this one equation.

## Main definitions

* `Removal.taken r margin i` — the text that was taken from line `i`.

## Main statements

* `Text.byRows` — induction on a text, row by row.
* `withMargins_outdent` — putting back what was taken rebuilds the text.
* `size_taken` — the table counts the bytes that were taken.
* `filter_outdent` — what is taken is blank.
* `beforeLine_ofLines` — the running sums of the table.
-/

namespace ComponentLint

namespace Text

/-! ### Texts row by row -/

/-- Induction on a text: it is a row without line feed, or such a row, a line feed and a rest. -/
@[elab_as_elim]
theorem byRows {P : Text → Prop} (last : ∀ l, '\n' ∉ l → P l)
    (row : ∀ l t, '\n' ∉ l → P t → P (l ++ '\n' :: t)) (t : Text) : P t := by
  -- generalised to a text that has begun with `l`
  suffices h : ∀ l, '\n' ∉ l → P (l ++ t) from h [] List.not_mem_nil
  induction t with
  | nil =>
    intro l hl
    rw [List.append_nil]
    exact last l hl
  | cons c t ih =>
    intro l hl
    by_cases hc : c = '\n'
    · subst hc
      exact row l t hl (ih [] List.not_mem_nil)
    · rw [List.append_cons]
      refine ih (l ++ [c]) ?_
      rw [List.mem_append, List.mem_singleton, not_or]
      exact ⟨hl, Ne.symm hc⟩

/-- A row and its line feed are the first line. -/
theorem lines_append_feed {l : Text} (h : '\n' ∉ l) (t : Text) :
    lines (l ++ '\n' :: t) = (l ++ ['\n']) :: lines t := by
  induction l with
  | nil => rfl
  | cons c l ih =>
    rw [List.mem_cons, not_or] at h
    rw [List.cons_append, lines, if_neg (Ne.symm h.1), ih h.2]
    rfl

/-- A row without line feed is one line, if there is anything in it. -/
theorem lines_of_notMem {l : Text} (h : '\n' ∉ l) (hne : l ≠ []) : lines l = [l] := by
  induction l with
  | nil => exact absurd rfl hne
  | cons c l ih =>
    rw [List.mem_cons, not_or] at h
    rw [lines, if_neg (Ne.symm h.1)]
    cases l with
    | nil => rfl
    | cons d l => rw [ih h.2 (List.cons_ne_nil d l)]

/-- There is at most one line more than there are line feeds. -/
theorem length_lines_le (t : Text) : (lines t).length ≤ t.count '\n' + 1 := by
  induction t using byRows with
  | last l hl =>
    rcases eq_or_ne l [] with rfl | hne
    · exact Nat.zero_le _
    · rw [lines_of_notMem hl hne]
      exact Nat.le_add_left ..
  | row l t hl ih =>
    rw [lines_append_feed hl, List.length_cons, List.count_append, List.count_cons_self]
    omega

/-! ### The margin -/

/-- A margin consists of spaces and tabs. -/
theorem isBlank_of_mem_margin {t : Text} {c : Char} (h : c ∈ margin t) : isBlank c = true := by
  rw [margin, List.mem_reverse] at h
  exact List.all_eq_true.1 List.all_takeWhile c h

theorem feed_notMem_margin (t : Text) : '\n' ∉ margin t := fun h =>
  absurd (isBlank_of_mem_margin h) (by decide)

end Text

/-! ### One line -/

/-- What was taken from a line, given how many bytes it was: the margin or nothing. -/
def takenOf (margin : Text) (n : Nat) : Text := if n = 0 then [] else margin

/-- The text that was taken from a line, lines counted from zero. -/
def Removal.taken (r : Removal) (margin : Text) (line : Nat) : Text :=
  takenOf margin (r.onLine line)

/-- Either the margin is taken from a line, or nothing. -/
theorem outdentLine_cases (margin line : Text) :
    (∃ rest, line = margin ++ rest ∧ outdentLine margin line = (Text.size margin, rest)) ∨
      (¬ margin <+: line ∧ outdentLine margin line = (0, line)) := by
  rw [outdentLine]
  cases h : margin.isPrefixOf? line with
  | some rest =>
    exact Or.inl ⟨rest, (List.isPrefixOf?_eq_some_iff_append_eq.1 h).symm, rfl⟩
  | none =>
    refine Or.inr ⟨?_, rfl⟩
    rintro ⟨rest, hrest⟩
    rw [List.isPrefixOf?_eq_some_iff_append_eq.2 hrest] at h
    cases h

/-- The line feed at the end of a line stays there. -/
theorem outdentLine_append_feed {margin : Text} (h : '\n' ∉ margin) (line : Text) :
    outdentLine margin (line ++ ['\n'])
      = ((outdentLine margin line).1, (outdentLine margin line).2 ++ ['\n']) := by
  rcases outdentLine_cases margin line with ⟨rest, rfl, hout⟩ | ⟨hno, hout⟩
  · rw [hout, outdentLine, List.isPrefixOf?_eq_some_iff_append_eq.2 (List.append_assoc ..).symm]
  · rw [hout]
    rcases outdentLine_cases margin (line ++ ['\n']) with ⟨rest, hrest, -⟩ | ⟨-, hout'⟩
    · -- the margin would have to reach past the line feed
      rcases List.append_eq_append_iff.1 hrest with ⟨s, hs, hfeed⟩ | ⟨s, hs, -⟩
      · cases s with
        | nil => exact absurd ⟨[], by rw [hs, List.append_nil, List.append_nil]⟩ hno
        | cons c s =>
          rw [List.cons_append, List.cons.injEq] at hfeed
          rw [hs, ← hfeed.1] at h
          exact absurd (List.mem_append_right _ List.mem_cons_self) h
      · exact absurd ⟨s, hs.symm⟩ hno
    · exact hout'

/-- What was taken from a line and what is left of it. -/
theorem takenOf_append_outdentLine (margin line : Text) :
    takenOf margin (outdentLine margin line).1 ++ (outdentLine margin line).2 = line := by
  rcases outdentLine_cases margin line with ⟨rest, rfl, hout⟩ | ⟨-, hout⟩
  · rw [hout, takenOf]
    split
    · next h => rw [Text.size_eq_zero.1 h, List.nil_append]
    · rfl
  · rw [hout]
    rfl

theorem outdentLine_fst (margin line : Text) :
    (outdentLine margin line).1 = 0 ∨ (outdentLine margin line).1 = Text.size margin := by
  rcases outdentLine_cases margin line with ⟨rest, -, hout⟩ | ⟨-, hout⟩
  · rw [hout]
    exact Or.inr rfl
  · rw [hout]
    exact Or.inl rfl

/-! ### All lines -/

/-- What is left of a line has no line feed that the line does not have. -/
private theorem feed_notMem_outdentLine {line : Text} (margin : Text) (h : '\n' ∉ line) :
    '\n' ∉ (outdentLine margin line).2 := by
  rw [← takenOf_append_outdentLine margin line, List.mem_append, not_or] at h
  exact h.2

/-- Putting back what was taken rebuilds the text, whatever margin was taken. -/
private theorem withMargins_lines {margin : Text} (h : '\n' ∉ margin) (t : Text) :
    withMargins '\n'
        (fun i => takenOf margin
          ((((Text.lines t).map (outdentLine margin)).map Prod.fst).getD i 0))
        (((Text.lines t).map (outdentLine margin)).flatMap Prod.snd) = t := by
  induction t using Text.byRows with
  | last l hl =>
    rcases eq_or_ne l [] with rfl | hne
    · rfl
    rw [Text.lines_of_notMem hl hne]
    simp only [List.map_cons, List.map_nil, List.flatMap_cons, List.flatMap_nil, List.append_nil]
    rw [withMargins_of_notMem _ (feed_notMem_outdentLine margin hl)]
    exact takenOf_append_outdentLine margin l
  | row l t hl ih =>
    rw [Text.lines_append_feed hl]
    simp only [List.map_cons, List.flatMap_cons, outdentLine_append_feed h]
    rw [List.append_assoc, List.singleton_append,
      withMargins_append_cons _ (feed_notMem_outdentLine margin hl)]
    simp only [List.getD_cons_succ, List.getD_cons_zero]
    rw [ih, ← List.append_assoc, takenOf_append_outdentLine]

/-- **Outdenting loses nothing.**  Putting back what was taken from each line rebuilds the
text. -/
theorem withMargins_outdent (t : Text) :
    withMargins '\n' ((outdent t).removal.taken (outdent t).margin) (outdent t).text = t :=
  withMargins_lines (Text.feed_notMem_margin t) t

/-- What is taken from a line is no line feed. -/
theorem feed_notMem_taken (t : Text) (i : Nat) :
    '\n' ∉ (outdent t).removal.taken (outdent t).margin i := by
  rw [Removal.taken, takenOf]
  split
  · exact List.not_mem_nil
  · exact Text.feed_notMem_margin t

/-- From every line the whole margin is taken, or nothing. -/
theorem onLine_outdent (t : Text) (i : Nat) :
    (outdent t).removal.onLine i = 0 ∨
      (outdent t).removal.onLine i = Text.size (outdent t).margin := by
  show (((Text.lines t).map (outdentLine (Text.margin t))).map Prod.fst).getD i 0 = 0 ∨
    (((Text.lines t).map (outdentLine (Text.margin t))).map Prod.fst).getD i 0
      = Text.size (Text.margin t)
  rw [List.getD_eq_getElem?_getD, List.map_map, List.getElem?_map]
  cases (Text.lines t)[i]? with
  | none => exact Or.inl rfl
  | some line => exact outdentLine_fst (Text.margin t) line

/-- The table counts the bytes that were taken. -/
theorem size_taken (t : Text) (i : Nat) :
    Text.size ((outdent t).removal.taken (outdent t).margin i)
      = (outdent t).removal.perLine.getD i 0 := by
  have hcases := onLine_outdent t i
  rw [Removal.taken, takenOf]
  split
  · next h => exact h.symm
  · next h => exact (hcases.resolve_left h).symm

/-- Outdenting keeps the number of lines. -/
theorem count_feed_outdent (t : Text) : (outdent t).text.count '\n' = t.count '\n' := by
  have h := count_withMargins (feed_notMem_taken t) (outdent t).text
  rw [withMargins_outdent] at h
  exact h.symm

/-- The table has no more entries than the outdented text has lines. -/
theorem length_perLine_outdent (t : Text) :
    (outdent t).removal.perLine.length ≤ (outdent t).text.count '\n' + 1 := by
  rw [count_feed_outdent]
  show (((Text.lines t).map (outdentLine _)).map Prod.fst).length ≤ _
  rw [List.length_map, List.length_map]
  exact Text.length_lines_le t

/-- What is taken from a line is blank. -/
theorem filter_outdentLine {p : Char → Bool} {margin : Text} (hp : ∀ c ∈ margin, p c = false)
    (line : Text) : (outdentLine margin line).2.filter p = line.filter p := by
  rcases outdentLine_cases margin line with ⟨rest, rfl, hout⟩ | ⟨-, hout⟩
  · have hmargin : margin.filter p = [] := List.filter_eq_nil_iff.2 (by simpa using hp)
    rw [hout, List.filter_append, hmargin, List.nil_append]
  · rw [hout]

/-- Outdenting keeps all characters but blanks. -/
theorem filter_outdent {p : Char → Bool} (hp : ∀ c, Text.isBlank c = true → p c = false)
    (t : Text) : (outdent t).text.filter p = t.filter p := by
  have hmargin : ∀ c ∈ Text.margin t, p c = false := fun c hc =>
    hp c (Text.isBlank_of_mem_margin hc)
  have hlines : (Text.lines t).flatMap id = t := by
    rw [List.flatMap_id, Text.flatten_lines]
  show (((Text.lines t).map (outdentLine (Text.margin t))).flatMap Prod.snd).filter p = _
  conv_rhs => rw [← hlines]
  rw [List.flatMap_map, List.filter_flatMap, List.filter_flatMap]
  congr 1
  funext line
  exact filter_outdentLine hmargin line

/-! ### The running sums of the table -/

namespace Removal

theorem le_of_mem_sums {sum n : Nat} {ns : List Nat} (h : n ∈ sums sum ns) :
    n ≤ sum + ns.sum := by
  induction ns generalizing sum with
  | nil => exact Nat.le_of_eq (List.mem_singleton.1 h)
  | cons m ns ih =>
    rw [List.sum_cons]
    rcases List.mem_cons.1 h with rfl | h
    · exact Nat.le_add_right ..
    · rw [← Nat.add_assoc]
      exact ih h

theorem length_sums (sum : Nat) (ns : List Nat) : (sums sum ns).length = ns.length + 1 := by
  induction ns generalizing sum with
  | nil => rfl
  | cons n ns ih => rw [sums, List.length_cons, ih, List.length_cons]

/-- Entry `i` of the running sums is the sum of the first `i` numbers. -/
theorem getElem?_sums (sum : Nat) {ns : List Nat} {i : Nat} (hi : i ≤ ns.length) :
    (sums sum ns)[i]? = some (sum + (ns.take i).sum) := by
  induction ns generalizing sum i with
  | nil =>
    obtain rfl : i = 0 := Nat.le_zero.1 hi
    rfl
  | cons n ns ih =>
    cases i with
    | zero => rfl
    | succ i =>
      rw [sums, List.getElem?_cons_succ, ih _ (Nat.le_of_succ_le_succ hi), List.take_succ_cons,
        List.sum_cons, Nat.add_assoc]

/-- What was removed before a line is the sum of what was removed from the lines before it.
Lines outside the table add nothing, so it does not matter that the index is kept inside. -/
theorem beforeLine_ofLines (ns : List Nat) (line : Int) :
    (ofLines ns).beforeLine line = (ns.take line.toNat).sum := by
  rw [beforeLine, ofLines, length_sums, Nat.add_sub_cancel, List.getD_eq_getElem?_getD,
    getElem?_sums 0 (Nat.min_le_right ..), Option.getD_some, Nat.zero_add]
  exact congrArg List.sum (List.take_eq_take_iff.2 (by omega))

end Removal

end ComponentLint
