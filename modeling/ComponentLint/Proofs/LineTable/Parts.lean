import ComponentLint.Proofs.LineTable.Places

/-!
# Line tables of parts

A part of a text has a line table of its own.  Its lines are the lines of the text, counted from
the line on which the part starts, and its first line lacks the columns that stand before the part.
Whatever stands before the part, this holds; what stands behind it must not begin with a line feed,
since a carriage return at the end of the part would be alone in the part and paired in the text.

## Main definitions

* `Place.behind origin p` — the place `p` of a part that starts at the place `origin`.

## Main statements

* `LineTable.starts_append` — where the lines of a text start that is made of two parts.
* `LineTable.placeOf_append_right`, `LineTable.placeOf_append_left` — places in a part that ends a
  text, and in one that starts it.
* `LineTable.placeOf_part` — **the places of a part are places of the text.**
-/

namespace ComponentLint

open Text

/-! ### Places counted from a place -/

namespace Place

/-- The place `p` of a part that starts at the place `origin`: lines are counted from the line of
`origin`, and on this line columns are counted from its column. -/
def behind (origin p : Place) : Place :=
  ⟨origin.line + p.line, p.column + if p.line = 0 then origin.column else 0⟩

theorem behind_injective (origin : Place) : Function.Injective origin.behind := by
  intro p q h
  obtain ⟨hline, hcolumn⟩ := Place.mk.inj h
  have hlines : p.line = q.line := Nat.add_left_cancel hline
  rw [hlines] at hcolumn
  cases p
  cases q
  simp_all

end Place

/-! ### Where the lines of two parts start -/

theorem lineStartsFrom_add (n start : Nat) (t : Text) :
    lineStartsFrom (n + start) t = (lineStartsFrom start t).map (n + ·) := by
  induction t generalizing start with
  | nil => rfl
  | cons c t ih =>
    rw [lineStartsFrom, lineStartsFrom]
    split <;> simp [ih, Nat.add_assoc]

/-- The lines that start in the first of two parts, and those that start in the second one. -/
theorem exists_lineStartsFrom_append (start : Nat) (s t : Text) :
    ∃ front, lineStartsFrom start (s ++ t) = front ++ lineStartsFrom (start + size s) t ∧
      (∀ n ∈ front, n ≤ start + size s) ∧
      (t.head? ≠ some '\n' → front = lineStartsFrom start s) := by
  induction s generalizing start with
  | nil => exact ⟨[], rfl, by simp, fun _ => rfl⟩
  | cons c s ih =>
    obtain ⟨front, hfront, hle, hown⟩ := ih (start + c.utf8Size)
    rw [Nat.add_assoc, ← size_cons] at hfront hle
    -- the second part decides about a line end only if it follows at once
    have hends : t.head? ≠ some '\n' → endsLine c (s ++ t).head? = endsLine c s.head? := by
      intro ht
      cases s with
      | nil => simp [endsLine, bne, beq_eq_false_iff_ne.2 ht]
      | cons d s => rfl
    rw [List.cons_append, lineStartsFrom]
    by_cases hc : endsLine c (s ++ t).head? = true
    · refine ⟨(start + c.utf8Size) :: front, ?_, ?_, ?_⟩
      · rw [if_pos hc, hfront]
        rfl
      · rw [List.forall_mem_cons, size_cons]
        exact ⟨by omega, by rwa [size_cons] at hle⟩
      · intro ht
        rw [lineStartsFrom, ← hends ht, if_pos hc, hown ht]
    · refine ⟨front, by rw [if_neg hc, hfront], hle, ?_⟩
      intro ht
      rw [lineStartsFrom, ← hends ht, if_neg hc, hown ht]

namespace LineTable

/-- The lines of two parts: those that start in the first one, and those that start in the second
one, further on by the size of the first. -/
theorem starts_append (s t : Text) :
    ∃ front, (ofText (s ++ t)).starts =
        0 :: front ++ (lineStartsFrom 0 t).map (Text.size s + ·) ∧
      (∀ n ∈ front, n ≤ Text.size s) ∧ (t.head? ≠ some '\n' → front = lineStartsFrom 0 s) := by
  obtain ⟨front, hfront, hle, hown⟩ := exists_lineStartsFrom_append 0 s t
  rw [Nat.zero_add] at hfront hle
  refine ⟨front, ?_, hle, hown⟩
  rw [ofText, hfront, ← lineStartsFrom_add]
  rfl

/-! ### The places of two parts -/

/-- The lines behind the one on which a part starts that ends the text are the lines of the
part. -/
theorem startOf?_append_right (s t : Text) (k : Nat) :
    (ofText (s ++ t)).startOf? (((ofText (s ++ t)).placeOf (Text.size s)).line + (k + 1)) =
      ((ofText t).startOf? (k + 1)).map (Text.size s + ·) := by
  obtain ⟨front, hstarts, hfront, -⟩ := starts_append s t
  -- the line on which the part starts is the last one that starts before it
  obtain ⟨init, start, hlast⟩ : ∃ init start, 0 :: front = init ++ [start] :=
    ⟨_, _, (List.dropLast_concat_getLast (List.cons_ne_nil 0 front)).symm⟩
  have hlength : init.length = front.length := by simpa using (congrArg List.length hlast).symm
  have hle : start ≤ Text.size s := by
    have hmem : start ∈ 0 :: front := by simp [hlast]
    rcases List.mem_cons.1 hmem with rfl | hmem
    · exact Nat.zero_le _
    · exact hfront start hmem
  have hlater (j : Nat) : (ofText (s ++ t)).startOf? (front.length + 1 + j) =
      (lineStartsFrom 0 t)[j]?.map (Text.size s + ·) := by
    rw [startOf?, hstarts, List.getElem?_append_right (by simp)]
    simp
  have horigin : (ofText (s ++ t)).placeOf (Text.size s) =
      ⟨front.length, Text.size s - start⟩ := by
    apply (ofText_wellFormed _).placeOf_eq
    refine ⟨start, ?_, (Nat.add_sub_cancel' hle).symm, ?_, ?_⟩
    · rw [startOf?, hstarts, hlast, ← hlength]
      simp
    · exact Nat.le_trans (Nat.le_add_right _ _) (Nat.le_of_eq (size_append s t).symm)
    · intro next hnext
      obtain ⟨n, hn, rfl⟩ := Option.map_eq_some_iff.1 ((hlater 0).symm.trans hnext)
      have hpos := lt_of_mem_lineStartsFrom (List.mem_of_getElem? hn)
      omega
  rw [horigin, Nat.add_comm k 1, ← Nat.add_assoc, hlater, Nat.add_comm 1 k]
  rfl

/-- A place in a part that ends a text. -/
theorem placeOf_append_right (s : Text) {t : Text} {o : Nat} (ho : o ≤ Text.size t) :
    (ofText (s ++ t)).placeOf (Text.size s + o) =
      ((ofText (s ++ t)).placeOf (Text.size s)).behind ((ofText t).placeOf o) := by
  have hsize : (ofText (s ++ t)).size = Text.size s + Text.size t := size_append s t
  have hlater := startOf?_append_right s t
  obtain ⟨start, hstart, horigin, -, -⟩ :=
    (ofText_wellFormed (s ++ t)).isPlaceOf_placeOf (o := Text.size s) (by omega)
  obtain ⟨n, hn, hpart, -, hnext⟩ := (ofText_wellFormed t).isPlaceOf_placeOf ho
  generalize (ofText (s ++ t)).placeOf (Text.size s) = origin at hlater hstart horigin ⊢
  generalize (ofText t).placeOf o = q at hn hpart hnext ⊢
  have hnext' : ∀ next, (ofText (s ++ t)).startOf? (origin.line + q.line + 1) = some next →
      Text.size s + o < next := by
    intro next hlook
    rw [Nat.add_assoc, hlater] at hlook
    obtain ⟨m, hm, rfl⟩ := Option.map_eq_some_iff.1 hlook
    have hlt := hnext m hm
    omega
  apply (ofText_wellFormed _).placeOf_eq
  obtain ⟨line, column⟩ := q
  -- the first line of the part started before it
  cases line with
  | zero =>
    obtain rfl : n = 0 := (Option.some.inj hn).symm
    refine ⟨start, hstart, ?_, by omega, hnext'⟩
    simp only [Place.behind, if_true] at hpart ⊢
    omega
  | succ k =>
    refine ⟨Text.size s + n, ?_, ?_, by omega, hnext'⟩
    · exact (hlater k).trans (congrArg (Option.map (Text.size s + ·)) hn)
    · simp only [Place.behind, Nat.succ_ne_zero, if_false] at hpart ⊢
      omega

/-- A place in a part that starts a text. -/
theorem placeOf_append_left {s t : Text} (ht : t.head? ≠ some '\n') {o : Nat}
    (ho : o ≤ Text.size s) : (ofText (s ++ t)).placeOf o = (ofText s).placeOf o := by
  obtain ⟨front, hstarts, -, hown⟩ := starts_append s t
  rw [hown ht] at hstarts
  obtain ⟨start, hstart, hcolumn, -, hnext⟩ := (ofText_wellFormed s).isPlaceOf_placeOf ho
  have hsize : (ofText (s ++ t)).size = Text.size s + Text.size t := size_append s t
  apply (ofText_wellFormed _).placeOf_eq
  refine ⟨start, ?_, hcolumn, by omega, ?_⟩
  · have hlt : ((ofText s).placeOf o).line < (0 :: lineStartsFrom 0 s).length :=
      (List.getElem?_eq_some_iff.1 hstart).1
    rw [startOf?, hstarts, List.getElem?_append_left hlt]
    exact hstart
  · intro next hlook
    rw [startOf?, hstarts] at hlook
    -- the next line starts in the first part, or in the second one
    by_cases hlt : ((ofText s).placeOf o).line + 1 < (0 :: lineStartsFrom 0 s).length
    · rw [List.getElem?_append_left hlt] at hlook
      exact hnext next hlook
    · rw [List.getElem?_append_right (Nat.not_lt.1 hlt)] at hlook
      obtain ⟨n, hn, rfl⟩ := List.mem_map.1 (List.mem_of_getElem? hlook)
      have hpos := lt_of_mem_lineStartsFrom hn
      omega

/-- **The places of a part are places of the text**, counted from the place at which the part
starts. -/
theorem placeOf_part (before : Text) {body after : Text} (hafter : after.head? ≠ some '\n')
    {o : Nat} (ho : o ≤ Text.size body) :
    (ofText (before ++ (body ++ after))).placeOf (Text.size before + o) =
      ((ofText (before ++ (body ++ after))).placeOf (Text.size before)).behind
        ((ofText body).placeOf o) := by
  have hle : o ≤ Text.size (body ++ after) := by
    rw [size_append]
    omega
  rw [placeOf_append_right before hle, placeOf_append_left hafter ho]

/-- A part must not end between a carriage return and its line feed. -/
example : (ofText ['\r', '\n']).placeOf 1 = ⟨0, 1⟩ ∧ (ofText ['\r']).placeOf 1 = ⟨1, 0⟩ := by
  decide

end LineTable

end ComponentLint
