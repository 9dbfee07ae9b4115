import ComponentLint.Block.Restore
import ComponentLint.Proofs.Text.Bytes

/-!
# Edits

A fix replaces a range of a text.  Narrowing a fix leaves out what the replacement shares with the
replaced text at the front and at the back, so that the narrowed fix is the same edit.  It leaves
out as much as it can: what it still replaces and what it puts there neither begin nor end with the
same character.

## Main definitions

* `Fix.edit? f t` — the text `t` with `f` applied.
* `Fix.back f n` — `f` with its range counted from byte `n`.

## Main statements

* `sharedFront_spec`, `sharedFront_reverse_spec` — what is shared is the longest part with which
  both texts begin, or end.
* `narrow_spec` — **a narrowed fix changes the middle of what the fix changes.**
* `narrow_start_le_stop` — the range of a narrowed fix is in order.
* `narrow_same_edit_tight` — **a narrowed fix is the same edit, and cannot be narrowed further.**
-/

namespace ComponentLint

namespace Fix

/-- The text with a fix applied.  There is none if the text does not have the range. -/
def edit? (f : Fix) (t : Text) : Option Text :=
  if f.start ≤ f.stop then
    (Text.cut? t f.start).bind fun front =>
      (Text.cut? t f.stop).map fun back => front.1 ++ f.text ++ back.2
  else none

/-- A fix with its range counted from byte `n`. -/
def back (f : Fix) (n : Nat) : Fix := ⟨f.start - n, f.stop - n, f.text⟩

/-- A fix replaces the middle of a text. -/
theorem edit?_middle (front middle back text : Text) :
    (Fix.mk (Text.size front) (Text.size front + Text.size middle) text).edit?
        (front ++ middle ++ back) = some (front ++ text ++ back) := by
  have hstart : Text.cut? (front ++ middle ++ back) (Text.size front)
      = some (front, middle ++ back) := by
    rw [Text.cut?_eq_some_iff]
    exact ⟨List.append_assoc .., rfl⟩
  have hstop : Text.cut? (front ++ middle ++ back) (Text.size front + Text.size middle)
      = some (front ++ middle, back) := by
    rw [Text.cut?_eq_some_iff]
    exact ⟨rfl, Text.size_append ..⟩
  rw [edit?, if_pos (Nat.le_add_right ..), hstart, hstop]
  rfl

end Fix

/-! ### What two texts share at the front -/

/-- Without room nothing is shared. -/
theorem sharedFront_zero (s t : Text) : sharedFront 0 s t = (0, t) := by
  cases s with
  | nil => rfl
  | cons a s =>
    cases t with
    | nil => rfl
    | cons b t => rw [sharedFront, if_neg (by omega)]

/-- What is shared is an initial part of both texts, and does not reach further than the room.  No
character begins what is left of both. -/
theorem sharedFront_spec (y v t : Text) :
    ∃ c y', y = c ++ y' ∧ t = c ++ (sharedFront (Text.size y) (y ++ v) t).2 ∧
      (sharedFront (Text.size y) (y ++ v) t).1 = Text.size c ∧
      ∀ x, y'.head? = some x → (sharedFront (Text.size y) (y ++ v) t).2.head? ≠ some x := by
  induction y generalizing t with
  | nil =>
    rw [Text.size_nil, sharedFront_zero]
    exact ⟨[], [], rfl, rfl, rfl, by simp⟩
  | cons a y ih =>
    cases t with
    | nil => exact ⟨[], a :: y, rfl, rfl, rfl, fun x _ hx => Option.some_ne_none x hx.symm⟩
    | cons b t =>
      have hpos : 0 < Text.size (a :: y) := by
        have := a.utf8Size_pos
        rw [Text.size_cons]
        omega
      rw [List.cons_append, sharedFront]
      by_cases hab : a = b
      · subst hab
        rw [if_pos ⟨hpos, rfl⟩, Text.size_cons, Nat.add_sub_cancel_left]
        obtain ⟨c, y', hy, ht, hn, hleft⟩ := ih t
        refine ⟨a :: c, y', by rw [hy, List.cons_append], ?_, ?_, hleft⟩
        · rw [List.cons_append, ← ht]
        · rw [Text.size_cons, ← hn]
      · rw [if_neg fun h => hab h.2]
        refine ⟨[], a :: y, rfl, rfl, rfl, ?_⟩
        rintro x ⟨⟩ hb
        exact hab (Option.some.inj hb).symm

/-- What is shared at the back: the same, read from the back. -/
theorem sharedFront_reverse_spec (u y t : Text) :
    ∃ y' d, y = y' ++ d ∧
      t = (sharedFront (Text.size y) (u ++ y).reverse t.reverse).2.reverse ++ d ∧
      (sharedFront (Text.size y) (u ++ y).reverse t.reverse).1 = Text.size d ∧
      ∀ x, y'.getLast? = some x →
        (sharedFront (Text.size y) (u ++ y).reverse t.reverse).2.reverse.getLast? ≠ some x := by
  obtain ⟨d, y', hy, ht, hsize, hleft⟩ := sharedFront_spec y.reverse u.reverse t.reverse
  rw [Text.size_reverse, ← List.reverse_append] at ht hsize hleft
  refine ⟨y'.reverse, d.reverse, ?_, ?_, ?_, ?_⟩
  · rw [← List.reverse_append, ← hy, List.reverse_reverse]
  · rw [← List.reverse_append, ← ht, List.reverse_reverse]
  · rw [hsize, Text.size_reverse]
  · intro x hx
    rw [List.getLast?_reverse] at hx ⊢
    exact hleft x hx

/-! ### Narrowing -/

namespace Fix

/-- **A narrowed fix changes the middle of what the fix changes**: the replaced text and the
replacement begin and end with the same parts, which the narrowed fix leaves alone.  Of the two
middle parts no character begins both, and none ends both. -/
theorem narrow_spec (u y v : Text) (f : Fix) (hstart : f.start = Text.size u)
    (hstop : f.stop = Text.size u + Text.size y) :
    ∃ c e d w, y = c ++ e ++ d ∧ f.text = c ++ w ++ d ∧
      f.narrow (u ++ y ++ v)
        = ⟨Text.size u + Text.size c, Text.size u + Text.size c + Text.size e, w⟩ ∧
      (∀ x, e.head? = some x → w.head? ≠ some x) ∧
      ∀ x, e.getLast? = some x → w.getLast? ≠ some x := by
  have hahead : Text.cut? (u ++ y ++ v) f.start = some (u, y ++ v) := by
    rw [Text.cut?_eq_some_iff]
    exact ⟨List.append_assoc .., hstart.symm⟩
  have hbehind : Text.cut? (u ++ y ++ v) f.stop = some (u ++ y, v) := by
    rw [Text.cut?_eq_some_iff]
    exact ⟨rfl, by rw [Text.size_append, hstop]⟩
  have hroom : f.stop - f.start = Text.size y := by omega
  obtain ⟨c, y', hy, htext, hfront, hbegin⟩ := sharedFront_spec y v f.text
  generalize hshared : sharedFront (Text.size y) (y ++ v) f.text = front at htext hfront hbegin
  -- what is left of the replaced text and of the replacement is compared from the back
  obtain ⟨e, d, rfl, hrest, hback, hend⟩ := sharedFront_reverse_spec (u ++ c) y' front.2
  generalize hshared' : sharedFront (Text.size (e ++ d)) ((u ++ c) ++ (e ++ d)).reverse
    front.2.reverse = back at hrest hback hend
  have hsize : Text.size y = Text.size c + Text.size (e ++ d) := by rw [hy, Text.size_append]
  have hroom' : f.stop - (f.start + front.1) = Text.size (e ++ d) := by omega
  refine ⟨c, e, d, back.2.reverse, ?_, ?_, ?_, ?_, hend⟩
  · rw [hy, List.append_assoc]
  · rw [htext, List.append_assoc, ← hrest]
  · rw [narrow, hahead, hbehind, hroom]
    simp only [Option.elim_some]
    rw [hshared, hroom', hy, ← List.append_assoc, hshared', hfront, hback, hstart, hstop]
    rw [Text.size_append] at hsize
    have hmax : max (Text.size u + Text.size y - Text.size d) (Text.size u + Text.size c)
        = Text.size u + Text.size c + Text.size e := by omega
    rw [hmax]
  · -- the middle parts begin what was left behind the shared front
    intro x he hw
    apply hbegin x
    · rw [List.head?_append, he, Option.some_or]
    · rw [hrest, List.head?_append, hw, Option.some_or]

/-- The range of a narrowed fix is in order. -/
theorem narrow_start_le_stop (code : Text) (f : Fix) :
    (f.narrow code).start ≤ (f.narrow code).stop :=
  Nat.le_max_right ..

/-- If no character is both, and the second one is there, the two are not the same. -/
private theorem ne_of_forall_some {a b : Option Char} (hb : b ≠ none)
    (h : ∀ x, a = some x → b ≠ some x) : a ≠ b := by
  rintro rfl
  obtain ⟨x, hx⟩ := Option.ne_none_iff_exists'.1 hb
  exact h x hx hx

/-- **A narrowed fix is the same edit, and cannot be narrowed further.**  For every fix whose range
the text has, the narrowed fix has a range inside it, which the text has, too; applied to the text,
both give the same; and unless the narrowed fix only inserts or only deletes, the text it replaces
and the text it puts there differ in the first character and in the last one. -/
theorem narrow_same_edit_tight (code : Text) (f : Fix) (hle : f.start ≤ f.stop)
    (hstart : (Text.cut? code f.start).isSome) (hstop : (Text.cut? code f.stop).isSome) :
    let n := f.narrow code
    f.start ≤ n.start ∧ n.start ≤ n.stop ∧ n.stop ≤ f.stop ∧
    ∃ replaced edited, Text.slice? code n.start n.stop = some replaced ∧
      f.edit? code = some edited ∧ n.edit? code = some edited ∧
      (n.start < n.stop → n.text ≠ [] →
        replaced.head? ≠ n.text.head? ∧ replaced.getLast? ≠ n.text.getLast?) := by
  obtain ⟨u, y, v, rfl, hu, huy⟩ := Text.exists_range hle hstart hstop
  obtain ⟨c, e, d, w, rfl, htext, hnarrow, hbegin, hend⟩ := narrow_spec u y v f hu huy
  have hparts : u ++ (c ++ e ++ d) ++ v = (u ++ c) ++ e ++ (d ++ v) := by
    simp only [List.append_assoc]
  have hedited : u ++ f.text ++ v = (u ++ c) ++ w ++ (d ++ v) := by
    rw [htext]
    simp only [List.append_assoc]
  have hedit : f.edit? (u ++ (c ++ e ++ d) ++ v) = some (u ++ f.text ++ v) := by
    have h := edit?_middle u (c ++ e ++ d) v f.text
    rwa [← huy, ← hu] at h
  -- from here on the text is cut where the narrowed fix cuts it
  rw [hparts, hedited] at hedit
  rw [hparts] at hnarrow ⊢
  rw [Text.size_append, Text.size_append] at huy
  rw [hnarrow, ← Text.size_append]
  refine ⟨?_, ?_, ?_, e, _, ?_, hedit, edit?_middle .., ?_⟩
  · show f.start ≤ Text.size (u ++ c)
    rw [hu, Text.size_append]
    exact Nat.le_add_right ..
  · exact Nat.le_add_right ..
  · show Text.size (u ++ c) + Text.size e ≤ f.stop
    rw [Text.size_append]
    omega
  · exact Text.slice?_eq_some_iff.2 ⟨u ++ c, d ++ v, rfl, rfl, rfl⟩
  · intro _ hw
    refine ⟨ne_of_forall_some ?_ hbegin, ne_of_forall_some ?_ hend⟩
    · exact fun h => hw (List.head?_eq_none_iff.1 h)
    · exact fun h => hw (List.getLast?_eq_none_iff.1 h)

/-- Two characters take the place of one, between a shared character of two bytes and another
one. -/
theorem narrow_same_edit_tight_accented :
    let code : Text := ['a', 'ä', 'b', 'c', 'a']
    let f : Fix := ⟨1, 5, ['ä', 'X', 'Y', 'c']⟩
    let n : Fix := ⟨3, 4, ['X', 'Y']⟩
    f.narrow code = n ∧ f.start ≤ f.stop ∧ (Text.cut? code f.start).isSome ∧
      (Text.cut? code f.stop).isSome ∧
      ∃ replaced edited, Text.slice? code n.start n.stop = some replaced ∧
        f.edit? code = some edited ∧ n.edit? code = some edited ∧
        replaced.head? ≠ n.text.head? ∧ replaced.getLast? ≠ n.text.getLast? := by
  obtain ⟨-, -, -, replaced, edited, hslice, hedit, hedit', htight⟩ :=
    narrow_same_edit_tight ['a', 'ä', 'b', 'c', 'a'] ⟨1, 5, ['ä', 'X', 'Y', 'c']⟩ (by decide)
      (by decide) (by decide)
  exact ⟨by decide, by decide, by decide, by decide, replaced, edited, hslice, hedit, hedit',
    htight (by decide) (by decide)⟩

/-- Of repeated characters, what is shared at the front is not shared again at the back. -/
example : Fix.narrow ['a', 'a', 'a'] ⟨0, 3, ['a', 'a']⟩ = ⟨2, 3, []⟩ ∧
    Fix.narrow ['a', 'a', 'a'] ⟨0, 2, ['a', 'a', 'a']⟩ = ⟨2, 2, ['a']⟩ := by decide

end Fix

end ComponentLint
