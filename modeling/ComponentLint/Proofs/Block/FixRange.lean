import ComponentLint.Proofs.Block.Edits

/-!
# Where a moved fix ends up

A linter may propose a fix anywhere in the block: in scaffolding, in another fragment, or across
the end of a fragment.  The moved fix never starts before the fragment of its message and never
stops behind it.  The two ends are kept inside one by one, though, so that a fix that does not
meet the text of the fragment comes out with its ends in the wrong order.

Moving keeps offsets in order, and an offset inside the text is moved into the fragment.  An offset
behind the text is moved behind the fragment.  One before it is moved before the fragment, as long
as the lines of the table are those of the line feeds.

## Main definitions

* `Placement.KeepsInside p code text n g` — how the ends of the moved fix `g` lie.

## Main statements

* `Site.movedOffset_mono` — moving keeps offsets in order.
* `Site.movedOffset_le_stop_iff`, `Site.start_le_movedOffset_iff` — which offsets are moved behind
  the fragment and before it.
* `restore_fix_inside` — **a moved fix stays inside its fragment, in order exactly if it meets it.**
* `restore_fix_out_of_order` — a fix before the fragment comes out in the wrong order.
-/

namespace ComponentLint

/-! ### Keeping an edit inside -/

namespace Placement

/-- A fix never starts before the fragment. -/
theorem start_le_clampFix (p : Placement) (start stop : Int) (text : Text)
    (hwords : p.range.start < 2 ^ 32) : p.range.start ≤ (p.clampFix start stop text).start := by
  show p.range.start ≤ min (max start p.range.start).toNat 0xffffffff
  omega

/-- A fix never stops behind the fragment. -/
theorem clampFix_stop_le (p : Placement) (start stop : Int) (text : Text) :
    (p.clampFix start stop text).stop ≤ p.range.stop := by
  show min (min stop p.range.stop).toNat 0xffffffff ≤ p.range.stop
  omega

/-- **When ends in order stay in order**: if the fix does not start behind the fragment, and does
not stop before it.  At the start of the document nothing is before the fragment, since an end
before the document is taken for its start; at the last number of 32 bits nothing is behind. -/
theorem clampFix_in_order_iff (p : Placement) {start stop : Int} (text : Text)
    (hrange : p.range.start ≤ p.range.stop) (hwords : p.range.stop < 2 ^ 32) (hle : start ≤ stop) :
    (p.clampFix start stop text).start ≤ (p.clampFix start stop text).stop ↔
      (start ≤ p.range.stop ∨ p.range.stop + 1 = 2 ^ 32) ∧
        (p.range.start ≤ stop ∨ p.range.start = 0) := by
  show min (max start p.range.start).toNat 0xffffffff
    ≤ min (min stop p.range.stop).toNat 0xffffffff ↔ _
  omega

end Placement

/-! ### Moved offsets and the fragment -/

namespace Site

variable {p : Placement} {ins : Insertion} {code : Text}

/-- The table of removals has no more lines than the text. -/
theorem length_perLine_le (site : Site p ins code) :
    p.removal.perLine.length ≤ ins.text.count '\n' + 1 := by
  rw [site.removal_eq]
  exact length_perLine_outdent ins.fragment

/-- The fragment is as large as its text and all that was removed. -/
theorem stop_eq_add (site : Site p ins code) :
    p.range.stop = p.range.start + (Text.size ins.text + p.removal.perLine.sum) := by
  rw [site.stop_eq, site.start_eq, site.fragment_eq, site.size_withMargins,
    List.take_of_length_le site.length_perLine_le]

/-- Moving keeps offsets in order. -/
theorem movedOffset_mono (site : Site p ins code) {a b : Nat} (h : a ≤ b) :
    p.movedOffset code a ≤ p.movedOffset code b := by
  have hline := (LineTable.ofText code).placeOf_line_mono h
  have hsum := sum_take_mono p.removal.perLine
    (Nat.sub_le_sub_right hline (site.above.count '\n'))
  rw [site.movedOffset_eq, site.movedOffset_eq]
  omega

/-- An offset that is not behind the text is not moved behind the fragment. -/
theorem movedOffset_le_stop (site : Site p ins code) {offset : Nat}
    (h : offset ≤ p.blockLead.length + Text.size ins.text) :
    p.movedOffset code offset ≤ p.range.stop := by
  have hsum := sum_take_le p.removal.perLine
    (((LineTable.ofText code).placeOf offset).line - site.above.count '\n')
  rw [site.movedOffset_eq, site.stop_eq_add]
  omega

/-- An offset behind the text is moved behind the fragment. -/
theorem stop_lt_movedOffset (site : Site p ins code) {offset : Nat}
    (h : p.blockLead.length + Text.size ins.text < offset) :
    p.range.stop < p.movedOffset code offset := by
  -- the line of the offset is not above the last one of the text, so all is put back
  have hlast := (LineTable.ofText code).placeOf_line_mono (Nat.le_of_lt h)
  have hcount := Text.count_le_breaks (site.above ++ '\n' :: ins.text)
    ('\n' :: site.below).head?
  rw [← site.size_code_cut,
    LineTable.placeOf_line_size (site.code_cut (List.append_nil _).symm), List.nil_append]
    at hlast
  rw [List.count_append, List.count_cons_self] at hcount
  have hlength := site.length_perLine_le
  rw [site.movedOffset_eq, site.stop_eq_add, List.take_of_length_le (by omega)]
  omega

/-- Exactly the offsets behind the text are moved behind the fragment. -/
theorem movedOffset_le_stop_iff (site : Site p ins code) (offset : Nat) :
    p.movedOffset code offset ≤ p.range.stop ↔
      offset ≤ p.blockLead.length + Text.size ins.text := by
  constructor
  · intro h
    by_contra hlt
    have := site.stop_lt_movedOffset (Nat.lt_of_not_le hlt)
    omega
  · exact site.movedOffset_le_stop

/-- An offset that is not before the text is not moved before the fragment. -/
theorem start_le_movedOffset (site : Site p ins code) {offset : Nat}
    (h : p.blockLead.length ≤ offset) : p.range.start ≤ p.movedOffset code offset := by
  rw [site.movedOffset_eq]
  omega

/-- With paired carriage returns, an offset before the text is moved before the fragment. -/
theorem movedOffset_lt_start (site : Site p ins code) (hpaired : Text.ReturnsPaired code)
    {offset : Nat} (h : offset < p.blockLead.length) :
    p.movedOffset code offset < p.range.start := by
  -- the line of the offset is not below the last one above, so nothing is put back
  have hsize : p.blockLead.length = Text.size site.above + 1 := by
    rw [← site.size_above, Text.size_append]
    rfl
  have hline := (LineTable.ofText code).placeOf_line_mono (Nat.le_of_lt_succ (hsize ▸ h))
  rw [LineTable.placeOf_line_eq_count site.code_eq hpaired] at hline
  rw [site.movedOffset_eq, Nat.sub_eq_zero_of_le hline, List.take_zero, List.sum_nil]
  omega

/-- With paired carriage returns, exactly the offsets before the text are moved before the
fragment. -/
theorem start_le_movedOffset_iff (site : Site p ins code) (hpaired : Text.ReturnsPaired code)
    (offset : Nat) : p.range.start ≤ p.movedOffset code offset ↔ p.blockLead.length ≤ offset := by
  constructor
  · intro h
    by_contra hlt
    have := site.movedOffset_lt_start hpaired (Nat.lt_of_not_le hlt)
    omega
  · exact site.start_le_movedOffset

end Site

/-! ### Fixes -/

/-- How the ends of the moved fix `g` lie, when the narrowed fix on the block is `n`. -/
structure Placement.KeepsInside (p : Placement) (code text : Text) (n g : Fix) : Prop where
  /-- It does not start before the fragment. -/
  start_le : p.range.start ≤ g.start
  /-- It does not stop behind the fragment. -/
  le_stop : g.stop ≤ p.range.stop
  /-- Its ends are in order exactly if the fix on the block does not start behind the text, and is
  not moved to stop before the fragment. -/
  in_order_iff : g.start ≤ g.stop ↔
    (n.start ≤ p.blockLead.length + Text.size text ∨ p.range.stop + 1 = 2 ^ 32) ∧
      (p.range.start ≤ p.movedOffset code n.stop ∨ p.range.start = 0)
  /-- A fix that does not stop before the text is not moved to stop before the fragment. -/
  not_before : p.blockLead.length ≤ n.stop → p.range.start ≤ p.movedOffset code n.stop
  /-- With paired carriage returns, only such a fix is not. -/
  not_before_iff : Text.ReturnsPaired code →
    (p.range.start ≤ p.movedOffset code n.stop ↔ p.blockLead.length ≤ n.stop)

/-- **A moved fix stays inside its fragment, in order exactly if it meets it.**  For every block
made of pieces of a document and every fix, wherever it lies in the block, on a line that has a
placement, the moved fix does not start before the fragment and does not stop behind it.  Its ends
are in order exactly if the narrowed fix does not start behind the text of the fragment and is not
moved to stop before the fragment, which is to stop before its text unless the block has a carriage
return without line feed.  Offsets of the document are numbers of 32 bits. -/
theorem restore_fix_inside (document : Text) (pieces : List Piece) (p : Placement) (m : Message)
    (f : Fix) (hp : (Block.assemble document pieces).placementAt? m.line = some p)
    (hfix : m.fix = some f) (hwords : p.range.stop < 2 ^ 32) :
    ∃ g fragment, (p.restore (Block.assemble document pieces) m).fix = some g ∧
      p.range.slice? document = some fragment ∧
      p.KeepsInside (Block.assemble document pieces).code (outdent fragment).text
        (f.narrow (Block.assemble document pieces).code) g := by
  obtain ⟨hmem, -⟩ := (Block.assemble_registered _ _).placementAt?_eq_some_iff.1 hp
  obtain ⟨ins, rfl, ⟨site⟩⟩ := Block.exists_site_of_mem_assemble hmem
  have hrange := site.start_le_stop
  refine ⟨p.restoreFix (Block.assemble ins.document pieces).code f, ins.fragment, ?_, ?_, ?_⟩
  · show m.fix.map _ = _
    rw [hfix]
    rfl
  · rw [site.range_eq]
    exact ins.slice_eq
  · rw [p.restoreFix_eq]
    have hle := site.movedOffset_mono
      (f.narrow_start_le_stop (Block.assemble ins.document pieces).code)
    refine ⟨p.start_le_clampFix _ _ _ (by omega), p.clampFix_stop_le .., ?_,
      site.start_le_movedOffset, fun hpaired => site.start_le_movedOffset_iff hpaired _⟩
    rw [p.clampFix_in_order_iff _ hrange hwords hle, site.movedOffset_le_stop_iff]
    rfl

/-- A fix that begins in the scaffolding and reaches into the fragment. -/
theorem restore_fix_inside_overlap :
    ∃ p, (Block.assemble ['a', 'b', 'c', 'x'] [.scaffold ['a', 'b', 'c'],
        .fragment ⟨3, 4⟩ {}]).placementAt? 2 = some p ∧
      ∃ g fragment,
        (p.restore (Block.assemble ['a', 'b', 'c', 'x'] [.scaffold ['a', 'b', 'c'],
            .fragment ⟨3, 4⟩ {}])
          { severity := .error, text := "", line := 2, fix := some ⟨2, 5, ['Z']⟩ }).fix = some g ∧
        p.range.slice? ['a', 'b', 'c', 'x'] = some fragment ∧
        p.KeepsInside ['a', 'b', 'c', '\n', 'x', '\n'] (outdent fragment).text
          (Fix.narrow ['a', 'b', 'c', '\n', 'x', '\n'] ⟨2, 5, ['Z']⟩) g :=
  ⟨_, rfl, restore_fix_inside _ _ _ _ _ rfl rfl (by decide)⟩

/-- A fix in the scaffolding before the fragment comes out in the wrong order. -/
theorem restore_fix_out_of_order :
    ∃ p g, (Block.assemble ['a', 'b', 'c', 'x'] [.scaffold ['a', 'b', 'c'],
        .fragment ⟨3, 4⟩ {}]).placementAt? 2 = some p ∧
      (p.restore (Block.assemble ['a', 'b', 'c', 'x'] [.scaffold ['a', 'b', 'c'],
          .fragment ⟨3, 4⟩ {}])
        { severity := .error, text := "", line := 2, fix := some ⟨0, 0, ['Z']⟩ }).fix = some g ∧
      ¬ (p.range.start ≤ g.start ∧ g.start ≤ g.stop ∧ g.stop ≤ p.range.stop) :=
  ⟨_, ⟨3, 0, []⟩, rfl, rfl, by decide⟩

end ComponentLint
