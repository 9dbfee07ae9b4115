import ComponentLint.Proofs.Block.Positions
import ComponentLint.Proofs.Fix
import ComponentLint.Proofs.LineTable

/-!
# Edits moved back to the document

A fix inside the text of a fragment is the same edit of the document.  The text is cut into what
stands before the narrowed fix, what it replaces and what stands behind it.  The fragment is cut in
the same way, each part with its margins, and the moved fix replaces the middle one.  So the edited
fragment is the edited text with margins: those of the lines that stay, and the whole margin for
the lines that the replacement begins.

Lines are looked up in a table, while margins are counted by line feeds.  The two agree if every
carriage return of the block is followed by a line feed.

## Main definitions

* `Placement.movedOffset p code offset` — an offset of the block, moved to the document.
* `Placement.taken p i` — the text that was taken from line `i` of the fragment.
* `Placement.rowMargin p text n i` — what line `i` of the edited fragment begins with.
* `Placement.SameEdit` — two fixes do the same to the block and to the document.

## Main statements

* `withMargins_rowMargin` — margins of an edited text, part by part.
* `Site.movedOffset_front` — the moved offset is the size of what stands before it.
* `restore_fix_same_edit` — **a moved fix is the same edit of the document.**
-/

namespace ComponentLint

/-- Indenting a replacement puts the margin before each line that it begins. -/
theorem indentLines_eq_marginsFrom (margin : Text) (row : Nat) (t : Text) :
    indentLines margin t = marginsFrom '\n' (fun _ => margin) row t := by
  induction t generalizing row with
  | nil => rfl
  | cons c t ih =>
    rw [indentLines, List.flatMap_cons, ← indentLines]
    by_cases h : c = '\n'
    · subst h
      rw [if_pos rfl, ih (row + 1), marginsFrom_cons_self, List.cons_append]
    · rw [if_neg h, ih row, marginsFrom_cons_of_ne h, List.singleton_append]

/-- A text that is cut inside its middle part cuts that part. -/
theorem Text.exists_parts_of_cut? {a b c : Text} {n : Nat}
    (hcut : (Text.cut? (a ++ b ++ c) n).isSome) (hlow : Text.size a ≤ n)
    (hhigh : n ≤ Text.size a + Text.size b) :
    ∃ x y, b = x ++ y ∧ n = Text.size a + Text.size x := by
  obtain ⟨⟨u, r⟩, hur⟩ := Option.isSome_iff_exists.1 hcut
  obtain ⟨heq, rfl⟩ := Text.cut?_eq_some_iff.1 hur
  rw [List.append_assoc] at heq
  obtain ⟨x, rfl, hx⟩ := Text.exists_append_of_size_le heq hlow
  rw [Text.size_append] at hhigh
  obtain ⟨y, hy, -⟩ := Text.exists_append_of_size_le hx.symm (by omega)
  exact ⟨x, y, hy, Text.size_append ..⟩

namespace Placement

/-! ### Margins of an edited fragment -/

/-- The text that was taken from a line of the fragment, lines counted from zero. -/
def taken (p : Placement) (i : Nat) : Text := p.removal.taken p.margin i

theorem taken_cases (p : Placement) (i : Nat) : p.taken i = [] ∨ p.taken i = p.margin := by
  rw [taken, Removal.taken, takenOf]
  split
  · exact Or.inl rfl
  · exact Or.inr rfl

/-- What line `i` of a fragment begins with once the fix `n` has changed the fragment's text.  A
line that a line feed of the replacement begins gets the margin; every other line keeps what was
taken from it. -/
def rowMargin (p : Placement) (text : Text) (n : Fix) (i : Nat) : Text :=
  let first := (text.feedPlace n.start).line
  let last := (text.feedPlace n.stop).line
  let added := n.text.count '\n'
  if i ≤ first then p.taken i
  else if i ≤ first + added then p.margin
  else p.taken (i - (first + added) + last)

/-- A line begins with the margin or with nothing. -/
theorem rowMargin_cases (p : Placement) (text : Text) (n : Fix) (i : Nat) :
    p.rowMargin text n i = [] ∨ p.rowMargin text n i = p.margin := by
  unfold rowMargin
  dsimp only
  split
  · exact p.taken_cases i
  · split
    · exact Or.inr rfl
    · exact p.taken_cases _

/-- The margins of an edited text, part by part: what stays before the edit and behind it keeps
its margins, and the replacement is indented. -/
theorem withMargins_rowMargin (p : Placement) (front middle back w : Text) :
    withMargins '\n' (p.rowMargin (front ++ middle ++ back)
        ⟨Text.size front, Text.size front + Text.size middle, w⟩) (front ++ w ++ back)
      = withMargins '\n' p.taken front ++ indentLines p.margin w
        ++ marginsFrom '\n' p.taken ((front ++ middle).count '\n') back := by
  have hfirst : ((front ++ middle ++ back).feedPlace (Text.size front)).line
      = front.count '\n' := by
    rw [List.append_assoc, Text.feedPlace_size]
  have hlast : ((front ++ middle ++ back).feedPlace (Text.size front + Text.size middle)).line
      = (front ++ middle).count '\n' := by
    rw [← Text.size_append, Text.feedPlace_size]
  generalize hm : p.rowMargin (front ++ middle ++ back)
    ⟨Text.size front, Text.size front + Text.size middle, w⟩ = m
  have hrow : ∀ i, m i = if i ≤ front.count '\n' then p.taken i
      else if i ≤ front.count '\n' + w.count '\n' then p.margin
      else p.taken (i - (front.count '\n' + w.count '\n') + (front ++ middle).count '\n') := by
    intro i
    rw [← hm, rowMargin, hfirst, hlast]
  have hzero : m 0 = p.taken 0 := by rw [hrow, if_pos (Nat.zero_le _)]
  have hfront : marginsFrom '\n' m 0 front = marginsFrom '\n' p.taken 0 front := by
    refine marginsFrom_congr fun i hi => ?_
    rw [hrow, if_pos (by omega)]
  have hw : marginsFrom '\n' m (front.count '\n') w = indentLines p.margin w := by
    rw [indentLines_eq_marginsFrom p.margin (front.count '\n')]
    refine marginsFrom_congr fun i hi => ?_
    rw [hrow, if_neg (by omega), if_pos (by omega)]
  have hback : marginsFrom '\n' m (front.count '\n' + w.count '\n') back
      = marginsFrom '\n' p.taken ((front ++ middle).count '\n') back := by
    refine marginsFrom_congr fun i _ => ?_
    rw [hrow, if_neg (by omega), if_neg (by omega)]
    congr 1
    omega
  rw [withMargins, marginsFrom_append, marginsFrom_append, List.count_append, Nat.zero_add,
    Nat.zero_add, hzero, hfront, hw, hback, withMargins]
  simp only [List.append_assoc]

/-! ### Moved offsets -/

/-- An offset of the block, moved to the document. -/
def movedOffset (p : Placement) (code : Text) (offset : Nat) : Int :=
  p.restoreOffset ((LineTable.ofText code).placeOf offset).line offset

/-- A fix is narrowed, moved and kept inside the fragment. -/
theorem restoreFix_eq (p : Placement) (code : Text) (f : Fix) :
    p.restoreFix code f
      = p.clampFix (p.movedOffset code (f.narrow code).start)
          (p.movedOffset code (f.narrow code).stop) (indentLines p.margin (f.narrow code).text) :=
  rfl

/-- An edit inside the fragment is kept as it is. -/
theorem clampFix_of_inside (p : Placement) {start stop : Nat} (text : Text)
    (hlow : p.range.start ≤ start) (hle : start ≤ stop) (hhigh : stop ≤ p.range.stop)
    (hwords : p.range.stop < 2 ^ 32) :
    p.clampFix start stop text = ⟨start, stop, text⟩ := by
  rw [clampFix, if_neg (by omega), if_neg (by omega), Int.max_eq_left (by omega),
    Int.min_eq_left (by omega), clampToWord_of_lt (by omega), clampToWord_of_lt (by omega)]

end Placement

namespace Site

variable {p : Placement} {ins : Insertion} {code : Text}

theorem taken_eq (site : Site p ins code) :
    p.taken = (outdent ins.fragment).removal.taken (outdent ins.fragment).margin := by
  rw [← site.removal_eq, ← site.margin_eq]
  rfl

/-- The fragment is its text with what was taken from the lines. -/
theorem fragment_eq (site : Site p ins code) :
    ins.fragment = withMargins '\n' p.taken ins.text := by
  rw [site.taken_eq]
  exact (withMargins_outdent ins.fragment).symm

/-- No line begins with a line feed that it did not have. -/
theorem feed_notMem_rowMargin (site : Site p ins code) (text : Text) (n : Fix) (i : Nat) :
    '\n' ∉ p.rowMargin text n i := by
  rcases p.rowMargin_cases text n i with h | h
  · rw [h]
    exact List.not_mem_nil
  · rw [h, site.margin_eq]
    exact Text.feed_notMem_margin _

/-- The size of a first part of the text, with margins. -/
theorem size_withMargins (site : Site p ins code) (front : Text) :
    Text.size (withMargins '\n' p.taken front)
      = Text.size front + (p.removal.perLine.take (front.count '\n' + 1)).sum := by
  have hlen := length_withMargins feed site.length_margins (Text.bytes front)
  rw [Text.length_bytes, Text.count_feed_bytes] at hlen
  rw [site.taken_eq, ← Text.length_bytes, bytes_withMargins]
  exact hlen

/-! ### Offsets of a site -/

/-- A moved offset: what was removed from the lines up to its own is put back. -/
theorem movedOffset_eq (site : Site p ins code) (offset : Nat) :
    p.movedOffset code offset
      = offset - p.blockLead.length
        + (p.removal.perLine.take
            (((LineTable.ofText code).placeOf offset).line - site.above.count '\n')).sum
        + p.range.start := by
  have hlines : p.blockLead.lines = site.above.count '\n' + 2 := site.firstLine_eq
  have hlength : p.documentLead.length = p.range.start := by
    rw [site.documentLead_eq, site.start_eq]
    rfl
  have hremoval : p.removal = Removal.ofLines p.removal.perLine := by
    rw [site.removal_eq]
    rfl
  have hindex : ∀ line : Nat, ((line : Int) - ((site.above.count '\n' + 2 : Nat) - 2)).toNat
      = line - site.above.count '\n' := by
    intro line
    omega
  rw [Placement.movedOffset, Placement.restoreOffset, hlength, hlines]
  conv_lhs => rw [hremoval]
  rw [Removal.beforeLine_ofLines, hindex]

/-- The moved offset of a cut is the size of the document before it. -/
theorem movedOffset_front (site : Site p ins code) (hpaired : Text.ReturnsPaired code)
    {front back : Text} (htext : ins.text = front ++ back) :
    p.movedOffset code (p.blockLead.length + Text.size front)
      = (p.range.start + Text.size (withMargins '\n' p.taken front) : Nat) := by
  -- up to the cut, the table and the line feeds count the same lines
  have hline : ((LineTable.ofText code).placeOf (p.blockLead.length + Text.size front)).line
      = site.above.count '\n' + (front.count '\n' + 1) := by
    rw [← site.size_code_cut, LineTable.placeOf_line_eq_count (site.code_cut htext) hpaired,
      List.count_append, List.count_cons_self]
  rw [site.movedOffset_eq, hline, Nat.add_sub_cancel_left, site.size_withMargins]
  omega

end Site

/-! ### Fixes -/

/-- Fix `f` on the block and fix `g` on the document do the same to a fragment: the one makes
`edited` of the fragment's text, the other makes `restored` of the fragment. -/
structure Placement.SameEdit (p : Placement) (code document fragment : Text) (f g : Fix)
    (edited restored : Text) : Prop where
  /-- The text of the fragment stands in the block where the placement says. -/
  placed : Text.slice? code p.blockLead.length
      (p.blockLead.length + Text.size (outdent fragment).text) = some (outdent fragment).text
  /-- What the fix on the block makes of the text. -/
  edit : (f.back p.blockLead.length).edit? (outdent fragment).text = some edited
  /-- What the fix on the document makes of the fragment. -/
  restore : (g.back p.range.start).edit? fragment = some restored
  /-- The document has the range of its fix, and nothing outside the fragment changes. -/
  outside : ∃ lead rest, document = lead ++ fragment ++ rest ∧ Text.size lead = p.range.start ∧
    g.edit? document = some (lead ++ restored ++ rest)
  /-- The fix on the document lies in the range of the fragment. -/
  inside : p.range.start ≤ g.start ∧ g.start ≤ g.stop ∧ g.stop ≤ p.range.stop
  /-- Both results have the same number of lines. -/
  count : restored.count '\n' = edited.count '\n'
  /-- Each line of the one is a line of the other with its margin. -/
  rows : restored.splitOn '\n' = (edited.splitOn '\n').mapIdx fun i row =>
    p.rowMargin (outdent fragment).text ((f.narrow code).back p.blockLead.length) i ++ row
  /-- A line begins with the margin or with nothing. -/
  margins : ∀ i, p.rowMargin (outdent fragment).text
      ((f.narrow code).back p.blockLead.length) i = [] ∨
    p.rowMargin (outdent fragment).text ((f.narrow code).back p.blockLead.length) i = p.margin

namespace Site

variable {p : Placement} {ins : Insertion} {code : Text}

/-- The fragment, cut where its text is cut. -/
theorem fragment_eq_append (site : Site p ins code) {front middle back : Text}
    (htext : ins.text = front ++ middle ++ back) :
    ins.fragment = withMargins '\n' p.taken front
      ++ marginsFrom '\n' p.taken (front.count '\n') middle
      ++ marginsFrom '\n' p.taken ((front ++ middle).count '\n') back := by
  rw [site.fragment_eq, htext, withMargins, marginsFrom_append, marginsFrom_append, Nat.zero_add,
    Nat.zero_add, withMargins]
  simp only [List.append_assoc]

/-- A fix that changes the middle of the text is moved to change the middle of the fragment. -/
theorem restoreFix_middle (site : Site p ins code) (hpaired : Text.ReturnsPaired code)
    (hwords : p.range.stop < 2 ^ 32) {front middle back w : Text}
    (htext : ins.text = front ++ middle ++ back) {f : Fix}
    (hnarrow : f.narrow code = ⟨p.blockLead.length + Text.size front,
      p.blockLead.length + Text.size front + Text.size middle, w⟩) :
    p.restoreFix code f
      = ⟨p.range.start + Text.size (withMargins '\n' p.taken front),
          p.range.start + Text.size (withMargins '\n' p.taken front)
            + Text.size (marginsFrom '\n' p.taken (front.count '\n') middle),
          indentLines p.margin w⟩ := by
  have hstart := site.movedOffset_front hpaired (htext.trans (List.append_assoc ..))
  have hstop := site.movedOffset_front hpaired htext
  rw [Text.size_append, withMargins, marginsFrom_append, Nat.zero_add, ← List.append_assoc,
    ← withMargins, Text.size_append, ← Nat.add_assoc, ← Nat.add_assoc] at hstop
  have hhigh := site.stop_eq
  rw [site.fragment_eq_append htext, Text.size_append, Text.size_append, ← site.start_eq] at hhigh
  rw [p.restoreFix_eq, hnarrow, hstart, hstop]
  exact p.clampFix_of_inside _ (by omega) (by omega) (by omega) hwords

/-- A fix that changes the middle of the text is the same edit of the document. -/
theorem sameEdit (site : Site p ins code) (hpaired : Text.ReturnsPaired code)
    (hwords : p.range.stop < 2 ^ 32) {f : Fix} {x m y : Text} (htext : ins.text = x ++ m ++ y)
    (hstart : f.start = p.blockLead.length + Text.size x)
    (hstop : f.stop = p.blockLead.length + Text.size x + Text.size m) :
    ∃ edited restored, p.SameEdit code ins.document ins.fragment f (p.restoreFix code f) edited
      restored := by
  -- the fix replaces `m`; the narrowed one replaces `e`, the middle of `m`, by `w`
  have hcode : code = (site.above ++ ['\n'] ++ x) ++ m ++ (y ++ '\n' :: site.below) := by
    conv_lhs => rw [site.code_eq_append, htext]
    simp only [List.append_assoc]
  obtain ⟨c, e, d, w, hm, hw, hnarrow, -, -⟩ := Fix.narrow_spec (site.above ++ ['\n'] ++ x) m
    (y ++ '\n' :: site.below) f (by rw [hstart, Text.size_append, site.size_above])
    (by rw [hstop, Text.size_append, site.size_above])
  rw [← hcode, Text.size_append, site.size_above, Nat.add_assoc _ (Text.size x),
    ← Text.size_append x c] at hnarrow
  have hparts : ins.text = (x ++ c) ++ e ++ (d ++ y) := by
    rw [htext, hm]
    simp only [List.append_assoc]
  have hedited : x ++ f.text ++ y = (x ++ c) ++ w ++ (d ++ y) := by
    rw [hw]
    simp only [List.append_assoc]
  have hmoved := site.restoreFix_middle hpaired hwords hparts hnarrow
  have hfragment := site.fragment_eq_append hparts
  have hstop_eq := site.stop_eq
  rw [hfragment, Text.size_append, Text.size_append, ← site.start_eq] at hstop_eq
  have hback : (f.narrow code).back p.blockLead.length
      = ⟨Text.size (x ++ c), Text.size (x ++ c) + Text.size e, w⟩ := by
    rw [hnarrow, Fix.back, Nat.add_assoc, Nat.add_sub_cancel_left, Nat.add_sub_cancel_left]
  have hrows := p.withMargins_rowMargin (x ++ c) e (d ++ y) w
  rw [← hparts, ← hback, ← hedited] at hrows
  -- from here on only the parts of the fragment matter, not how they are made
  generalize withMargins '\n' p.taken (x ++ c) = ahead at hmoved hfragment hstop_eq hrows
  generalize marginsFrom '\n' p.taken ((x ++ c).count '\n') e = replaced
    at hmoved hfragment hstop_eq
  generalize marginsFrom '\n' p.taken ((x ++ c ++ e).count '\n') (d ++ y) = behind
    at hfragment hstop_eq hrows
  have hfeed := site.feed_notMem_rowMargin ins.text ((f.narrow code).back p.blockLead.length)
  refine ⟨x ++ f.text ++ y, ahead ++ indentLines p.margin w ++ behind, ?placed, ?edit, ?restore,
    ?outside, ?inside, ?count, ?rows, p.rowMargin_cases _ _⟩
  case placed =>
    rw [Text.slice?_eq_some_iff]
    exact ⟨_, _, site.code_eq_append, site.size_above, rfl⟩
  case edit =>
    have hf : f.back p.blockLead.length = ⟨Text.size x, Text.size x + Text.size m, f.text⟩ := by
      rw [Fix.back, hstart, hstop, Nat.add_assoc, Nat.add_sub_cancel_left, Nat.add_sub_cancel_left]
    show (f.back p.blockLead.length).edit? ins.text = _
    rw [hf, htext, Fix.edit?_middle]
  case restore =>
    have hg : (p.restoreFix code f).back p.range.start
        = ⟨Text.size ahead, Text.size ahead + Text.size replaced, indentLines p.margin w⟩ := by
      rw [hmoved, Fix.back, Nat.add_assoc, Nat.add_sub_cancel_left, Nat.add_sub_cancel_left]
    rw [hg, hfragment, Fix.edit?_middle]
  case outside =>
    refine ⟨site.lead, site.rest, site.document_eq, site.start_eq.symm, ?_⟩
    have hdocument : ins.document = (site.lead ++ ahead) ++ replaced ++ (behind ++ site.rest) := by
      rw [site.document_eq, hfragment]
      simp only [List.append_assoc]
    rw [hmoved, site.start_eq, ← Text.size_append, hdocument, Fix.edit?_middle]
    simp only [List.append_assoc]
  case inside =>
    have hhigh : p.range.start + Text.size ahead + Text.size replaced ≤ p.range.stop := by omega
    rw [hmoved]
    exact ⟨Nat.le_add_right .., Nat.le_add_right .., hhigh⟩
  case count => rw [← hrows, count_withMargins hfeed]
  case rows =>
    rw [← hrows, splitOn_withMargins hfeed]
    rfl

end Site

/-- **A moved fix is the same edit of the document.**  For every block made of pieces of a document
in which every carriage return is followed by a line feed, every fragment in it and every fix whose
range lies in the fragment's text, between characters, the moved fix makes of the fragment what the
fix makes of its text.  What is equal up to margins are the lines: a line that the narrowed
replacement begins gets the whole margin, and every other line keeps what was taken from it.
Offsets of the document are numbers of 32 bits. -/
theorem restore_fix_same_edit (document fragment : Text) (pieces : List Piece) (p : Placement)
    (m : Message) (f : Fix) (hp : p ∈ (Block.assemble document pieces).placements)
    (hpaired : Text.ReturnsPaired (Block.assemble document pieces).code)
    (hwords : p.range.stop < 2 ^ 32) (hslice : p.range.slice? document = some fragment)
    (hfix : m.fix = some f) (hlow : p.blockLead.length ≤ f.start) (hle : f.start ≤ f.stop)
    (hhigh : f.stop ≤ p.blockLead.length + Text.size (outdent fragment).text)
    (hstart : (Text.cut? (Block.assemble document pieces).code f.start).isSome)
    (hstop : (Text.cut? (Block.assemble document pieces).code f.stop).isSome) :
    ∃ g edited restored, (p.restore (Block.assemble document pieces) m).fix = some g ∧
      p.SameEdit (Block.assemble document pieces).code document fragment f g edited restored := by
  obtain ⟨ins, rfl, ⟨site⟩⟩ := Block.exists_site_of_mem_assemble hp
  rw [site.range_eq, ins.slice_eq] at hslice
  obtain rfl : ins.fragment = fragment := Option.some.inj hslice
  rw [site.code_eq_append] at hstart hstop
  obtain ⟨x, y, htext, hx⟩ := Text.exists_parts_of_cut? hstart
    (by rw [site.size_above]; exact hlow) (by rw [site.size_above]; exact Nat.le_trans hle hhigh)
  obtain ⟨x', y', htext', hx'⟩ := Text.exists_parts_of_cut? hstop
    (by rw [site.size_above]; exact Nat.le_trans hlow hle) (by rw [site.size_above]; exact hhigh)
  rw [site.size_above] at hx hx'
  obtain ⟨middle, rfl, -⟩ := Text.exists_append_of_size_le (htext.symm.trans htext') (by omega)
  obtain ⟨edited, restored, h⟩ := site.sameEdit hpaired hwords htext' hx
    (by rw [hx', Text.size_append, Nat.add_assoc])
  refine ⟨_, edited, restored, ?_, h⟩
  show m.fix.map _ = _
  rw [hfix]
  rfl

/-- A replacement that begins a line before one with a wide character. -/
theorem restore_fix_same_edit_new_line :
    ∃ p ∈ (Block.assemble ['{', '\n', '\t', 'a', '\n', '\t', 'ä', '\n', '}']
        [.scaffold ['s'], .fragment ⟨1, 9⟩ {}]).placements,
      ∃ g edited restored,
        (p.restore (Block.assemble ['{', '\n', '\t', 'a', '\n', '\t', 'ä', '\n', '}']
            [.scaffold ['s'], .fragment ⟨1, 9⟩ {}])
          { severity := .warning, text := "", fix := some ⟨3, 7, ['a', '\n', 'b', '\n', 'ä']⟩ }).fix
            = some g ∧
        p.SameEdit ['s', '\n', '\n', 'a', '\n', 'ä', '\n', '\n']
          ['{', '\n', '\t', 'a', '\n', '\t', 'ä', '\n', '}']
          ['\n', '\t', 'a', '\n', '\t', 'ä', '\n'] ⟨3, 7, ['a', '\n', 'b', '\n', 'ä']⟩ g
          edited restored :=
  ⟨_, List.mem_cons_self, restore_fix_same_edit _ _ _ _ _ _ List.mem_cons_self (by decide)
    (by decide) (by decide) rfl (by decide) (by decide) (by decide) (by decide) (by decide)⟩

end ComponentLint
