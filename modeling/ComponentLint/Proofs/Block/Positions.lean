import ComponentLint.Block.Restore
import ComponentLint.Proofs.Block.Registry
import ComponentLint.Proofs.Outdent.Inverse

/-!
# Positions moved back to the document

A position in the text of a fragment is moved to the document by taking off the lines of the block
above it, putting back what was removed from its line, and adding the lines of the document above.
What comes out is the position of the same byte in the document.

The bytes of the document are those of its lead, then those of the fragment's text with margins,
then the rest.  Cutting the fragment's text at an offset cuts the document at the matching offset,
and both positions are measured on what stands before the cut.

## Main definitions

* `Placement.documentOffset p text q` — the offset of the document that matches offset `q`.
* `Site.margins site i` — the bytes that were taken from line `i` of the fragment.
* `Placement.Fits p` — the numbers that are kept of a placement have 32 bits.
* `Placement.MovesBack` — messages at an offset of the text are moved to one of the document.

## Main statements

* `Site.take_bytes_document` — the document up to the matching offset.
* `Site.feedPlace_document` — the place of the matching offset.
* `Site.fits` — no number of a placement is cut off.
* `restore_inverts_place` — **moving a position back inverts placing the fragment.**
-/

namespace ComponentLint

/-- Numbers of 32 bits stay as they are. -/
theorem clampToWord_of_lt {n : Nat} (h : n < 2 ^ 32) : clampToWord n = n := by
  rw [clampToWord, Int.toNat_natCast]
  omega

/-- The offset of the document that matches offset `q` of a fragment's text: what was removed from
the lines up to that of `q` comes on top. -/
def Placement.documentOffset (p : Placement) (text : Text) (q : Nat) : Nat :=
  p.range.start + q + (p.removal.perLine.take ((text.feedPlace q).line + 1)).sum

namespace Site

variable {p : Placement} {ins : Insertion} {code : Text}

/-- The bytes that were taken from a line of a fragment. -/
def margins (_ : Site p ins code) (i : Nat) : List UInt8 :=
  Text.bytes ((outdent ins.fragment).removal.taken (outdent ins.fragment).margin i)

theorem feed_notMem_margins (site : Site p ins code) (i : Nat) : feed ∉ site.margins i :=
  fun h => feed_notMem_taken ins.fragment i (Text.feed_mem_bytes_iff.1 h)

theorem length_margins (site : Site p ins code) (i : Nat) :
    (site.margins i).length = p.removal.perLine.getD i 0 := by
  rw [margins, Text.length_bytes, size_taken, site.removal_eq]

/-! ### The document up to an offset -/

/-- The bytes of a fragment are those of its text with margins. -/
theorem bytes_fragment (site : Site p ins code) :
    Text.bytes ins.fragment = withMargins feed site.margins (Text.bytes ins.text) := by
  conv_lhs => rw [← withMargins_outdent ins.fragment, bytes_withMargins]
  rfl

/-- The document cut at the offset that matches offset `q` of the text. -/
theorem bytes_document_eq (site : Site p ins code) (q : Nat) :
    Text.bytes ins.document
      = (Text.bytes site.lead
          ++ withMargins feed site.margins ((Text.bytes ins.text).take q))
        ++ (marginsFrom feed site.margins (((Text.bytes ins.text).take q).count feed)
            ((Text.bytes ins.text).drop q) ++ Text.bytes site.rest) := by
  rw [site.document_eq, Text.bytes_append, Text.bytes_append, site.bytes_fragment,
    withMargins_cut feed site.margins (Text.bytes ins.text) q]
  simp only [List.append_assoc]

/-- The offset of the document that matches offset `q` of the text. -/
theorem length_before (site : Site p ins code) {q : Nat} (hq : q ≤ Text.size ins.text) :
    (Text.bytes site.lead
        ++ withMargins feed site.margins ((Text.bytes ins.text).take q)).length
      = p.documentOffset ins.text q := by
  have hlen : ((Text.bytes ins.text).take q).length = q := by
    rw [List.length_take, Text.length_bytes, Nat.min_eq_left hq]
  rw [List.length_append, Text.length_bytes, length_withMargins feed site.length_margins, hlen,
    Placement.documentOffset, site.start_eq, Nat.add_assoc]
  rfl

/-- The document up to the matching offset is its lead, then the text up to `q` with margins. -/
theorem take_bytes_document (site : Site p ins code) {q : Nat} (hq : q ≤ Text.size ins.text) :
    (Text.bytes ins.document).take (p.documentOffset ins.text q)
      = Text.bytes site.lead
        ++ withMargins feed site.margins ((Text.bytes ins.text).take q) := by
  rw [← site.length_before hq, site.bytes_document_eq q, List.take_left]

/-- The byte at the matching offset is the byte of the text. -/
theorem getElem?_bytes_document (site : Site p ins code) {q : Nat} (hq : q < Text.size ins.text) :
    (Text.bytes ins.document)[p.documentOffset ins.text q]? = (Text.bytes ins.text)[q]? := by
  have hlen : q < (Text.bytes ins.text).length := by rwa [Text.length_bytes]
  rw [← site.length_before (Nat.le_of_lt hq), site.bytes_document_eq q,
    List.getElem?_append_right (Nat.le_refl _), Nat.sub_self, ← List.head?_eq_getElem?,
    List.head?_append, head?_marginsFrom, List.head?_drop, List.getElem?_eq_getElem hlen]
  rfl

/-- The matching offset lies in the range of the fragment. -/
theorem documentOffset_le_stop (site : Site p ins code) {q : Nat}
    (hq : q ≤ Text.size ins.text) : p.documentOffset ins.text q ≤ p.range.stop := by
  have hlen := congrArg List.length (site.bytes_document_eq q)
  rw [List.length_append, site.length_before hq, List.length_append, Text.length_bytes,
    Text.length_bytes, site.document_eq, Text.size_append, Text.size_append] at hlen
  rw [site.stop_eq]
  omega

/-! ### The place of the matching offset -/

/-- The length of the last row before a cut.  It begins inside the fragment, unless the cut is in
the first line: that one begins in the lead. -/
theorem length_lastRow_before (site : Site p ins code) (before : List UInt8) :
    (lastRow feed (Text.bytes site.lead ++ withMargins feed site.margins before)).length
      = (if before.count feed = 0 then Text.size (Text.lastLine site.lead) else 0)
        + p.removal.perLine.getD (before.count feed) 0 + (lastRow feed before).length := by
  by_cases hfeed : feed ∈ before
  · have hcount : before.count feed ≠ 0 := Nat.ne_of_gt (List.count_pos_iff.2 hfeed)
    rw [if_neg hcount, withMargins, ← List.append_assoc,
      lastRow_marginsFrom_of_mem site.feed_notMem_margins 0 hfeed, List.length_append,
      Nat.zero_add, site.length_margins, Nat.zero_add]
  · have hrow : feed ∉ site.margins 0 ++ before := by
      rw [List.mem_append, not_or]
      exact ⟨site.feed_notMem_margins 0, hfeed⟩
    rw [List.count_eq_zero_of_not_mem hfeed, if_pos rfl, withMargins_of_notMem _ hfeed,
      lastRow_append_of_notMem _ hrow, lastRow_of_notMem hfeed, List.length_append,
      List.length_append, site.length_margins, ← Text.bytes_lastLine, Text.length_bytes,
      Nat.add_assoc]

/-- The place of the matching offset: the lines of the lead come on top, and the first line also
gets what stands before it in the document. -/
theorem feedPlace_document (site : Site p ins code) {q : Nat} (hq : q ≤ Text.size ins.text) :
    ins.document.feedPlace (p.documentOffset ins.text q)
      = ⟨site.lead.count '\n' + (ins.text.feedPlace q).line,
          (if (ins.text.feedPlace q).line = 0 then Text.size (Text.lastLine site.lead) else 0)
            + p.removal.perLine.getD (ins.text.feedPlace q).line 0
            + (ins.text.feedPlace q).column⟩ := by
  rw [Text.feedPlace, site.take_bytes_document hq, List.count_append, Text.count_feed_bytes,
    count_withMargins site.feed_notMem_margins, site.length_lastRow_before]
  rfl

/-! ### Moving lines and columns -/

theorem blockLead_last (site : Site p ins code) : p.blockLead.last = 0 := by
  rw [site.blockLead_eq]
  show Text.size (lastRow '\n' (site.above ++ ['\n'])) = 0
  rw [lastRow_append_cons]
  rfl

theorem fragmentLine_add (p : Placement) (k : Nat) :
    p.fragmentLine (p.blockLead.lines + k) = k + 1 := by
  rw [Placement.fragmentLine]
  omega

/-- A line of the fragment, moved to the document. -/
theorem restoreLine_add (site : Site p ins code) (k : Nat) :
    p.restoreLine (p.blockLead.lines + k) = (site.lead.count '\n' + k + 1 : Nat) := by
  have hlines : p.documentLead.lines = site.lead.count '\n' + 1 := by
    rw [site.documentLead_eq]
    rfl
  rw [Placement.restoreLine, fragmentLine_add, hlines]
  omega

/-- A column on a line of the fragment, moved to the document. -/
theorem restoreColumn_add (site : Site p ins code) (k column : Nat) :
    p.restoreColumn (p.blockLead.lines + k) (column + 1)
      = ((if k = 0 then Text.size (Text.lastLine site.lead) else 0)
          + p.removal.perLine.getD k 0 + column + 1 : Nat) := by
  have hlast : p.documentLead.last = Text.size (Text.lastLine site.lead) := by
    rw [site.documentLead_eq]
    rfl
  have hremoved : p.removedFrom (k + 1 : Int) = p.removal.perLine.getD k 0 := by
    rw [Placement.removedFrom, if_neg (by omega)]
    show p.removal.perLine.getD ((k : Int) + 1 - 1).toNat 0 = _
    rw [Int.add_sub_cancel, Int.toNat_natCast]
  rw [Placement.restoreColumn, fragmentLine_add, hremoved, hlast, site.blockLead_last]
  by_cases hk : k = 0
  · rw [if_pos hk, if_pos (by omega), if_pos (by omega)]
    omega
  · rw [if_neg hk, if_neg (by omega), if_neg (by omega)]
    omega

/-- The line of an offset of the text is moved to that of the matching offset. -/
theorem restoreLine_feedPlace (site : Site p ins code) {q : Nat} (hq : q ≤ Text.size ins.text) :
    p.restoreLine (p.blockLead.lines + (ins.text.feedPlace q).line)
      = (ins.document.feedPlace (p.documentOffset ins.text q)).toPosition.line := by
  rw [site.restoreLine_add, site.feedPlace_document hq]
  rfl

/-- The column of an offset of the text is moved to that of the matching offset. -/
theorem restoreColumn_feedPlace (site : Site p ins code) {q : Nat}
    (hq : q ≤ Text.size ins.text) :
    p.restoreColumn (p.blockLead.lines + (ins.text.feedPlace q).line)
        ((ins.text.feedPlace q).column + 1)
      = (ins.document.feedPlace (p.documentOffset ins.text q)).toPosition.column := by
  rw [site.restoreColumn_add, site.feedPlace_document hq]
  rfl

/-- A line of the text is a line of the placement. -/
theorem line_le_lastLine (site : Site p ins code) (q : Nat) :
    p.firstLine + (ins.text.feedPlace q).line ≤ p.lastLine := by
  have hcount : ((Text.bytes ins.text).take q).count feed ≤ ins.text.count '\n' := by
    rw [← Text.count_feed_bytes]
    exact (List.take_sublist q _).count_le feed
  rw [site.lastLine_eq_add]
  exact Nat.add_le_add_left hcount _

/-! ### Numbers of 32 bits -/

theorem size_document (site : Site p ins code) :
    Text.size ins.document = p.range.stop + Text.size site.rest := by
  rw [site.stop_eq, site.document_eq, Text.size_append, Text.size_append]

theorem size_text_le (site : Site p ins code) : Text.size ins.text ≤ Text.size code := by
  have hsize := congrArg Text.size site.code_eq
  rw [Text.size_append, Text.size_cons, Text.size_append] at hsize
  omega

/-- The position of an offset of the text, in the block. -/
theorem fits_blockPosition (site : Site p ins code) (hcode : Text.size code + 1 < 2 ^ 32) {q : Nat}
    (hq : q ≤ Text.size ins.text) :
    Position.Fits ⟨p.blockLead.lines + (ins.text.feedPlace q).line,
      (ins.text.feedPlace q).column + 1⟩ where
  line := Nat.lt_of_le_of_lt (site.line_le_lastLine q) (site.fits_lines hcode).2
  column := (ins.text.fits_feedPlace (o := q) (by have := site.size_text_le; omega)).column

end Site

/-- All numbers that are kept of a placement have 32 bits. -/
structure Placement.Fits (p : Placement) : Prop where
  range : p.range.start < 2 ^ 32 ∧ p.range.stop < 2 ^ 32
  documentLead : p.documentLead.Fits
  blockLead : p.blockLead.Fits
  lastLine : p.lastLine < 2 ^ 32
  removal : p.removal.Fits

/-- A fragment of a document of less than `2 ^ 32 - 1` bytes, in a block of less than `2 ^ 32 - 1`
bytes. -/
theorem Site.fits {p : Placement} {ins : Insertion} {code : Text} (site : Site p ins code)
    (hdocument : Text.size ins.document + 1 < 2 ^ 32) (hcode : Text.size code + 1 < 2 ^ 32) :
    p.Fits := by
  have hsize := site.size_document
  have hstart := site.start_le_stop
  have hstop := site.stop_eq
  obtain ⟨hlead, hlast⟩ := site.fits_lines hcode
  refine ⟨by omega, ?_, hlead, hlast, ?_⟩
  · rw [site.documentLead_eq]
    exact Extent.fits_of_prefix hdocument ⟨_, (site.document_eq.trans (List.append_assoc ..)).symm⟩
  · rw [site.removal_eq]
    exact fits_removal_outdent (by omega)

/-! ### Messages -/

/-- Offset `q` of the text of a fragment and offset `o` of the document are the same point: a
message at the one is moved to the other. -/
structure Placement.MovesBack (p : Placement) (b : Block) (document text : Text) (q o : Nat) :
    Prop where
  /-- The line has the placement. -/
  found : b.placementAt? (p.blockLead.lines + (text.feedPlace q).line) = some p
  /-- A message can name the point: its line and column in the block have 32 bits. -/
  fits : Position.Fits ⟨p.blockLead.lines + (text.feedPlace q).line, (text.feedPlace q).column + 1⟩
  /-- A message that starts at the one point is moved to start at the other. -/
  start : ∀ m : Message, m.line = p.blockLead.lines + (text.feedPlace q).line →
    m.column = (text.feedPlace q).column + 1 →
    (p.restore b m).line = (document.feedPlace o).toPosition.line ∧
      (p.restore b m).column = (document.feedPlace o).toPosition.column
  /-- A message that ends at the one point is moved to end at the other. -/
  stop : ∀ m : Message, m.endLine = some (p.blockLead.lines + (text.feedPlace q).line) →
    m.endColumn = some ((text.feedPlace q).column + 1) →
    (p.restore b m).endLine = some (document.feedPlace o).toPosition.line ∧
      (p.restore b m).endColumn = some (document.feedPlace o).toPosition.column
  /-- The point lies in the range of the fragment. -/
  le_stop : o ≤ p.range.stop
  /-- Both texts have the same byte there. -/
  byte : q < Text.size text → (Text.bytes document)[o]? = (Text.bytes text)[q]?

/-- **Moving a position back inverts placing the fragment.**  For every block made of pieces of a
document, both of less than `2 ^ 32 - 1` bytes, every fragment in it and every offset of the
fragment's text, a message at that offset is moved to the matching offset of the document, which has
the same byte. -/
theorem restore_inverts_place (document : Text) (pieces : List Piece) (p : Placement)
    (hp : p ∈ (Block.assemble document pieces).placements)
    (hdocument : Text.size document + 1 < 2 ^ 32)
    (hcode : Text.size (Block.assemble document pieces).code + 1 < 2 ^ 32) :
    p.Fits ∧ ∃ fragment, p.range.slice? document = some fragment ∧
      ∀ q ≤ Text.size (outdent fragment).text,
        p.MovesBack (Block.assemble document pieces) document (outdent fragment).text q
          (p.documentOffset (outdent fragment).text q) := by
  obtain ⟨ins, rfl, ⟨site⟩⟩ := Block.exists_site_of_mem_assemble hp
  refine ⟨site.fits hdocument hcode, ins.fragment, by rw [site.range_eq]; exact ins.slice_eq, ?_⟩
  intro q hq
  have hle := site.documentOffset_le_stop hq
  -- line and column are not cut off when the message is moved
  have hwords := ins.document.fits_feedPlace (o := p.documentOffset ins.text q)
    (by have := site.size_document; omega)
  have hline := congrArg clampToWord (site.restoreLine_feedPlace hq)
  have hcolumn := congrArg clampToWord (site.restoreColumn_feedPlace hq)
  rw [clampToWord_of_lt hwords.line] at hline
  rw [clampToWord_of_lt hwords.column] at hcolumn
  refine ⟨?_, site.fits_blockPosition hcode hq, ?_, ?_, hle, site.getElem?_bytes_document⟩
  · rw [(Block.assemble_registered _ _).placementAt?_eq_some_iff]
    exact ⟨hp, Nat.le_add_right .., site.line_le_lastLine q⟩
  · intro m hm hm'
    show clampToWord (p.restoreLine m.line) = _ ∧ clampToWord (p.restoreColumn m.line m.column) = _
    rw [hm, hm']
    exact ⟨hline, hcolumn⟩
  · intro m hm hm'
    have hline' : (p.restore (Block.assemble ins.document pieces) m).endLine
        = m.endLine.map fun line => clampToWord (p.restoreLine line) := rfl
    have hcolumn' : (p.restore (Block.assemble ins.document pieces) m).endColumn
        = m.endColumn.map fun column => clampToWord (p.restoreColumn
            (p.blockLead.lines + (ins.text.feedPlace q).line) column) := by
      rw [Placement.restore, hm]
      rfl
    rw [hline', hcolumn', hm, hm']
    exact ⟨congrArg some hline, congrArg some hcolumn⟩

/-- A fragment that starts in the middle of a line, with a wide character, a line without the
margin and a line feed at its end. -/
theorem restore_inverts_place_accented :
    let document : Text := ['é', '{', '\n', '\t', 'ä', '\n', 'x', '\n', '}']
    let b := Block.assemble document
      [.scaffold ['a', '\n'], .fragment ⟨3, 10⟩ {}, .scaffold [';']]
    Text.size document + 1 < 2 ^ 32 ∧ Text.size b.code + 1 < 2 ^ 32 ∧
      ∃ p ∈ b.placements, p.Fits ∧ ∃ fragment, p.range.slice? document = some fragment ∧
        ∀ q ≤ Text.size (outdent fragment).text,
          p.MovesBack b document (outdent fragment).text q
            (p.documentOffset (outdent fragment).text q) := by
  intro document b
  have hdocument : Text.size document + 1 < 2 ^ 32 := by decide
  have hcode : Text.size b.code + 1 < 2 ^ 32 := by decide
  exact ⟨hdocument, hcode, _, List.mem_cons_self,
    restore_inverts_place document _ _ List.mem_cons_self hdocument hcode⟩

end ComponentLint
