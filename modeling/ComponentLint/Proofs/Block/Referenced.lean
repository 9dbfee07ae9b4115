import ComponentLint.Proofs.Block.Edits
import ComponentLint.Proofs.LineTable.Returns

/-!
# The text a message points at

A message with both ends on one line of a fragment points at a part of that line.  Outdenting takes
nothing from the middle of a line, so the same text stands in the document between the positions to
which the message is moved.  Whether a message is kept may depend on this text, which is looked up
in the block with a line table.  The table ends lines also at a carriage return alone, so that the
text is found exactly if none stands before its end; otherwise another part of the block is looked
at.

## Main definitions

* `Text.wordPosition t o` — the position of offset `o`, in numbers of 32 bits.
* `Message.PointsAt m document start stop` — a message is about the text between two offsets.

## Main statements

* `Text.exists_row` — a row of a text and what stands around it.
* `Site.slice?_document_middle` — a part of a line of the fragment stands in the document as it is.
* `Site.restore_pointsAt` — where the message is moved to.
* `referenced_text_in_document` — **the text that a message points at is that of the document
  between its moved ends, and it is looked at if no carriage return alone stands before its end.**
* `referenced_text_behind_return` — behind a carriage return alone another text is looked at.
-/

namespace ComponentLint

/-! ### Rows of a text -/

namespace Text

/-- A row of a text stands behind whole rows. -/
theorem exists_row {t row : Text} {i : Nat} (h : (t.splitOn '\n')[i]? = some row) :
    ∃ u r, t = u ++ row ++ r ∧ EndsRow u ∧ '\n' ∉ row ∧ u.count '\n' = i := by
  have hsingle : ∀ l : Text, '\n' ∉ l → l.splitOn '\n' = [l] := by
    intro l hl
    simpa using splitOn_append_of_notMem hl []
  induction t using byRows generalizing i with
  | last l hl =>
    rw [hsingle l hl] at h
    obtain ⟨rfl, rfl⟩ : i = 0 ∧ l = row := by simpa [List.getElem?_singleton] using h
    exact ⟨[], [], by simp, Or.inl rfl, hl, rfl⟩
  | row l t hl ih =>
    rw [List.splitOn_append_cons_self, hsingle l hl, List.singleton_append] at h
    cases i with
    | zero =>
      obtain rfl : l = row := by simpa using h
      exact ⟨[], '\n' :: t, rfl, Or.inl rfl, hl, rfl⟩
    | succ i =>
      obtain ⟨u, r, rfl, hu, hrow, rfl⟩ := ih (by simpa using h)
      refine ⟨l ++ '\n' :: u, r, by simp, Or.inr ?_, hrow, ?_⟩
      · rcases hu with rfl | ⟨v, rfl⟩
        · exact ⟨l, rfl⟩
        · exact ⟨l ++ '\n' :: v, by simp⟩
      · rw [List.count_append, List.count_eq_zero_of_not_mem hl, List.count_cons_self,
          Nat.zero_add]

/-- The position of an offset, lines being ended by line feeds, in numbers of 32 bits. -/
def wordPosition (t : Text) (o : Nat) : Position :=
  ⟨clampToWord (t.feedPlace o).toPosition.line, clampToWord (t.feedPlace o).toPosition.column⟩

/-- Positions are exact, except for the end of a text of `2 ^ 32 - 1` bytes. -/
theorem wordPosition_eq {o : Nat} (t : Text) (ho : o + 1 < 2 ^ 32) :
    t.wordPosition o = (t.feedPlace o).toPosition := by
  have hfits := t.fits_feedPlace ho
  rw [wordPosition, clampToWord_of_lt hfits.line, clampToWord_of_lt hfits.column]

end Text

/-- A message is about the text of a document from offset `start` up to offset `stop`. -/
structure Message.PointsAt (m : Message) (document : Text) (start stop : Nat) : Prop where
  start : ⟨m.line, m.column⟩ = document.wordPosition start
  endLine : m.endLine = some (document.wordPosition stop).line
  endColumn : m.endColumn = some (document.wordPosition stop).column

namespace Site

variable {p : Placement} {ins : Insertion} {code : Text}

/-! ### Lines of the fragment -/

/-- A line of the placement is a row of the fragment's text. -/
theorem getElem?_splitOn_code (site : Site p ins code) {line : Nat} (hfirst : p.firstLine ≤ line)
    (hlast : line ≤ p.lastLine) :
    (code.splitOn '\n')[line - 1]? = (ins.text.splitOn '\n')[line - p.firstLine]? := by
  have hlines := site.lastLine_eq_add
  have habove : (site.above.splitOn '\n').length = p.firstLine - 1 := by
    rw [length_splitOn, site.firstLine_eq]
    rfl
  have hpos : 1 ≤ p.firstLine := by
    rw [site.firstLine_eq]
    omega
  rw [site.splitOn_code, List.getElem?_append_right (by omega), habove,
    List.getElem?_append_left (by rw [length_splitOn]; omega)]
  congr 1
  omega

/-- A part of a line of the fragment stands in the document as it is, at the matching offsets. -/
theorem slice?_document_middle (site : Site p ins code) {front middle back : Text}
    (htext : ins.text = front ++ middle ++ back) (hmiddle : '\n' ∉ middle) :
    Text.slice? ins.document (p.documentOffset ins.text (Text.size front))
      (p.documentOffset ins.text (Text.size (front ++ middle))) = some middle := by
  have hfront : (ins.text.feedPlace (Text.size front)).line = front.count '\n' := by
    rw [htext, List.append_assoc, Text.feedPlace_size]
  have hstop : (ins.text.feedPlace (Text.size (front ++ middle))).line = front.count '\n' := by
    rw [htext, Text.feedPlace_size, List.count_append, List.count_eq_zero_of_not_mem hmiddle]
    rfl
  have hsize := site.size_withMargins front
  have hfragment := site.fragment_eq_append htext
  rw [marginsFrom_of_notMem _ _ hmiddle] at hfragment
  rw [Text.slice?_eq_some_iff]
  refine ⟨site.lead ++ withMargins '\n' p.taken front,
    marginsFrom '\n' p.taken ((front ++ middle).count '\n') back ++ site.rest, ?_, ?_, ?_⟩
  · rw [site.document_eq, hfragment]
    simp only [List.append_assoc]
  · rw [Text.size_append, hsize, Placement.documentOffset, hfront, site.start_eq]
    omega
  · rw [Placement.documentOffset, Placement.documentOffset, hfront, hstop, Text.size_append]
    omega

/-- A message between two offsets of the fragment's text is moved to the matching offsets. -/
theorem restore_pointsAt (site : Site p ins code) (b : Block) {m : Message} {q q' : Nat}
    (hq : q ≤ Text.size ins.text) (hq' : q' ≤ Text.size ins.text)
    (hline : m.line = p.blockLead.lines + (ins.text.feedPlace q).line)
    (hcolumn : m.column = (ins.text.feedPlace q).column + 1)
    (hendLine : m.endLine = some (p.blockLead.lines + (ins.text.feedPlace q').line))
    (hendColumn : m.endColumn = some ((ins.text.feedPlace q').column + 1)) :
    (p.restore b m).PointsAt ins.document (p.documentOffset ins.text q)
      (p.documentOffset ins.text q') where
  start := by
    have hline' := congrArg clampToWord (site.restoreLine_feedPlace hq)
    have hcolumn' := congrArg clampToWord (site.restoreColumn_feedPlace hq)
    show (⟨clampToWord (p.restoreLine m.line), clampToWord (p.restoreColumn m.line m.column)⟩ :
      Position) = _
    rw [hline, hcolumn, hline', hcolumn']
    rfl
  endLine := by
    show m.endLine.map (fun line => clampToWord (p.restoreLine line)) = _
    rw [hendLine, Option.map_some, site.restoreLine_feedPlace hq']
    rfl
  endColumn := by
    have hmove : (p.restore b m).endColumn = m.endColumn.map fun column => clampToWord
        (p.restoreColumn (p.blockLead.lines + (ins.text.feedPlace q').line) column) := by
      rw [Placement.restore, hendLine]
    rw [hmove, hendColumn, Option.map_some, site.restoreColumn_feedPlace hq']
    rfl

/-- A part of a line of the placement: the fragment's text has whole rows before that line, then the
line up to the part, the part, and the rest. -/
theorem exists_part (site : Site p ins code) {line c e : Nat} {row text : Text}
    (hfirst : p.firstLine ≤ line) (hlast : line ≤ p.lastLine)
    (hrow : (code.splitOn '\n')[line - 1]? = some row) (hslice : Text.slice? row c e = some text) :
    ∃ u x r, ins.text = u ++ x ++ text ++ r ∧ Text.EndsRow u ∧ '\n' ∉ x ∧ '\n' ∉ text ∧
      line = p.firstLine + u.count '\n' ∧ Text.size x = c ∧ c + Text.size text = e := by
  rw [site.getElem?_splitOn_code hfirst hlast] at hrow
  obtain ⟨u, r, htext, hu, hfeed, hcount⟩ := Text.exists_row hrow
  obtain ⟨x, y, rfl, hx, he⟩ := Text.slice?_eq_some_iff.1 hslice
  simp only [List.mem_append, not_or] at hfeed
  obtain ⟨⟨hfeedx, hfeedm⟩, -⟩ := hfeed
  refine ⟨u, x, y ++ r, ?_, hu, hfeedx, hfeedm, ?_, hx, he⟩
  · simp only [htext, List.append_assoc]
  · rw [hcount, Nat.add_sub_cancel' hfirst]

/-- A message on a part of a line is moved to where the same text stands in the document. -/
theorem restore_part (site : Site p ins code) (b : Block) {m : Message} {u x text r : Text}
    (htext : ins.text = u ++ x ++ text ++ r) (hu : Text.EndsRow u) (hx : '\n' ∉ x)
    (hmiddle : '\n' ∉ text) (hline : m.line = p.firstLine + u.count '\n')
    (hcolumn : m.column = Text.size x + 1) (hendLine : m.endLine = some m.line)
    (hendColumn : m.endColumn = some (Text.size x + Text.size text + 1)) :
    ∃ start stop, Text.slice? ins.document start stop = some text ∧
      (p.restore b m).PointsAt ins.document start stop := by
  have hxm : '\n' ∉ x ++ text := fun h => (List.mem_append.1 h).elim hx hmiddle
  have hfirst : ins.text.feedPlace (Text.size (u ++ x)) = ⟨u.count '\n', Text.size x⟩ := by
    rw [htext, List.append_assoc _ text, Text.feedPlace_rows hu hx]
  have hlast : ins.text.feedPlace (Text.size (u ++ x ++ text))
      = ⟨u.count '\n', Text.size x + Text.size text⟩ := by
    rw [htext, List.append_assoc u x text, Text.feedPlace_rows hu hxm, Text.size_append x text]
  have hle : Text.size (u ++ x) ≤ Text.size ins.text := by simp [htext]
  have hle' : Text.size (u ++ x ++ text) ≤ Text.size ins.text := by simp [htext]
  refine ⟨_, _, site.slice?_document_middle htext hmiddle,
    site.restore_pointsAt b hle hle' ?_ ?_ ?_ ?_⟩
  · rw [hfirst, hline]
    rfl
  · rw [hfirst, hcolumn]
  · rw [hlast, hendLine, hline]
    rfl
  · rw [hlast, hendColumn]

/-- A part of a line is found in the block, by its places, exactly if no carriage return alone
stands before its end. -/
theorem offsetOf_part_iff (site : Site p ins code) {u x text r : Text}
    (htext : ins.text = u ++ x ++ text ++ r) (hu : Text.EndsRow u) (hx : '\n' ∉ x)
    (hmiddle : '\n' ∉ text) {line : Nat} (hline : line + 1 = p.firstLine + u.count '\n') :
    ∃ first last, Text.slice? code first last = some text ∧
      code.feedPlace first = ⟨line, Text.size x⟩ ∧
      code.feedPlace last = ⟨line, Text.size x + Text.size text⟩ ∧
      ((LineTable.ofText code).offsetOf ⟨line, Text.size x⟩ = first ∧
          (LineTable.ofText code).offsetOf ⟨line, Text.size x + Text.size text⟩ = last ↔
        code.PairedBefore last) := by
  have hxm : '\n' ∉ x ++ text := fun h => (List.mem_append.1 h).elim hx hmiddle
  -- the block above the fragment and the rows before the line are whole rows of the block
  obtain ⟨v, w, hv, rfl, hcode⟩ : ∃ v w, Text.EndsRow v ∧ v.count '\n' = line ∧
      code = v ++ x ++ (text ++ w) := by
    refine ⟨site.above ++ '\n' :: u, r ++ '\n' :: site.below, Or.inr ?_, ?_, ?_⟩
    · rcases hu with rfl | ⟨t, rfl⟩
      · exact ⟨site.above, rfl⟩
      · exact ⟨site.above ++ '\n' :: t, by simp⟩
    · have := site.firstLine_eq
      rw [List.count_append, List.count_cons_self]
      omega
    · refine site.code_eq.trans ?_
      simp [htext]
  have hcode' : code = v ++ (x ++ text) ++ w := by simp [hcode]
  have hfirst : code.feedPlace (Text.size (v ++ x)) = ⟨v.count '\n', Text.size x⟩ := by
    rw [hcode, Text.feedPlace_rows hv hx]
  have hlast : code.feedPlace (Text.size (v ++ (x ++ text)))
      = ⟨v.count '\n', Text.size x + Text.size text⟩ := by
    rw [hcode', Text.feedPlace_rows hv hxm, Text.size_append x text]
  refine ⟨_, _, ?_, hfirst, hlast, ?_⟩
  · rw [Text.slice?_eq_some_iff]
    exact ⟨v ++ x, w, by simp [hcode], rfl, by simp [Nat.add_assoc]⟩
  · have hfirst_iff := LineTable.offsetOf_feedPlace_iff (v ++ x) (text ++ w)
    have hlast_iff := LineTable.offsetOf_feedPlace_iff (v ++ (x ++ text)) w
    rw [← hcode, hfirst] at hfirst_iff
    rw [← hcode', hlast] at hlast_iff
    rw [hfirst_iff, hlast_iff]
    exact ⟨fun h => h.2, fun h => ⟨h.mono (by simp), h⟩⟩

end Site

/-- The text between two places is looked up by their offsets. -/
theorem Block.referenced?_eq (b : Block) {m : Message} {line c e : Nat} (hline : m.line = line + 1)
    (hcolumn : m.column = c + 1) (hendLine : m.endLine = some (line + 1))
    (hendColumn : m.endColumn = some (e + 1)) :
    b.referenced? m = Text.slice? b.code ((LineTable.ofText b.code).offsetOf ⟨line, c⟩)
      ((LineTable.ofText b.code).offsetOf ⟨line, e⟩) := by
  rw [referenced?, hline, hcolumn, hendLine, hendColumn]
  simp

/-- **The text that a message points at, in the block and in the document.**  For every block made
of pieces of a document and every message with both ends on one line of a fragment, between
characters of that line:

* the text between its ends stands in the document between the positions to which the message is
  moved;
* the table finds both ends exactly if no carriage return alone stands before the second one, and
  then the text that is looked at is this text. -/
theorem referenced_text_in_document (document : Text) (pieces : List Piece) (p : Placement)
    (m : Message) (row text : Text) (c e : Nat)
    (hp : (Block.assemble document pieces).placementAt? m.line = some p)
    (hrow : ((Block.assemble document pieces).code.splitOn '\n')[m.line - 1]? = some row)
    (hcolumn : m.column = c + 1) (hendLine : m.endLine = some m.line)
    (hendColumn : m.endColumn = some (e + 1)) (hslice : Text.slice? row c e = some text) :
    let b := Block.assemble document pieces
    let table := LineTable.ofText b.code
    ∃ start stop first last,
      Text.slice? document start stop = some text ∧
      (p.restore b m).PointsAt document start stop ∧
      (stop + 1 < 2 ^ 32 →
        document.wordPosition start = (document.feedPlace start).toPosition ∧
        document.wordPosition stop = (document.feedPlace stop).toPosition) ∧
      Text.slice? b.code first last = some text ∧
      b.code.feedPlace first = ⟨m.line - 1, c⟩ ∧ b.code.feedPlace last = ⟨m.line - 1, e⟩ ∧
      (table.offsetOf ⟨m.line - 1, c⟩ = first ∧ table.offsetOf ⟨m.line - 1, e⟩ = last ↔
        b.code.PairedBefore last) ∧
      (b.code.PairedBefore last → b.referenced? m = some text) := by
  intro b table
  obtain ⟨hmem, hfirst, hlast⟩ :=
    (Block.assemble_registered document pieces).placementAt?_eq_some_iff.1 hp
  obtain ⟨ins, rfl, ⟨site⟩⟩ := Block.exists_site_of_mem_assemble hmem
  obtain ⟨u, x, r, htext, hu, hx, hmiddle, hline, rfl, rfl⟩ :=
    site.exists_part hfirst hlast hrow hslice
  have hpos : 0 < p.firstLine := by
    rw [site.firstLine_eq]
    omega
  have hnumber : m.line = (m.line - 1) + 1 := by omega
  obtain ⟨start, stop, hdocument, hpoints⟩ :=
    site.restore_part b htext hu hx hmiddle hline hcolumn hendLine hendColumn
  obtain ⟨first, last, hblock, hfirstPlace, hlastPlace, hends⟩ :=
    site.offsetOf_part_iff htext hu hx hmiddle (hnumber.symm.trans hline)
  refine ⟨start, stop, first, last, hdocument, hpoints, ?_, hblock, hfirstPlace, hlastPlace, hends,
    ?_⟩
  · intro hwords
    obtain ⟨_, _, _, -, hle⟩ := Text.slice?_eq_some_iff.1 hdocument
    exact ⟨Text.wordPosition_eq _ (by omega), Text.wordPosition_eq _ hwords⟩
  · intro hpaired
    obtain ⟨hfirstOffset, hlastOffset⟩ := hends.2 hpaired
    rw [b.referenced?_eq hnumber hcolumn (hendLine.trans (congrArg some hnumber)) hendColumn,
      hfirstOffset, hlastOffset, hblock]

/-- A name behind an indentation, below a line that ends in both break characters. -/
theorem referenced_text_in_document_indented :
    let document : Text := ['é', '\r', '\n', ' ', ' ', '$', 's', ';', '\n']
    let b := Block.assemble document
      [.fragment ⟨4, 9⟩ {}, .scaffold ['\r', '\n'], .fragment ⟨4, 9⟩ {}]
    let table := LineTable.ofText b.code
    let m : Message :=
      { severity := .error, text := "", line := 5, column := 1, endLine := some 5,
        endColumn := some 3 }
    ∃ p, b.placementAt? m.line = some p ∧ (b.code.splitOn '\n')[4]? = some ['$', 's', ';'] ∧
      Text.slice? ['$', 's', ';'] 0 2 = some ['$', 's'] ∧
      ∃ start stop first last,
        Text.slice? document start stop = some ['$', 's'] ∧
        (p.restore b m).PointsAt document start stop ∧
        (stop + 1 < 2 ^ 32 →
          document.wordPosition start = (document.feedPlace start).toPosition ∧
          document.wordPosition stop = (document.feedPlace stop).toPosition) ∧
        Text.slice? b.code first last = some ['$', 's'] ∧
        b.code.feedPlace first = ⟨4, 0⟩ ∧ b.code.feedPlace last = ⟨4, 2⟩ ∧
        (table.offsetOf ⟨4, 0⟩ = first ∧ table.offsetOf ⟨4, 2⟩ = last ↔
          b.code.PairedBefore last) ∧
        (b.code.PairedBefore last → b.referenced? m = some ['$', 's']) :=
  ⟨_, rfl, by decide, by decide,
    referenced_text_in_document _ _ _ _ ['$', 's', ';'] ['$', 's'] 0 2 rfl (by decide) rfl rfl rfl
      (by decide)⟩

/-- Behind a carriage return alone, nothing is looked at where the message is about `$`. -/
theorem referenced_text_behind_return :
    let document : Text := ['a', '\r', '$', ':', ' ', 'b']
    let b := Block.assemble document [.fragment ⟨0, 6⟩ {}]
    let m : Message :=
      { severity := .error, text := "", line := 2, column := 3, endLine := some 2,
        endColumn := some 4 }
    ∃ p, b.placementAt? m.line = some p ∧ (p.restore b m).PointsAt document 2 3 ∧
      Text.slice? document 2 3 = some ['$'] ∧ b.referenced? m = some [] :=
  ⟨_, rfl, ⟨by decide, by decide, by decide⟩, by decide, by decide⟩

end ComponentLint
