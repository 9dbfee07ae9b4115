import ComponentLint.Proofs.LineTable
import ComponentLint.Proofs.Markup.Blanking

/-!
# Blanking moves nothing

A covered text has the same size as the text, and only visible characters are covered.  Line feeds
and carriage returns are not visible, so that lines start at the same offsets, and what stands
before a cut has the same extent in both texts.

## Main definitions

* `Markup.ElementAt name t o e` — the search finds element `e` at byte `o` of `t`.

## Main statements

* `Cover.lineStartsFrom_shown` — lines start where they did.
* `Cover.extent_shown` — a covered text has the extent of the text.
* `Cover.getElem?_bytes_shown` — a byte that belongs to no covered character stays.
* `Markup.slice?_blankStyles` — what stands in the place of an element.
* `Markup.blankStyles_moves_nothing` — **blanking styles moves nothing.**
-/

namespace ComponentLint

open Text

namespace Cover

theorem HidesVisible.append_left {s r : Cover} (h : HidesVisible (s ++ r)) : HidesVisible s := by
  intro c hc
  exact h c (List.mem_append_left r hc)

theorem HidesVisible.append_right {s r : Cover} (h : HidesVisible (s ++ r)) : HidesVisible r := by
  intro c hc
  exact h c (List.mem_append_right s hc)

theorem HidesVisible.tail {m : Char × Bool} {s : Cover} (h : HidesVisible (m :: s)) :
    HidesVisible s := by
  intro c hc
  exact h c (List.mem_cons_of_mem m hc)

@[simp] theorem showChar_true (c : Char) : showChar (c, true) = spaces c.utf8Size := rfl

@[simp] theorem showChar_false (c : Char) : showChar (c, false) = [c] := rfl

/-- A covered text begins with a line feed exactly if the text does. -/
theorem head?_shown_eq_feed_iff {s : Cover} (hs : s.HidesVisible) :
    s.shown.head? = some '\n' ↔ s.own.head? = some '\n' := by
  cases s with
  | nil => rfl
  | cons m s =>
    obtain ⟨c, covered⟩ := m
    cases covered with
    | false => simp
    | true =>
      have hvisible := hs c List.mem_cons_self
      have hpos := c.utf8Size_pos
      obtain ⟨n, hn⟩ := Nat.exists_eq_succ_of_ne_zero (Nat.ne_of_gt hpos)
      have hc : c ≠ '\n' := by
        rintro rfl
        exact absurd hvisible (by decide)
      simp [hn, spaces, List.replicate_succ, hc]

/-- Lines start where they did. -/
theorem lineStartsFrom_shown {s : Cover} (hs : s.HidesVisible) (start : Nat) :
    lineStartsFrom start s.shown = lineStartsFrom start s.own := by
  induction s generalizing start with
  | nil => rfl
  | cons m s ih =>
    obtain ⟨c, covered⟩ := m
    rw [shown_cons, own_cons]
    cases covered with
    | true =>
      -- neither the spaces nor the visible character end a line
      have hvisible := hs c List.mem_cons_self
      have hspaces : Unbroken (spaces c.utf8Size) := by
        intro d hd
        rw [mem_spaces hd]
        decide
      have hc : Unbroken [c] := by
        intro d hd
        rw [List.mem_singleton.1 hd]
        constructor <;> rintro rfl <;> exact absurd hvisible (by decide)
      have hown := lineStartsFrom_append_of_unbroken hc start (own s)
      rw [showChar_true, lineStartsFrom_append_of_unbroken hspaces, size_spaces, ih hs.tail]
      simpa using hown.symm
    | false =>
      have hends : endsLine c (shown s).head? = endsLine c (own s).head? := by
        have hhead := head?_shown_eq_feed_iff hs.tail
        rw [Bool.eq_iff_iff]
        simp [endsLine, hhead]
      rw [showChar_false, List.singleton_append, lineStartsFrom, lineStartsFrom, hends, ih hs.tail]

/-! ### Extents -/

/-- Line feeds are not covered. -/
theorem count_feed_shown {s : Cover} (hs : s.HidesVisible) :
    s.shown.count '\n' = s.own.count '\n' := by
  induction s with
  | nil => rfl
  | cons m s ih =>
    obtain ⟨c, covered⟩ := m
    rw [shown_cons, own_cons, List.count_append, ih hs.tail, ← List.singleton_append,
      List.count_append]
    cases covered with
    | false => rfl
    | true =>
      have hspaces : '\n' ∉ spaces c.utf8Size := by
        intro hmem
        exact absurd (mem_spaces hmem) (by decide)
      have hc : '\n' ∉ [c] := by
        intro hmem
        rw [← List.mem_singleton.1 hmem] at hs
        exact absurd (hs '\n' List.mem_cons_self) (by decide)
      rw [showChar_true, List.count_eq_zero_of_not_mem hspaces, List.count_eq_zero_of_not_mem hc]

theorem feed_notMem_shown {s : Cover} (hs : s.HidesVisible) (h : '\n' ∉ s.own) :
    '\n' ∉ s.shown := by
  rw [← List.count_eq_zero] at h ⊢
  rw [count_feed_shown hs, h]

/-- The last line of a covered text is as long as that of the text. -/
theorem size_lastLine_shown {s : Cover} (hs : s.HidesVisible) :
    size (lastLine s.shown) = size (lastLine s.own) := by
  rw [lastLine_eq_lastRow, lastLine_eq_lastRow]
  rcases notMem_or_exists_append_cons '\n' s.own with h | ⟨front, last, hown, hlast⟩
  · rw [lastRow_of_notMem h, lastRow_of_notMem (feed_notMem_shown hs h), size_shown]
  · -- the last line feed is shown, and what follows it is one line in both texts
    obtain ⟨a, _, rfl, -, hrest⟩ := List.map_eq_append_iff.1 hown
    obtain ⟨⟨c, covered⟩, b, rfl, rfl, rfl⟩ := List.map_eq_cons_iff.1 hrest
    have hcovered : covered = false := by
      apply Bool.eq_false_iff.2
      rintro rfl
      exact absurd (hs.append_right '\n' List.mem_cons_self) (by decide)
    subst hcovered
    have hb := hs.append_right.tail
    change '\n' ∉ own b at hlast
    simp only [shown_append, own_append, shown_cons, own_cons, showChar_false,
      List.singleton_append, lastRow_append_cons]
    rw [lastRow_of_notMem (feed_notMem_shown hb hlast), lastRow_of_notMem hlast, size_shown]

/-- A covered text has the extent of the text. -/
theorem extent_shown {s : Cover} (hs : s.HidesVisible) : Extent.of s.shown = Extent.of s.own := by
  simp [Extent.of, count_feed_shown hs, size_lastLine_shown hs]

/-- The text and the covered text are cut at the same offsets, and what stands before a cut has the
same extent in both. -/
theorem exists_cut?_shown {s : Cover} (hs : s.HidesVisible) {o : Nat} {before after : Text}
    (h : cut? s.own o = some (before, after)) :
    ∃ before' after', cut? s.shown o = some (before', after') ∧
      Extent.of before' = Extent.of before := by
  obtain ⟨hown, rfl⟩ := cut?_eq_some_iff.1 h
  obtain ⟨a, b, rfl, rfl, rfl⟩ := List.map_eq_append_iff.1 hown
  refine ⟨shown a, shown b, ?_, extent_shown hs.append_left⟩
  exact cut?_eq_some_iff.2 ⟨shown_append a b, size_shown a⟩

/-! ### Bytes -/

/-- A byte that belongs to no covered character stays. -/
theorem getElem?_bytes_shown {s : Cover} {i : Nat}
    (h : ∀ o c, s.HidesAt o c → i < o ∨ o + c.utf8Size ≤ i) :
    (bytes s.shown)[i]? = (bytes s.own)[i]? := by
  induction s generalizing i with
  | nil => rfl
  | cons m s ih =>
    have hsize : (bytes (showChar m)).length = m.1.utf8Size := by rw [length_bytes, size_showChar]
    have hown : (bytes [m.1]).length = m.1.utf8Size := by simp
    rw [shown_cons, own_cons, bytes_append, ← List.singleton_append, bytes_append]
    rcases Nat.lt_or_ge i m.1.utf8Size with hi | hi
    · -- the byte is one of the first character, which is not covered
      obtain ⟨c, covered⟩ := m
      cases covered with
      | false => rw [showChar_false, List.getElem?_append_left (by rwa [hown]),
          List.getElem?_append_left (by rwa [hown])]
      | true =>
        have := h 0 c ⟨[], s, rfl, rfl⟩
        dsimp only at hi
        omega
    · rw [List.getElem?_append_right (by rwa [hsize]), List.getElem?_append_right (by rwa [hown]),
        hsize, hown]
      apply ih
      rintro o c ⟨a, b, rfl, rfl⟩
      have := h _ c ⟨m :: a, b, rfl, rfl⟩
      rw [own_cons, size_cons] at this
      omega

end Cover

namespace Markup

/-- The search for elements of a name finds `e` at byte `o` of a text. -/
def ElementAt (name t : Text) (o : Nat) (e : Element) : Prop :=
  ∃ before after, scan name t = before ++ .element e :: after ∧
    size (before.flatMap Stretch.text) = o

/-! ### Blanked elements -/

theorem hidesVisible_styleCover (filter : Attributes → Bool) (t : Text) :
    (styleCover filter t).HidesVisible := by
  intro c hc
  obtain ⟨o, ho⟩ := Cover.exists_hidesAt_of_mem hc
  obtain ⟨_, _, _, _, _, -, -, -, hvisible, -⟩ := hidesAt_styleCover_iff.1 ho
  exact hvisible

/-- A blanked text has no visible character. -/
theorem isSpace_of_mem_blankText {t : Text} {c : Char} (h : c ∈ blankText t) :
    isSpace c = true := by
  obtain ⟨d, -, hc⟩ := List.mem_flatMap.1 h
  rw [blankChar] at hc
  split at hc
  · next hd => rwa [List.mem_singleton.1 hc]
  · rw [mem_spaces hc]
    decide

@[simp] theorem size_blankText (t : Text) : size (blankText t) = size t := by
  have hshown := Cover.size_shown (textCover true t)
  rwa [shown_textCover, own_textCover, if_pos rfl] at hshown

theorem blankText_append (s t : Text) : blankText (s ++ t) = blankText s ++ blankText t :=
  List.flatMap_append

/-- Whitespace stays where it is when a text is blanked. -/
theorem blankText_append_space {front back : Text} {c : Char} (hc : isSpace c = true) :
    blankText (front ++ c :: back) = blankText front ++ c :: blankText back := by
  rw [blankText_append, blankText, blankText, blankText, List.flatMap_cons, blankChar, if_pos hc]
  rfl

/-- Stretches keep their size. -/
theorem size_flatMap_blankStyle (filter : Attributes → Bool) (ss : List Stretch) :
    size (ss.flatMap (blankStyle filter)) = size (ss.flatMap Stretch.text) := by
  rw [← shown_flatMap_stretchCover, Cover.size_shown, own_flatMap_stretchCover]

theorem size_blankStyle (filter : Attributes → Bool) (s : Stretch) :
    size (blankStyle filter s) = size s.text := by
  rw [← shown_stretchCover, Cover.size_shown, own_stretchCover]

/-- In the place of an element stands what blanking makes of it. -/
theorem slice?_blankStyles (filter : Attributes → Bool) {t : Text} {o : Nat} {e : Element}
    (he : ElementAt styleName t o e) :
    slice? (blankStyles filter t) o (o + size e.text) = some (blankStyle filter (.element e)) := by
  obtain ⟨before, after, hscan, rfl⟩ := he
  rw [slice?_eq_some_iff]
  refine ⟨before.flatMap (blankStyle filter), after.flatMap (blankStyle filter), ?_, ?_, ?_⟩
  · rw [blankStyles, hscan]
    simp
  · exact size_flatMap_blankStyle filter before
  · rw [size_blankStyle]
    rfl

/-- A byte stays if no element that the filter picks reaches over it. -/
theorem getElem?_bytes_blankStyles {filter : Attributes → Bool} {t : Text} {i : Nat}
    (h : ∀ o e, ElementAt styleName t o e → filter (Attributes.parse e.attributes) = true →
      i < o ∨ o + size e.text ≤ i) :
    (bytes (blankStyles filter t))[i]? = (bytes t)[i]? := by
  have hspared : ∀ o c, (styleCover filter t).HidesAt o c → i < o ∨ o + c.utf8Size ≤ i := by
    intro o c hc
    obtain ⟨before, e, after, front, back, hscan, hpicked, htext, -, rfl⟩ :=
      hidesAt_styleCover_iff.1 hc
    -- the character is part of an element, which does not reach over the byte
    have helement := h _ e ⟨before, after, hscan, rfl⟩ hpicked
    rw [htext, size_append, size_cons] at helement
    rw [size_append]
    omega
  have hbytes := Cover.getElem?_bytes_shown hspared
  rwa [shown_styleCover, own_styleCover] at hbytes

/-- **Blanking styles moves nothing.**  The document with blanked styles has the same size, and its
lines start at the same offsets.  It can be cut wherever the document can be cut, and what stands
before the cut has the same extent.  A byte changes only if it belongs to a `style` element that
the filter picks.  Elements that it does not pick stay as they are.  In the place of one that it
picks stands whitespace, in which all whitespace of the element is where it was. -/
theorem blankStyles_moves_nothing (filter : Attributes → Bool) (t : Text) :
    size (blankStyles filter t) = size t ∧
    (LineTable.ofText (blankStyles filter t)).starts = (LineTable.ofText t).starts ∧
    (∀ o before after, cut? t o = some (before, after) →
      ∃ before' after', cut? (blankStyles filter t) o = some (before', after') ∧
        Extent.of before' = Extent.of before) ∧
    (∀ i, (∀ o e, ElementAt styleName t o e → filter (Attributes.parse e.attributes) = true →
        i < o ∨ o + size e.text ≤ i) →
      (bytes (blankStyles filter t))[i]? = (bytes t)[i]?) ∧
    (∀ o e, ElementAt styleName t o e → filter (Attributes.parse e.attributes) = false →
      slice? (blankStyles filter t) o (o + size e.text) = some e.text) ∧
    ∀ o e, ElementAt styleName t o e → filter (Attributes.parse e.attributes) = true →
      ∃ blank, slice? (blankStyles filter t) o (o + size e.text) = some blank ∧
        (∀ c ∈ blank, isSpace c = true) ∧
        ∀ front c back, e.text = front ++ c :: back → isSpace c = true →
          ∃ front' back', blank = front' ++ c :: back' ∧ size front' = size front := by
  have hvisible := hidesVisible_styleCover filter t
  have hown := own_styleCover filter t
  have hshown := shown_styleCover filter t
  refine ⟨size_blankStyles filter t, ?_, ?_, fun i => getElem?_bytes_blankStyles, ?_, ?_⟩
  · have hstarts := Cover.lineStartsFrom_shown hvisible 0
    rw [hshown, hown] at hstarts
    exact congrArg (0 :: ·) hstarts
  · intro o before after hcut
    have hexists := @Cover.exists_cut?_shown _ hvisible o before after
    rw [hown, hshown] at hexists
    exact hexists hcut
  · intro o e he hkept
    rw [slice?_blankStyles filter he, blankStyle, hkept, if_neg Bool.false_ne_true]
  · intro o e he hpicked
    have hslice := slice?_blankStyles filter he
    rw [blankStyle, if_pos hpicked] at hslice
    refine ⟨blankText e.text, hslice, ?_, ?_⟩
    · intro c hc
      exact isSpace_of_mem_blankText hc
    · intro front c back htext hc
      refine ⟨blankText front, blankText back, ?_, size_blankText front⟩
      rw [htext, blankText_append_space hc]

end Markup

end ComponentLint
