import ComponentLint.Markup.Blank
import ComponentLint.Proofs.Outdent

/-!
# Covered texts

A document with blanked styles is the document with some of its visible characters covered, each
by as many spaces as it has bytes.  Offsets mean the same in both.  A part of the covered document
is therefore the same part of the document, unless it has a covered character; and then it is not
even the same text up to indentation, since the visible characters can be counted.

## Main definitions

* `Cover` — a text with some characters marked, `Cover.own` and `Cover.shown` — the text, and the
  text with the marked characters covered.
* `Cover.HidesAt s o c` — character `c` at offset `o` is covered.
* `Cover.HidesVisible s` — only visible characters are covered.
* `Markup.Blanks filter t o c` — character `c` at offset `o` of `t` is a visible character of a
  `style` element that the filter picks.

## Main statements

* `Cover.exists_parts` — the ends of a part of the covered text, in the text.
* `Cover.countP_own` — the visible characters of the text are the uncovered and the covered ones.
* `Cover.exists_outdent_eq_iff` — a part is shown as it is exactly if none of it is covered.
* `Markup.shown_styleCover`, `Markup.hidesAt_styleCover_iff` — blanking styles covers them.
-/

namespace ComponentLint

open Text

/-- A text, in which the characters with mark `true` are to be covered. -/
abbrev Cover := List (Char × Bool)

namespace Cover

/-- The text. -/
def own (s : Cover) : Text := s.map Prod.fst

/-- What is shown of a character. -/
def showChar (m : Char × Bool) : Text := if m.2 then spaces m.1.utf8Size else [m.1]

/-- The text with the marked characters covered. -/
def shown (s : Cover) : Text := s.flatMap showChar

/-- The character at an offset is covered. -/
def HidesAt (s : Cover) (o : Nat) (c : Char) : Prop :=
  ∃ a r : Cover, s = a ++ (c, true) :: r ∧ size a.own = o

/-- Only visible characters are covered. -/
def HidesVisible (s : Cover) : Prop := ∀ c, (c, true) ∈ s → isSpace c = false

@[simp] theorem own_append (s r : Cover) : own (s ++ r) = own s ++ own r := List.map_append

@[simp] theorem own_cons (m : Char × Bool) (s : Cover) : own (m :: s) = m.1 :: own s := rfl

@[simp] theorem shown_append (s r : Cover) : shown (s ++ r) = shown s ++ shown r :=
  List.flatMap_append

@[simp] theorem shown_cons (m : Char × Bool) (s : Cover) :
    shown (m :: s) = showChar m ++ shown s := rfl

@[simp] theorem size_showChar (m : Char × Bool) : size (showChar m) = m.1.utf8Size := by
  rw [showChar]
  split <;> simp

/-- Offsets mean the same in both texts. -/
@[simp] theorem size_shown (s : Cover) : size s.shown = size s.own := by
  induction s with
  | nil => rfl
  | cons m s ih => rw [shown_cons, own_cons, size_append, size_cons, size_showChar, ih]

/-- Where nothing is covered, the text is shown as it is. -/
theorem shown_eq_own {s : Cover} (h : ∀ m ∈ s, m.2 = false) : s.shown = s.own := by
  induction s with
  | nil => rfl
  | cons m s ih =>
    have hm : showChar m = [m.1] := by simp [showChar, h m List.mem_cons_self]
    rw [shown_cons, own_cons, ih fun m' hm' => h m' (List.mem_cons_of_mem _ hm'), hm]
    rfl

/-! ### Covered characters -/

theorem HidesAt.mem {s : Cover} {o : Nat} {c : Char} (h : s.HidesAt o c) : (c, true) ∈ s := by
  obtain ⟨a, r, rfl, -⟩ := h
  simp

theorem HidesAt.add_utf8Size_le {s : Cover} {o : Nat} {c : Char} (h : s.HidesAt o c) :
    o + c.utf8Size ≤ size s.own := by
  obtain ⟨a, r, rfl, rfl⟩ := h
  simp [← Nat.add_assoc]

theorem exists_hidesAt_of_mem {s : Cover} {c : Char} (h : (c, true) ∈ s) : ∃ o, s.HidesAt o c := by
  obtain ⟨a, r, rfl⟩ := List.append_of_mem h
  exact ⟨_, a, r, rfl, rfl⟩

/-- A covered character of two texts is one of the first or one of the second. -/
theorem hidesAt_append_iff {s t : Cover} {o : Nat} {c : Char} :
    (s ++ t).HidesAt o c ↔ s.HidesAt o c ∨ ∃ o', t.HidesAt o' c ∧ o = size s.own + o' := by
  constructor
  · rintro ⟨a, r, heq, rfl⟩
    rcases List.append_eq_append_iff.1 heq with ⟨a', rfl, rfl⟩ | ⟨r', rfl, hr⟩
    · exact .inr ⟨_, ⟨a', r, rfl, rfl⟩, by simp⟩
    · cases r' with
      | nil => exact .inr ⟨0, ⟨[], r, hr.symm, rfl⟩, by simp⟩
      | cons m r' =>
        obtain ⟨rfl, -⟩ := List.cons.inj hr
        exact .inl ⟨a, r', rfl, rfl⟩
  · rintro (⟨a, r, rfl, rfl⟩ | ⟨o', ⟨a, r, rfl, rfl⟩, rfl⟩)
    · exact ⟨a, r ++ t, by simp, rfl⟩
    · exact ⟨s ++ a, r, by simp, by simp⟩

theorem hidesAt_flatMap_iff {α : Type} {f : α → Cover} {l : List α} {o : Nat} {c : Char} :
    Cover.HidesAt (l.flatMap f) o c ↔ ∃ before a after o', l = before ++ a :: after ∧
      (f a).HidesAt o' c ∧ o = size (own (before.flatMap f)) + o' := by
  induction l generalizing o with
  | nil =>
    refine iff_of_false ?_ ?_
    · exact fun h => List.not_mem_nil h.mem
    · rintro ⟨before, a, after, o', hl, -⟩
      cases before <;> cases hl
  | cons a l ih =>
    rw [List.flatMap_cons, hidesAt_append_iff]
    constructor
    · rintro (h | ⟨_, h, rfl⟩)
      · exact ⟨[], a, l, o, rfl, h, by simp [own]⟩
      · obtain ⟨before, d, after, o', rfl, hd, rfl⟩ := ih.1 h
        exact ⟨a :: before, d, after, o', rfl, hd, by simp [Nat.add_assoc]⟩
    · rintro ⟨before, d, after, o', hl, hd, rfl⟩
      cases before with
      | nil =>
        obtain ⟨rfl, -⟩ := List.cons.inj hl
        exact .inl (by simpa [own] using hd)
      | cons b before =>
        obtain ⟨rfl, rfl⟩ := List.cons.inj hl
        exact .inr ⟨_, ih.2 ⟨before, d, after, o', rfl, hd, rfl⟩, by simp [Nat.add_assoc]⟩

/-! ### Parts of a covered text -/

/-- An end of a part of the covered text stands between two characters of the text, or inside a
covered character. -/
theorem exists_parts {s : Cover} {t r : Text} (h : s.shown = t ++ r) :
    (∃ a b : Cover, s = a ++ b ∧ a.shown = t ∧ b.shown = r) ∨
      ∃ o c, s.HidesAt o c ∧ o < size t ∧ size t < o + c.utf8Size := by
  induction s generalizing t with
  | nil =>
    obtain ⟨rfl, rfl⟩ := List.append_eq_nil_iff.1 h.symm
    exact .inl ⟨[], [], rfl, rfl, rfl⟩
  | cons m s ih =>
    rw [shown_cons] at h
    rcases List.append_eq_append_iff.1 h with ⟨t', rfl, hs⟩ | ⟨r', hm, rfl⟩
    · rcases ih hs with ⟨a, b, rfl, rfl, rfl⟩ | ⟨o, c, ⟨a, b, rfl, rfl⟩, hlow, hhigh⟩
      · exact .inl ⟨m :: a, b, rfl, rfl, rfl⟩
      · refine .inr ⟨_, c, ⟨m :: a, b, rfl, rfl⟩, ?_, ?_⟩ <;>
          rw [own_cons, size_cons, size_append, size_showChar] <;> omega
    · -- the end is in what is shown of the first character
      have hsize := congrArg size hm
      rw [size_showChar, size_append] at hsize
      by_cases ht : t = []
      · subst ht
        exact .inl ⟨[], m :: s, rfl, rfl, by rw [shown_cons, hm]; rfl⟩
      by_cases hr : r' = []
      · subst hr
        exact .inl ⟨[m], s, rfl, by simp [hm, shown], rfl⟩
      have ht' : size t ≠ 0 := fun h => ht (size_eq_zero.1 h)
      have hr' : size r' ≠ 0 := fun h => hr (size_eq_zero.1 h)
      obtain ⟨c, covered⟩ := m
      cases covered with
      | true => exact .inr ⟨0, c, ⟨[], s, rfl, rfl⟩, by omega, by dsimp only at hsize; omega⟩
      | false =>
        -- one character cannot be cut
        have hlen : 1 = t.length + r'.length := by simpa [showChar] using congrArg List.length hm
        have hpos := List.length_pos_iff.2 ht
        have hpos' := List.length_pos_iff.2 hr
        omega

/-- The visible characters of a text are those that are shown and those that are covered. -/
theorem countP_own {s : Cover} (hs : s.HidesVisible) :
    s.own.countP (!isSpace ·) = s.shown.countP (!isSpace ·) + s.countP Prod.snd := by
  induction s with
  | nil => rfl
  | cons m s ih =>
    have ih := ih fun c hc => hs c (List.mem_cons_of_mem _ hc)
    obtain ⟨c, covered⟩ := m
    rw [own_cons, shown_cons, List.countP_cons, List.countP_cons, List.countP_append, ih]
    cases covered with
    | true =>
      have hspaces : (showChar (c, true)).countP (!isSpace ·) = 0 := by
        rw [List.countP_eq_zero]
        intro d hd
        obtain rfl : d = ' ' := mem_spaces hd
        decide
      rw [hspaces, hs c List.mem_cons_self]
      simp only [Bool.not_false, if_true]
      omega
    | false =>
      simp only [showChar, Bool.false_eq_true, if_false, List.countP_singleton]
      omega

/-- A part of a text that is shown without loss has no covered character. -/
theorem notMem_of_outdent_eq {s : Cover} (hs : s.HidesVisible)
    (h : (outdent s.own).text = (outdent s.shown).text) {c : Char} : (c, true) ∉ s := by
  have hblank : ∀ c, isBlank c = true → (!isSpace c) = false := by
    intro c hc
    rcases Bool.or_eq_true_iff.1 hc with hc | hc <;> obtain rfl := eq_of_beq hc <;> rfl
  -- outdenting keeps the visible characters, so that there are as many shown as there are
  have hvisible := filter_outdent hblank s.own
  rw [h, filter_outdent hblank] at hvisible
  have hlen := congrArg List.length hvisible
  rw [← List.countP_eq_length_filter, ← List.countP_eq_length_filter, countP_own hs] at hlen
  have hcount : s.countP Prod.snd = 0 := by omega
  intro hc
  exact List.countP_eq_zero.1 hcount _ hc rfl

/-- A part of a covered text that no covered character touches is that part of the text. -/
theorem slice?_own_of_spared {s : Cover} {start stop : Nat} {part : Text}
    (hpart : slice? s.shown start stop = some part)
    (hspared : ∀ o c, s.HidesAt o c → o + c.utf8Size ≤ start ∨ stop ≤ o) :
    slice? s.own start stop = some part := by
  obtain ⟨before, after, hshown, rfl, rfl⟩ := slice?_eq_some_iff.1 hpart
  -- neither end is inside a covered character
  rcases exists_parts hshown with ⟨ab, d, rfl, hab, rfl⟩ | ⟨o, c, hc, hlow, hhigh⟩
  swap
  · have := hspared o c hc
    rw [size_append] at hlow hhigh
    omega
  rcases exists_parts hab with ⟨a, b, rfl, rfl, rfl⟩ | ⟨o, c, hc, hlow, hhigh⟩
  swap
  · have := hspared o c (hidesAt_append_iff.2 (.inl hc))
    omega
  have hb : shown b = own b := by
    refine shown_eq_own fun m hm => Bool.eq_false_iff.2 fun hcovered => ?_
    obtain ⟨c, covered⟩ := m
    obtain rfl : covered = true := hcovered
    obtain ⟨o, ho⟩ := exists_hidesAt_of_mem hm
    have hpos := c.utf8Size_pos
    have hle := ho.add_utf8Size_le
    have := hspared _ c (hidesAt_append_iff.2 (.inl (hidesAt_append_iff.2 (.inr ⟨o, ho, rfl⟩))))
    rw [size_shown, size_shown] at this
    omega
  rw [slice?_eq_some_iff]
  exact ⟨own a, own d, by rw [hb, own_append, own_append], (size_shown a).symm, rfl⟩

/-- **A part of a covered text is the same part of the text, up to indentation, exactly if none of
its characters is covered.** -/
theorem exists_outdent_eq_iff {s : Cover} (hs : s.HidesVisible)
    {start stop : Nat} {part : Text} (hpart : slice? s.shown start stop = some part) :
    (∃ own, slice? s.own start stop = some own ∧ (outdent part).text = (outdent own).text) ↔
      ∀ o c, s.HidesAt o c → o + c.utf8Size ≤ start ∨ stop ≤ o := by
  constructor
  · rintro ⟨_, hown, heq⟩ o c hc
    -- cut at the same offsets, the text and what is shown of it have the same marks
    obtain ⟨_, _, hsplit, rfl, rfl⟩ := slice?_eq_some_iff.1 hown
    obtain ⟨_, d, rfl, hab, rfl⟩ := List.map_eq_append_iff.1 hsplit
    obtain ⟨a, b, rfl, rfl, rfl⟩ := List.map_eq_append_iff.1 hab
    change slice? (shown (a ++ b ++ d)) (size (own a)) (size (own a) + size (own b)) = _ at hpart
    change o + c.utf8Size ≤ size (own a) ∨ size (own a) + size (own b) ≤ o
    have hparts : slice? (shown (a ++ b ++ d)) (size (own a)) (size (own a) + size (own b))
        = some (shown b) := by
      rw [slice?_eq_some_iff]
      exact ⟨shown a, shown d, by simp, size_shown a, by rw [size_shown]⟩
    obtain rfl : shown b = part := Option.some.inj (hparts.symm.trans hpart)
    have hb : (c, true) ∉ b := notMem_of_outdent_eq (fun c hc => hs c (by simp [hc])) heq.symm
    rcases hidesAt_append_iff.1 hc with hc | ⟨o', -, rfl⟩
    · rcases hidesAt_append_iff.1 hc with hc | ⟨o', hc, -⟩
      · exact .inl hc.add_utf8Size_le
      · exact absurd hc.mem hb
    · refine .inr ?_
      rw [own_append, size_append]
      exact Nat.le_add_right ..
  · intro hspared
    exact ⟨part, slice?_own_of_spared hpart hspared, rfl⟩

end Cover

/-! ### Blanked styles -/

namespace Markup

/-- A text with its visible characters marked, or with none marked. -/
def textCover (picked : Bool) (t : Text) : Cover := t.map fun c => (c, picked && !isSpace c)

/-- A stretch, with the visible characters of elements marked whose attributes the filter picks. -/
def stretchCover (filter : Attributes → Bool) : Stretch → Cover
  | .plain c => [(c, false)]
  | .element e => textCover (filter (Attributes.parse e.attributes)) e.text

/-- A document, with the visible characters of the `style` elements marked that the filter picks. -/
def styleCover (filter : Attributes → Bool) (t : Text) : Cover :=
  (scan styleName t).flatMap (stretchCover filter)

/-- Character `c` at offset `o` is a visible character of a `style` element that the filter
picks. -/
def Blanks (filter : Attributes → Bool) (t : Text) (o : Nat) (c : Char) : Prop :=
  ∃ before e after front back, scan styleName t = before ++ .element e :: after ∧
    filter (Attributes.parse e.attributes) = true ∧ e.text = front ++ c :: back ∧
    isSpace c = false ∧ o = size (before.flatMap Stretch.text ++ front)

@[simp] theorem own_textCover (picked : Bool) (t : Text) : (textCover picked t).own = t := by
  simp [textCover, Cover.own, Function.comp_def]

theorem shown_textCover (picked : Bool) (t : Text) :
    (textCover picked t).shown = if picked then blankText t else t := by
  rw [textCover, Cover.shown, List.flatMap_map]
  cases picked with
  | true =>
    rw [if_pos rfl, blankText]
    congr 1
    funext c
    rw [Cover.showChar, blankChar, Bool.true_and]
    cases isSpace c <;> rfl
  | false => simp [Cover.showChar]

theorem hidesAt_textCover_iff {picked : Bool} {t : Text} {o : Nat} {c : Char} :
    (textCover picked t).HidesAt o c ↔ picked = true ∧ isSpace c = false ∧
      ∃ front back, t = front ++ c :: back ∧ o = size front := by
  constructor
  · rintro ⟨_, _, heq, rfl⟩
    obtain ⟨front, _, rfl, rfl, hrest⟩ := List.map_eq_append_iff.1 heq
    obtain ⟨d, back, rfl, hd, rfl⟩ := List.map_eq_cons_iff.1 hrest
    obtain ⟨rfl, hcovered⟩ := Prod.mk.inj hd
    obtain ⟨hpicked, hvisible⟩ := Bool.and_eq_true_iff.1 hcovered
    exact ⟨hpicked, by simpa using hvisible, front, back, rfl,
      congrArg size (own_textCover picked front)⟩
  · rintro ⟨rfl, hvisible, front, back, rfl, rfl⟩
    refine ⟨textCover true front, textCover true back, ?_, by rw [own_textCover]⟩
    rw [textCover, List.map_append, List.map_cons, hvisible]
    rfl

theorem own_stretchCover (filter : Attributes → Bool) (s : Stretch) :
    (stretchCover filter s).own = s.text := by
  cases s with
  | plain c => rfl
  | element e => exact own_textCover _ e.text

theorem own_flatMap_stretchCover (filter : Attributes → Bool) (ss : List Stretch) :
    Cover.own (ss.flatMap (stretchCover filter)) = ss.flatMap Stretch.text := by
  rw [Cover.own, List.map_flatMap]
  congr 1
  funext s
  exact own_stretchCover filter s

theorem own_styleCover (filter : Attributes → Bool) (t : Text) : (styleCover filter t).own = t := by
  rw [styleCover, own_flatMap_stretchCover, flatMap_text_scan]

theorem shown_stretchCover (filter : Attributes → Bool) (s : Stretch) :
    (stretchCover filter s).shown = blankStyle filter s := by
  cases s with
  | plain c => rfl
  | element e => exact shown_textCover _ e.text

theorem shown_flatMap_stretchCover (filter : Attributes → Bool) (ss : List Stretch) :
    Cover.shown (ss.flatMap (stretchCover filter)) = ss.flatMap (blankStyle filter) := by
  rw [Cover.shown, List.flatMap_assoc]
  congr 1
  funext s
  exact shown_stretchCover filter s

/-- Blanking the styles covers them. -/
theorem shown_styleCover (filter : Attributes → Bool) (t : Text) :
    (styleCover filter t).shown = blankStyles filter t :=
  shown_flatMap_stretchCover filter _

@[simp] theorem size_blankStyles (filter : Attributes → Bool) (t : Text) :
    size (blankStyles filter t) = size t := by
  rw [← shown_styleCover, Cover.size_shown, own_styleCover]

/-- The covered characters are those that are blanked. -/
theorem hidesAt_styleCover_iff {filter : Attributes → Bool} {t : Text} {o : Nat} {c : Char} :
    (styleCover filter t).HidesAt o c ↔ Blanks filter t o c := by
  rw [styleCover, Cover.hidesAt_flatMap_iff]
  simp only [own_flatMap_stretchCover]
  constructor
  · rintro ⟨before, s, after, o', hscan, ho', rfl⟩
    cases s with
    | plain d => cases List.mem_singleton.1 ho'.mem
    | element e =>
      obtain ⟨hpicked, hvisible, front, back, htext, rfl⟩ := hidesAt_textCover_iff.1 ho'
      exact ⟨before, e, after, front, back, hscan, hpicked, htext, hvisible, (size_append ..).symm⟩
  · rintro ⟨before, e, after, front, back, hscan, hpicked, htext, hvisible, rfl⟩
    exact ⟨before, .element e, after, size front, hscan,
      hidesAt_textCover_iff.2 ⟨hpicked, hvisible, front, back, htext, rfl⟩, size_append ..⟩

end Markup

end ComponentLint
