import ComponentLint.Proofs.Markup.Rescan
import ComponentLint.Proofs.Markup.Unmoved

/-!
# What is left of the styles

Styles are blanked in one pass.  The blanks themselves start no element, and an element that is
kept is found again, since it is described without what follows it.  But an opening tag may go on
with whitespace: where `<style` stands right before an element, it starts none of its own until
that element is blanked.  Then it goes on with the blanks, and with it an element may come into
being that was not there before.  Nothing else can go wrong.

## Main definitions

* `Markup.stretchesLeft filter s` — what is left of stretch `s`.
* `Markup.Rejoins filter stretches` — the name of an opening tag stands right before a `style`
  element that the filter picks, and behind that element a closing tag is left.
* `Markup.GrownOver filter stretches e` — the opening tag of `e` has grown over a blanked element.

## Main statements

* `Cover.exists_of_shown_eq_append` — a visible word of a covered text stands in the text.
* `Markup.exists_of_element?_blankStyle` — a new element has grown over a blanked one.
* `Markup.scan_flatMap_blankStyle_iff` — otherwise the second search finds what the first one left.
* `Markup.blankStyles_eq_self_iff` — blanking changes a text exactly if it has an element for it.
* `Markup.styles_left_after_blanking` — **what a second pass finds.**
-/

namespace ComponentLint

open Text

/-! ### Visible words of a covered text -/

namespace Cover

theorem eq_nil_of_shown_eq_nil {s : Cover} (h : s.shown = []) : s = [] := by
  have hsize := size_shown s
  rw [h, size_nil] at hsize
  exact List.map_eq_nil_iff.1 (size_eq_zero.1 hsize.symm)

/-- A visible character that is shown is one of the text. -/
theorem exists_of_shown_eq_cons {s : Cover} {a b : Text} {c : Char} (hc : isSpace c = false)
    (h : s.shown = a ++ c :: b) : ∃ p r : Cover, s = p ++ (c, false) :: r ∧ p.shown = a ∧
      r.shown = b := by
  induction s generalizing a with
  | nil => cases a <;> cases h
  | cons m s ih =>
    rw [shown_cons] at h
    rcases List.append_eq_append_iff.1 h with ⟨a', rfl, hs⟩ | ⟨b', hm, hb⟩
    · obtain ⟨p, r, rfl, rfl, rfl⟩ := ih hs
      exact ⟨m :: p, r, rfl, rfl, rfl⟩
    · cases b' with
      | nil =>
        obtain ⟨p, r, rfl, hp, rfl⟩ := ih (a := []) hb.symm
        obtain rfl := eq_nil_of_shown_eq_nil hp
        refine ⟨[m], r, rfl, ?_, rfl⟩
        simp [shown, hm]
      | cons d b' =>
        -- the character is one of those that are shown for the first one
        obtain ⟨rfl, rfl⟩ := List.cons.inj hb
        obtain ⟨e, covered⟩ := m
        cases covered with
        | true =>
          have hmem : c ∈ spaces e.utf8Size := by
            rw [← showChar_true, hm]
            exact List.mem_append_right a List.mem_cons_self
          rw [mem_spaces hmem] at hc
          cases hc
        | false =>
          rw [showChar_false] at hm
          cases a with
          | nil =>
            obtain ⟨rfl, rfl⟩ := List.cons.inj hm
            exact ⟨[], s, rfl, rfl, rfl⟩
          | cons x a => cases a <;> cases hm

/-- A visible word that is shown first is the first of the text. -/
theorem exists_of_shown_eq_append {s : Cover} {word b : Text}
    (hword : ∀ c ∈ word, isSpace c = false) (h : s.shown = word ++ b) :
    ∃ r : Cover, s.own = word ++ r.own ∧ r.shown = b := by
  induction word generalizing s with
  | nil => exact ⟨s, rfl, h⟩
  | cons c word ih =>
    obtain ⟨hc, hword⟩ := List.forall_mem_cons.1 hword
    obtain ⟨p, r, rfl, hp, hr⟩ := exists_of_shown_eq_cons (a := []) hc h
    obtain rfl := eq_nil_of_shown_eq_nil hp
    obtain ⟨r', hown, rfl⟩ := ih hword hr
    exact ⟨r', congrArg (c :: ·) hown, rfl⟩

end Cover

namespace Markup

/-- What closes a tag of a covered text closes it in the text. -/
theorem closes_own {name : Text} (hname : ∀ letter ∈ name, isSpace letter = false) {s : Cover}
    (h : Closes name s.shown) : Closes name s.own := by
  obtain ⟨_, _, _, hshown, tag, _, rfl, hform⟩ := h
  have htag : IsForm ('<' :: '/' :: (name ++ ['>'])) tag := hform
  obtain ⟨form, rfl, hletters⟩ := htag.exists_eq_cons
  have hclosing : ∀ letter ∈ '/' :: (name ++ ['>']), isSpace letter = false := by
    intro letter hletter
    rcases List.mem_cons.1 hletter with rfl | hletter
    · decide
    rcases List.mem_append.1 hletter with hletter | hletter
    · exact hname letter hletter
    · obtain rfl := List.mem_singleton.1 hletter
      decide
  -- the closing tag is found by its first character, and goes on to its end
  obtain ⟨p, r, rfl, -, hr⟩ := Cover.exists_of_shown_eq_cons (by decide) hshown
  obtain ⟨x, y, rfl, -, hy⟩ := Cover.exists_of_shown_eq_cons (by decide) hr
  obtain ⟨rest, hown, -⟩ :=
    Cover.exists_of_shown_eq_append (hletters.isSpace_of_mem hclosing) hy
  refine ⟨p.own, x.own, '<' :: y.own, by simp, '<' :: form, rest.own, ?_, hform⟩
  rw [hown]
  rfl

variable {filter : Attributes → Bool}

/-! ### Blanks start no element -/

theorem plain_styleName : ∀ letter ∈ styleName, isSpace letter = false ∧ letter ≠ '<' := by
  simp [styleName, isSpace]

theorem notMem_blankText {c : Char} (hc : isSpace c = false) (t : Text) : c ∉ blankText t := by
  intro hmem
  rw [isSpace_of_mem_blankText hmem] at hc
  cases hc

/-- Something that was blanked begins with whitespace. -/
theorem exists_head_blankText {t : Text} (ht : t ≠ []) (r : Text) :
    ∃ c ∈ (blankText t ++ r).head?, isSpace c = true := by
  cases hblank : blankText t with
  | nil =>
    have hsize := size_blankText t
    rw [hblank, size_nil] at hsize
    exact absurd (size_eq_zero.1 hsize.symm) ht
  | cons c u =>
    refine ⟨c, rfl, isSpace_of_mem_blankText (t := t) ?_⟩
    rw [hblank]
    exact List.mem_cons_self

/-- What is left of a stretch. -/
def stretchesLeft (filter : Attributes → Bool) : Stretch → List Stretch
  | .plain c => [.plain c]
  | .element e =>
    if filter (Attributes.parse e.attributes) then (blankText e.text).map .plain else [.element e]

theorem flatMap_blankStyle_map_plain (t : Text) :
    (t.map Stretch.plain).flatMap (blankStyle filter) = t := by
  rw [List.flatMap_map]
  exact List.flatMap_singleton' t

/-- An element begins with `<`, and where it was blanked with a space. -/
theorem Element.IsOf.exists_blankStyle_eq {name : Text} {e : Element} (he : e.IsOf name)
    (filter : Attributes → Bool) : ∃ c u, blankStyle filter (.element e) = c :: u ∧
      ((filter (Attributes.parse e.attributes) = true ∧ c = ' ') ∨
        (filter (Attributes.parse e.attributes) = false ∧ c = '<')) := by
  obtain ⟨u, hu⟩ := he.exists_text_eq
  cases hpicked : filter (Attributes.parse e.attributes) with
  | true =>
    refine ⟨' ', blankText u, ?_, Or.inl ⟨rfl, rfl⟩⟩
    rw [blankStyle, if_pos hpicked, hu]
    rfl
  | false =>
    refine ⟨'<', u, ?_, Or.inr ⟨rfl, rfl⟩⟩
    rw [blankStyle, hpicked, if_neg Bool.false_ne_true, hu]

/-! ### Opening tags that grow -/

/-- The stretches begin with the name of an opening tag right before a `style` element that the
filter picks, and behind that element a closing tag is left. -/
def RejoinsAt (filter : Attributes → Bool) (ss : List Stretch) : Prop :=
  ∃ opening e after, ss = opening.map .plain ++ .element e :: after ∧
    IsForm ('<' :: styleName) opening ∧ filter (Attributes.parse e.attributes) = true ∧
    Closes styleName (after.flatMap (blankStyle filter))

/-- Somewhere the name of an opening tag stands right before a `style` element that the filter
picks, and behind that element a closing tag is left. -/
def Rejoins (filter : Attributes → Bool) (ss : List Stretch) : Prop :=
  ∃ rest, rest <:+ ss ∧ RejoinsAt filter rest

/-- The name of the element's opening tag stands right before a `style` element that the filter
picks, and its attributes begin with the blanks for that element. -/
def GrownOver (filter : Attributes → Bool) (ss : List Stretch) (e : Element) : Prop :=
  ∃ before blanked after more, ss = before ++ (e.name.map .plain ++ .element blanked :: after) ∧
    filter (Attributes.parse blanked.attributes) = true ∧
    e.attributes = blankText blanked.text ++ more

/-- Where an element is blanked, the tag before it grows. -/
theorem RejoinsAt.isSome {ss : List Stretch} (h : RejoinsAt filter ss) :
    (element? styleName (ss.flatMap (blankStyle filter))).isSome = true := by
  obtain ⟨opening, e, after, rfl, hform, hpicked, hcloses⟩ := h
  have htext : e.text ≠ [] := List.ne_nil_of_length_pos e.length_text_pos
  obtain ⟨c, hc, hspace⟩ := exists_head_blankText htext (after.flatMap (blankStyle filter))
  rw [element?_isSome_iff]
  refine ⟨opening, blankText e.text ++ after.flatMap (blankStyle filter), ?_, hform,
    ⟨c, hc, Or.inr hspace⟩, hcloses.append_left _⟩
  rw [List.flatMap_append, flatMap_blankStyle_map_plain, List.flatMap_cons, blankStyle,
    if_pos hpicked]

/-- Blanks have no `>`: the attributes that begin with them go on behind them. -/
theorem exists_of_blankText_append_eq {t u attributes r : Text}
    (h : blankText t ++ u = attributes ++ '>' :: r) :
    ∃ more, attributes = blankText t ++ more ∧ u = more ++ '>' :: r := by
  rcases List.append_eq_append_iff.1 h with ⟨more, rfl, rfl⟩ | ⟨x, hblank, hx⟩
  · exact ⟨more, rfl, rfl⟩
  · cases x with
    | nil => exact ⟨[], by simpa using hblank.symm, hx.symm⟩
    | cons c x =>
      obtain ⟨rfl, -⟩ := List.cons.inj hx
      have hmem : '>' ∈ blankText t := by
        rw [hblank]
        exact List.mem_append_right attributes List.mem_cons_self
      exact absurd hmem (notMem_blankText (by decide) t)

/-- A tag that goes on with a character outside of the elements starts an element of the document
if it starts one of what is left. -/
theorem isSome_of_closes_blankStyle {opening : Text} {d : Char} {ss : List Stretch}
    (hform : IsForm ('<' :: styleName) opening) (hd : d = '>' ∨ isSpace d = true)
    (hcloses : Closes styleName ((.plain d :: ss).flatMap (blankStyle filter))) :
    (element? styleName (opening ++ (.plain d :: ss).flatMap Stretch.text)).isSome = true := by
  rw [element?_isSome_iff]
  refine ⟨opening, _, rfl, hform, ⟨d, rfl, hd⟩, ?_⟩
  rw [← own_flatMap_stretchCover filter]
  apply closes_own fun letter hletter => (plain_styleName letter hletter).1
  rwa [shown_flatMap_stretchCover]

/-- **An element that starts where none started before has grown over a blanked one.** -/
theorem exists_of_element?_blankStyle {c : Char} {t rest : Text} {e : Element}
    (hnone : element? styleName (c :: t) = none)
    (h : element? styleName (c :: (scan styleName t).flatMap (blankStyle filter)) =
      some (e, rest)) :
    ∃ blanked after more, .plain c :: scan styleName t =
        e.name.map .plain ++ .element blanked :: after ∧
      filter (Attributes.parse blanked.attributes) = true ∧
      e.attributes = blankText blanked.text ++ more ∧
      Closes styleName (after.flatMap (blankStyle filter)) := by
  obtain ⟨heq, he⟩ := element?_eq_some_iff.1 h
  have hform := he.name_form
  obtain ⟨letters, hname, hletters⟩ := hform.exists_eq_cons
  rw [e.text_append, hname] at heq
  obtain ⟨rfl, hleft⟩ := List.cons.inj heq
  -- the letters of the name are outside of the elements, and what matters is what follows them
  have hheads : ∀ e, .element e ∈ scan styleName t →
      ∃ c u, blankStyle filter (.element e) = c :: u ∧ (isSpace c = true ∨ c = '<') := by
    intro e he
    obtain ⟨c, u, hc, ⟨-, rfl⟩ | ⟨-, rfl⟩⟩ := (isOf_of_mem_scan he).exists_blankStyle_eq filter
    · exact ⟨_, u, hc, Or.inl (by decide)⟩
    · exact ⟨_, u, hc, Or.inr rfl⟩
  obtain ⟨ss, hss, hrest⟩ := exists_of_flatMap_eq_append (fun _ => rfl) hheads
    (hletters.plain_of_mem plain_styleName) hleft
  obtain ⟨d, hd, hhead⟩ := he.exists_head (e.body ++ (e.closing ++ rest))
  rw [← hrest] at hd
  obtain _ | ⟨s, ss⟩ := ss
  · cases hd
  · cases s with
    | plain d =>
      obtain rfl := Option.some.inj hd
      have hcloses := he.closes e.attributes rest
      rw [← hrest] at hcloses
      have hsome := isSome_of_closes_blankStyle hform hhead hcloses
      have ht : '<' :: t = e.name ++ (Stretch.plain d :: ss).flatMap Stretch.text := by
        rw [← flatMap_text_scan styleName t, hss, List.flatMap_append, flatMap_text_map_plain,
          hname]
        rfl
      rw [← ht, hnone] at hsome
      cases hsome
    | element blanked =>
      have hmem : .element blanked ∈ scan styleName t := by simp [hss]
      obtain ⟨d', u, hd', ⟨hpicked, -⟩ | ⟨-, rfl⟩⟩ :=
        (isOf_of_mem_scan hmem).exists_blankStyle_eq filter
      · rw [List.flatMap_cons, blankStyle, if_pos hpicked] at hrest
        obtain ⟨more, hattributes, hafter⟩ := exists_of_blankText_append_eq hrest
        refine ⟨blanked, ss, more, by rw [hss, hname]; rfl, hpicked, hattributes, ?_⟩
        rw [hafter]
        exact he.closes more rest
      · -- an element that is kept begins with a bracket
        rw [List.flatMap_cons, hd'] at hd
        obtain rfl := Option.some.inj hd
        exact absurd hhead (by decide)

theorem not_rejoins_nil : ¬ Rejoins filter [] := by
  rintro ⟨rest, hrest, opening, e, after, rfl, -⟩
  simp at hrest

theorem rejoins_cons_iff {s : Stretch} {ss : List Stretch} :
    Rejoins filter (s :: ss) ↔ RejoinsAt filter (s :: ss) ∨ Rejoins filter ss := by
  simp only [Rejoins, List.suffix_cons_iff]
  constructor
  · rintro ⟨rest, rfl | hrest, hjoin⟩
    · exact Or.inl hjoin
    · exact Or.inr ⟨rest, hrest, hjoin⟩
  · rintro (hjoin | ⟨rest, hrest, hjoin⟩)
    · exact ⟨_, Or.inl rfl, hjoin⟩
    · exact ⟨rest, Or.inr hrest, hjoin⟩

/-- No opening tag is cut by the start of an element. -/
theorem rejoins_element_cons_iff {e : Element} {ss : List Stretch} :
    Rejoins filter (.element e :: ss) ↔ Rejoins filter ss := by
  rw [rejoins_cons_iff, or_iff_right]
  rintro ⟨opening, e', after, heq, hform, -⟩
  obtain ⟨letters, rfl, -⟩ := hform.exists_eq_cons
  cases heq

theorem GrownOver.cons {ss : List Stretch} {e : Element} (h : GrownOver filter ss e) (s : Stretch) :
    GrownOver filter (s :: ss) e := by
  obtain ⟨before, blanked, after, more, rfl, hpicked, hattributes⟩ := h
  exact ⟨s :: before, blanked, after, more, rfl, hpicked, hattributes⟩

/-- A new element starts at a character exactly where a tag is joined. -/
theorem element?_blankStyle_eq_none_iff {c : Char} {t : Text}
    (hnone : element? styleName (c :: t) = none) :
    element? styleName (c :: (scan styleName t).flatMap (blankStyle filter)) = none ↔
      ¬ RejoinsAt filter (.plain c :: scan styleName t) := by
  rw [← Option.not_isSome_iff_eq_none, not_iff_not]
  constructor
  · intro h
    obtain ⟨⟨e, rest⟩, hread⟩ := Option.isSome_iff_exists.1 h
    obtain ⟨blanked, after, more, heq, hpicked, -, hcloses⟩ :=
      exists_of_element?_blankStyle hnone hread
    have hform := (element?_eq_some_iff.1 hread).2.name_form
    exact ⟨e.name, blanked, after, heq, hform, hpicked, hcloses⟩
  · intro h
    exact h.isSome

/-! ### The second search -/

/-- Of an element that was blanked nothing is found, and one that was kept is found again. -/
theorem Element.IsOf.scan_blankStyle {e : Element} (he : e.IsOf styleName) (t : Text) :
    scan styleName (blankStyle filter (.element e) ++ t) =
      stretchesLeft filter (.element e) ++ scan styleName t := by
  rw [blankStyle, stretchesLeft]
  split
  · exact scan_append_of_notMem (notMem_blankText (by decide) e.text) styleName t
  · exact he.scan_eq t

/-- **The second search finds what the first one left, unless a tag is joined.** -/
theorem scan_flatMap_blankStyle_iff (t : Text) :
    scan styleName ((scan styleName t).flatMap (blankStyle filter)) =
        (scan styleName t).flatMap (stretchesLeft filter) ↔
      ¬ Rejoins filter (scan styleName t) := by
  induction t using scan_induction styleName with
  | nil => simp [scan, not_rejoins_nil]
  | plain c t hnone ih =>
    rw [rejoins_cons_iff, not_or, ← ih, ← element?_blankStyle_eq_none_iff hnone]
    exact scan_eq_plain_cons_iff
  | element e rest he ih =>
    rw [rejoins_element_cons_iff, ← ih, List.flatMap_cons, List.flatMap_cons, he.scan_blankStyle,
      List.append_cancel_left_eq]

/-- If a tag is joined, an element has grown over one that was blanked. -/
theorem exists_grownOver (t : Text) (h : Rejoins filter (scan styleName t)) :
    ∃ e, .element e ∈ scan styleName ((scan styleName t).flatMap (blankStyle filter)) ∧
      GrownOver filter (scan styleName t) e := by
  revert h
  induction t using scan_induction styleName with
  | nil =>
    intro h
    exact absurd h not_rejoins_nil
  | plain c t hnone ih =>
    intro h
    change ∃ e, .element e ∈
      scan styleName (c :: (scan styleName t).flatMap (blankStyle filter)) ∧ _
    cases hread : element? styleName (c :: (scan styleName t).flatMap (blankStyle filter)) with
    | some parts =>
      obtain ⟨e, behind⟩ := parts
      obtain ⟨blanked, after, more, heq, hpicked, hattributes, -⟩ :=
        exists_of_element?_blankStyle hnone hread
      refine ⟨e, ?_, [], blanked, after, more, heq, hpicked, hattributes⟩
      rw [scan_cons_of_some hread]
      exact List.mem_cons_self
    | none =>
      have hjoin := (element?_blankStyle_eq_none_iff hnone).1 hread
      obtain ⟨e, hmem, hgrown⟩ := ih ((rejoins_cons_iff.1 h).resolve_left hjoin)
      refine ⟨e, ?_, hgrown.cons _⟩
      rw [scan_cons_of_none hread]
      exact List.mem_cons_of_mem _ hmem
  | element e rest he ih =>
    intro h
    obtain ⟨e', hmem, hgrown⟩ := ih (rejoins_element_cons_iff.1 h)
    refine ⟨e', ?_, hgrown.cons _⟩
    rw [List.flatMap_cons, he.scan_blankStyle]
    exact List.mem_append_right _ hmem

theorem element_mem_flatMap_stretchesLeft_iff {ss : List Stretch} {e : Element} :
    .element e ∈ ss.flatMap (stretchesLeft filter) ↔
      .element e ∈ ss ∧ filter (Attributes.parse e.attributes) = false := by
  rw [List.mem_flatMap]
  constructor
  · rintro ⟨s, hs, hmem⟩
    cases s with
    | plain c => simp [stretchesLeft] at hmem
    | element e' =>
      rw [stretchesLeft] at hmem
      split at hmem
      · simp at hmem
      · next hpicked =>
        obtain rfl := Stretch.element.inj (List.mem_singleton.1 hmem)
        exact ⟨hs, Bool.eq_false_iff.2 hpicked⟩
  · rintro ⟨hs, hpicked⟩
    refine ⟨.element e, hs, ?_⟩
    rw [stretchesLeft, hpicked]
    exact List.mem_singleton.2 rfl

/-- Blanking leaves a text as it is exactly if there is nothing to blank in it. -/
theorem blankStyles_eq_self_iff {t : Text} :
    blankStyles filter t = t ↔
      ∀ e, .element e ∈ scan styleName t → filter (Attributes.parse e.attributes) = false := by
  constructor
  · intro h e he
    rw [Bool.eq_false_iff]
    intro hpicked
    -- a blanked element has covered characters, and those that can be counted would be fewer
    obtain ⟨before, after, hscan⟩ := List.append_of_mem he
    obtain ⟨u, hu⟩ := (isOf_of_mem_scan he).exists_text_eq
    have hcovered : ('<', true) ∈ styleCover filter t := Cover.HidesAt.mem <|
      hidesAt_styleCover_iff.2 ⟨before, e, after, [], u, hscan, hpicked, hu, by decide, rfl⟩
    have hcount := Cover.countP_own (hidesVisible_styleCover filter t)
    rw [own_styleCover, shown_styleCover, h] at hcount
    have hpos : 0 < (styleCover filter t).countP Prod.snd :=
      List.countP_pos_iff.2 ⟨_, hcovered, rfl⟩
    omega
  · intro h
    have hsame : ∀ s ∈ scan styleName t, blankStyle filter s = s.text := by
      intro s hs
      cases s with
      | plain c => rfl
      | element e => rw [blankStyle, h e hs, if_neg Bool.false_ne_true, Stretch.text]
    rw [blankStyles, List.flatMap_congr hsame, flatMap_text_scan]

/-- **What a second pass finds.**  It changes nothing exactly if no style is left that the filter
picks.  It finds what the first pass left, and nothing to blank, unless the name of an opening tag
stood right before a blanked element.  In that case there is an element whose opening tag has grown
over the blanked one; a filter that picks everything is then not done after one pass. -/
theorem styles_left_after_blanking (filter : Attributes → Bool) (t : Text) :
    (blankStyles filter (blankStyles filter t) = blankStyles filter t ↔
      ∀ e, .element e ∈ scan styleName (blankStyles filter t) →
        filter (Attributes.parse e.attributes) = false) ∧
    (scan styleName (blankStyles filter t) = (scan styleName t).flatMap (stretchesLeft filter) ↔
      ¬ Rejoins filter (scan styleName t)) ∧
    (¬ Rejoins filter (scan styleName t) →
      blankStyles filter (blankStyles filter t) = blankStyles filter t ∧
      ∀ e, .element e ∈ scan styleName (blankStyles filter t) ↔
        .element e ∈ scan styleName t ∧ filter (Attributes.parse e.attributes) = false) ∧
    (Rejoins filter (scan styleName t) →
      ∃ e, .element e ∈ scan styleName (blankStyles filter t) ∧
        GrownOver filter (scan styleName t) e) ∧
    ((∀ a, filter a = true) →
      (blankStyles filter (blankStyles filter t) = blankStyles filter t ↔
        ¬ Rejoins filter (scan styleName t))) := by
  have hspared : ¬ Rejoins filter (scan styleName t) →
      ∀ e, .element e ∈ scan styleName (blankStyles filter t) ↔
        .element e ∈ scan styleName t ∧ filter (Attributes.parse e.attributes) = false := by
    intro hjoin e
    rw [blankStyles, (scan_flatMap_blankStyle_iff t).2 hjoin, element_mem_flatMap_stretchesLeft_iff]
  have hsecond : ¬ Rejoins filter (scan styleName t) →
      blankStyles filter (blankStyles filter t) = blankStyles filter t := by
    intro hjoin
    rw [blankStyles_eq_self_iff]
    intro e he
    exact ((hspared hjoin e).1 he).2
  refine ⟨blankStyles_eq_self_iff, scan_flatMap_blankStyle_iff t, ?_, exists_grownOver t, ?_⟩
  · intro hjoin
    exact ⟨hsecond hjoin, hspared hjoin⟩
  · intro hall
    refine ⟨?_, hsecond⟩
    intro hsame hjoin
    obtain ⟨e, he, -⟩ := exists_grownOver t hjoin
    have hunpicked := blankStyles_eq_self_iff.1 hsame e he
    rw [hall] at hunpicked
    cases hunpicked

/-- A style with a language is left: it starts before another one, and grows over it. -/
theorem style_left_before_style :
    let t := "<style<style lang=x>a</style> lang=y>b</style>".toList
    let left := blankStyles Attributes.hasLanguage t
    left = "<style                        lang=y>b</style>".toList ∧
      (∃ e, scan styleName left = [.element e] ∧
        Attributes.hasLanguage (Attributes.parse e.attributes) = true) ∧
      blankStyles Attributes.hasLanguage left = spaces (size t) := by
  refine ⟨by decide +kernel, ⟨⟨"<style".toList, "                        lang=y".toList, "b".toList,
    "</style>".toList⟩, by decide +kernel, by decide +kernel⟩, by decide +kernel⟩

end Markup

end ComponentLint
