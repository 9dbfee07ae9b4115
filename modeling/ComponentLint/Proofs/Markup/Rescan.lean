import ComponentLint.Proofs.Markup.Search

/-!
# Searching a text again

A text in which elements have been found is changed and searched a second time.  What the second
search finds is compared with the first one stretch by stretch, and for that an element has to be
described without what follows it: the closing tag ends the element, and no tag that starts in the
body can reach behind it.

## Main definitions

* `Markup.Element.IsOf name e` — `e` is an element of the name, whatever follows it.
* `Markup.Closes name t` — there is a `>` in `t`, and a closing tag behind it.

## Main statements

* `Markup.element?_eq_some_iff` — **an element starts a text exactly if the text begins with it.**
* `Markup.element?_isSome_iff` — when some element starts a text.
* `Markup.scan_eq_plain_cons_iff`, `Markup.Element.IsOf.scan_eq` — what the search finds first.
* `Markup.scan_induction` — induction on a text and its stretches.
* `Markup.exists_of_flatMap_eq_append` — words of a changed text outside of its elements.
-/

namespace ComponentLint.Markup

open Text

/-! ### Forms of words -/

/-- Lower case changes the capital letters of ASCII only. -/
theorem toLower_cases (c : Char) :
    c.toLower = c ∨ 65 ≤ c.toNat ∧ c.toNat ≤ 90 ∧ c.toLower.toNat = c.toNat + 32 := by
  unfold Char.toLower
  split
  · next h =>
    right
    have hlow : 65 ≤ c.val.toNat := UInt32.le_iff_toNat_le.1 h.1
    have hhigh : c.val.toNat ≤ 90 := UInt32.le_iff_toNat_le.1 h.2
    refine ⟨hlow, hhigh, ?_⟩
    show (c.val + 32).toNat = c.val.toNat + 32
    rw [UInt32.toNat_add]
    exact Nat.mod_eq_of_lt (show c.val.toNat + 32 < 2 ^ 32 by omega)
  · exact Or.inl rfl

/-- A form of a visible character is visible. -/
theorem isSpace_of_isFormOf {letter c : Char} (hletter : isSpace letter = false)
    (h : isFormOf letter c = true) : isSpace c = false := by
  simp only [isFormOf, Bool.or_eq_true, Bool.and_eq_true, beq_iff_eq] at h
  rcases h with rfl | ⟨-, rfl⟩
  · rcases toLower_cases c with hsame | ⟨hlow, hhigh, -⟩
    · rwa [hsame] at hletter
    · simp [isSpace]
      omega
  · decide

/-- The opening bracket has no other form. -/
theorem isFormOf_lt_iff {c : Char} : isFormOf '<' c = true ↔ c = '<' := by
  simp only [isFormOf, Bool.or_eq_true, Bool.and_eq_true, beq_iff_eq]
  constructor
  · rintro (h | ⟨h, -⟩)
    · rcases toLower_cases c with hsame | ⟨hlow, -, hnat⟩
      · rw [← hsame, h]
      · rw [h] at hnat
        change 60 = _ at hnat
        omega
    · exact absurd h (by decide)
  · rintro rfl
    decide

/-- A form of an opening bracket and a word is the bracket and a form of the word. -/
theorem IsForm.exists_eq_cons {word form : Text} (h : IsForm ('<' :: word) form) :
    ∃ letters, form = '<' :: letters ∧ IsForm word letters := by
  obtain _ | ⟨hlt, hletters⟩ := h
  rw [isFormOf_lt_iff.1 hlt]
  exact ⟨_, rfl, hletters⟩

theorem IsForm.exists_of_mem {word form : Text} (h : IsForm word form) {c : Char} (hc : c ∈ form) :
    ∃ letter ∈ word, isFormOf letter c = true := by
  induction h with
  | nil => cases hc
  | cons hd _ ih =>
    rcases List.mem_cons.1 hc with rfl | hc
    · exact ⟨_, List.mem_cons_self, hd⟩
    · obtain ⟨letter, hletter, hform⟩ := ih hc
      exact ⟨letter, List.mem_cons_of_mem _ hletter, hform⟩

theorem IsForm.isSpace_of_mem {word form : Text} (h : IsForm word form)
    (hword : ∀ letter ∈ word, isSpace letter = false) : ∀ c ∈ form, isSpace c = false := by
  intro c hc
  obtain ⟨letter, hletter, hform⟩ := h.exists_of_mem hc
  exact isSpace_of_isFormOf (hword letter hletter) hform

/-- A form of a word without whitespace and `<` has none either. -/
theorem IsForm.plain_of_mem {word form : Text} (h : IsForm word form)
    (hword : ∀ letter ∈ word, isSpace letter = false ∧ letter ≠ '<') :
    ∀ c ∈ form, isSpace c = false ∧ c ≠ '<' := by
  intro c hc
  obtain ⟨letter, hletter, hform⟩ := h.exists_of_mem hc
  obtain ⟨hspace, hlt⟩ := hword letter hletter
  refine ⟨isSpace_of_isFormOf hspace hform, ?_⟩
  rintro rfl
  simp only [isFormOf, Bool.or_eq_true, Bool.and_eq_true, beq_iff_eq] at hform
  rcases hform with hform | ⟨-, hform⟩
  · exact hlt hform.symm
  · exact absurd hform (by decide)

theorem Begins.append {word s : Text} (h : Begins word s) (r : Text) : Begins word (s ++ r) := by
  obtain ⟨form, rest, rfl, hform⟩ := h
  exact ⟨form, rest ++ r, List.append_assoc .., hform⟩

/-- What follows the form of a word does not matter. -/
theorem begins_append_iff {word s : Text} (h : word.length ≤ s.length) (r : Text) :
    Begins word (s ++ r) ↔ Begins word s := by
  constructor
  · rintro ⟨form, rest, heq, hform⟩
    rcases List.append_eq_append_iff.1 heq with ⟨x, rfl, -⟩ | ⟨x, rfl, -⟩
    · -- the form is not longer than the text, so that nothing is left over
      have hlength := hform.length_eq
      have hx : x = [] := by
        rw [List.length_append] at hlength
        apply List.eq_nil_of_length_eq_zero
        omega
      subst hx
      exact ⟨s, [], (List.append_nil s).symm, by simpa using hform⟩
    · exact ⟨form, x, rfl, hform⟩
  · intro hbegins
    exact hbegins.append r

theorem splitWord?_eq_none_iff {word t : Text} : splitWord? word t = none ↔ ¬ Begins word t := by
  rw [← splitWord?_isSome_iff]
  simp

/-- The first closing tag of a text. -/
theorem splitClosing?_eq_some_iff {closing t body tag rest : Text} (hne : closing ≠ []) :
    splitClosing? closing t = some (body, tag, rest) ↔
      t = body ++ (tag ++ rest) ∧ IsForm closing tag ∧
        ∀ s u, s ++ u = body → u ≠ [] → ¬ Begins closing (u ++ (tag ++ rest)) := by
  constructor
  · intro h
    obtain ⟨⟨-, hfirst⟩, hform⟩ := closesFirst_of_splitClosing? h
    refine ⟨?_, hform, hfirst⟩
    rw [← append_of_splitClosing? h, List.append_assoc]
  · rintro ⟨rfl, hform, hfirst⟩
    induction body with
    | nil =>
      have hword : splitWord? closing (tag ++ rest) = some (tag, rest) :=
        splitWord?_eq_some_iff.2 ⟨rfl, hform⟩
      cases hform with
      | nil => exact absurd rfl hne
      | cons =>
        rw [List.nil_append, List.cons_append, splitClosing?, ← List.cons_append, hword]
    | cons c body ih =>
      have hword : splitWord? closing (c :: (body ++ (tag ++ rest))) = none := by
        rw [splitWord?_eq_none_iff]
        exact hfirst [] (c :: body) rfl (List.cons_ne_nil c body)
      have hrest := ih fun s u hs hu => hfirst (c :: s) u (by rw [List.cons_append, hs]) hu
      rw [List.cons_append, splitClosing?, hword, hrest]
      rfl

/-- A closing tag is found if there is one. -/
theorem splitClosing?_ne_none {closing x y : Text} (hne : closing ≠ []) (hy : Begins closing y) :
    splitClosing? closing (x ++ y) ≠ none := by
  intro hnone
  have hy' := splitClosing?_eq_none_of_append hnone
  obtain ⟨c, t, rfl⟩ := List.exists_cons_of_ne_nil (hy.ne_nil hne)
  rw [splitClosing?] at hy'
  rw [← splitWord?_isSome_iff, Option.isSome_iff_exists] at hy
  obtain ⟨parts, hparts⟩ := hy
  rw [hparts] at hy'
  cases hy'

theorem closingTag_ne_nil (name : Text) : closingTag name ≠ [] := by simp [closingTag]

/-! ### Elements -/

/-- An element of a name, whatever follows it: its attributes end at the first `>`, and its body at
the first closing tag. -/
structure Element.IsOf (name : Text) (e : Element) : Prop where
  name_form : IsForm ('<' :: name) e.name
  gt_notMem : '>' ∉ e.attributes
  isSpace_head : e.attributes.head?.all isSpace = true
  closing_form : IsForm (closingTag name) e.closing
  closes_first : ∀ s u, s ++ u = e.body → u ≠ [] → ¬ Begins (closingTag name) (u ++ e.closing)

/-- What follows the closing tag does not matter. -/
theorem Element.IsOf.begins_iff {name : Text} {e : Element} (he : e.IsOf name) (u rest : Text) :
    Begins (closingTag name) (u ++ (e.closing ++ rest)) ↔
      Begins (closingTag name) (u ++ e.closing) := by
  rw [← List.append_assoc]
  apply begins_append_iff
  rw [he.closing_form.length_eq, List.length_append]
  exact Nat.le_add_left ..

theorem Element.text_append (e : Element) (rest : Text) : e.text ++ rest =
    e.name ++ (e.attributes ++ '>' :: (e.body ++ (e.closing ++ rest))) := by
  simp [Element.text, Element.opening]

/-- The steps in which an element is read. -/
theorem exists_steps_of_element? {name t rest : Text} {e : Element}
    (h : element? name t = some (e, rest)) :
    ∃ u v, splitWord? ('<' :: name) t = some (e.name, u) ∧
      e.attributes = u.takeWhile (· ≠ '>') ∧ e.attributes.head?.all isSpace = true ∧
      splitClosing? (closingTag name) v = some (e.body, e.closing, rest) := by
  simp only [element?, Option.bind_eq_bind, Option.bind_eq_some_iff] at h
  obtain ⟨⟨opened, u⟩, hword, h⟩ := h
  split at h
  next hspace =>
    split at h
    next => cases h
    next c v hv =>
      simp only [Option.bind_eq_some_iff, Option.pure_def, Option.some.injEq, Prod.mk.injEq] at h
      obtain ⟨⟨body, closing, rest'⟩, hclosing, rfl, rfl⟩ := h
      exact ⟨u, v, hword, rfl, hspace, hclosing⟩
  next => cases h

theorem takeWhile_append_gt {s : Text} (h : '>' ∉ s) (t : Text) :
    (s ++ '>' :: t).takeWhile (· ≠ '>') = s := by
  have hs : ∀ c ∈ s, decide (c ≠ '>') = true := by
    intro c hc
    simpa using ne_of_mem_of_not_mem hc h
  rw [List.takeWhile_append_of_pos hs, List.takeWhile_cons_of_neg (by simp), List.append_nil]

theorem dropWhile_append_gt {s : Text} (h : '>' ∉ s) (t : Text) :
    (s ++ '>' :: t).dropWhile (· ≠ '>') = '>' :: t := by
  have hs : ∀ c ∈ s, decide (c ≠ '>') = true := by
    intro c hc
    simpa using ne_of_mem_of_not_mem hc h
  rw [List.dropWhile_append_of_pos hs, List.dropWhile_cons_of_neg (by simp)]

/-- **An element starts a text exactly if the text begins with it.** -/
theorem element?_eq_some_iff {name t rest : Text} {e : Element} :
    element? name t = some (e, rest) ↔ t = e.text ++ rest ∧ e.IsOf name := by
  constructor
  · intro h
    obtain ⟨u, v, hword, hattributes, hspace, hclosing⟩ := exists_steps_of_element? h
    obtain ⟨-, hform, hfirst⟩ := (splitClosing?_eq_some_iff (closingTag_ne_nil name)).1 hclosing
    refine ⟨(append_of_element? h).symm, (splitWord?_eq_some_iff.1 hword).2, ?_, hspace, hform, ?_⟩
    · intro hgt
      rw [hattributes] at hgt
      simpa using List.all_eq_true.1 List.all_takeWhile _ hgt
    · intro s u hs hu hbegins
      apply hfirst s u hs hu
      rw [← List.append_assoc]
      exact hbegins.append rest
  · rintro ⟨rfl, he⟩
    have hword : splitWord? ('<' :: name) (e.text ++ rest) =
        some (e.name, e.attributes ++ '>' :: (e.body ++ (e.closing ++ rest))) :=
      splitWord?_eq_some_iff.2 ⟨e.text_append rest, he.name_form⟩
    have hclosing : splitClosing? (closingTag name) (e.body ++ (e.closing ++ rest)) =
        some (e.body, e.closing, rest) := by
      apply (splitClosing?_eq_some_iff (closingTag_ne_nil name)).2
      refine ⟨rfl, he.closing_form, ?_⟩
      intro s u hs hu
      rw [he.begins_iff]
      exact he.closes_first s u hs hu
    rw [element?, hword]
    simp only [Option.bind_eq_bind, Option.bind_some, takeWhile_append_gt he.gt_notMem,
      dropWhile_append_gt he.gt_notMem, he.isSpace_head, if_true, hclosing]
    rfl

/-- What follows an element can be exchanged. -/
theorem Element.IsOf.element?_eq {name : Text} {e : Element} (he : e.IsOf name) (rest : Text) :
    element? name (e.text ++ rest) = some (e, rest) :=
  element?_eq_some_iff.2 ⟨rfl, he⟩

/-! ### Whether an element starts -/

/-- There is a `>` in a text, and a closing tag behind it. -/
def Closes (name t : Text) : Prop :=
  ∃ s x y, t = s ++ '>' :: (x ++ y) ∧ Begins (closingTag name) y

theorem Closes.append_left {name t : Text} (h : Closes name t) (s : Text) :
    Closes name (s ++ t) := by
  obtain ⟨u, x, y, rfl, hy⟩ := h
  exact ⟨s ++ u, x, y, (List.append_assoc ..).symm, hy⟩

/-- A closing tag that stands behind some `>` stands behind the first one. -/
theorem Closes.exists_first {name t : Text} (h : Closes name t) :
    ∃ s x y, t = s ++ '>' :: (x ++ y) ∧ '>' ∉ s ∧ Begins (closingTag name) y := by
  obtain ⟨u, x, y, rfl, hy⟩ := h
  obtain ⟨s, v, hsplit, hs⟩ := List.eq_append_cons_of_mem
    (show '>' ∈ u ++ '>' :: (x ++ y) from List.mem_append_right u List.mem_cons_self)
  refine ⟨s, ?_⟩
  rcases List.append_eq_append_iff.1 hsplit with ⟨z, rfl, hz⟩ | ⟨z, rfl, hz⟩
  · cases z with
    | nil =>
      rw [List.append_nil] at hs ⊢
      exact ⟨x, y, rfl, hs, hy⟩
    | cons c z =>
      -- the first `>` does not stand behind another one
      obtain ⟨rfl, -⟩ := List.cons.inj hz
      exact absurd (List.mem_append_right u List.mem_cons_self) hs
  · cases z with
    | nil =>
      rw [List.append_nil]
      exact ⟨x, y, rfl, hs, hy⟩
    | cons c z =>
      obtain ⟨rfl, -⟩ := List.cons.inj hz
      exact ⟨z ++ '>' :: x, y, by simp, hs, hy⟩

theorem Element.IsOf.closes {name : Text} {e : Element} (he : e.IsOf name) (s rest : Text) :
    Closes name (s ++ '>' :: (e.body ++ (e.closing ++ rest))) :=
  ⟨s, e.body, e.closing ++ rest, rfl, e.closing, rest, rfl, he.closing_form⟩

/-- The name ends at `>` or at whitespace. -/
theorem Element.IsOf.exists_head {name : Text} {e : Element} (he : e.IsOf name) (r : Text) :
    ∃ c ∈ (e.attributes ++ '>' :: r).head?, c = '>' ∨ isSpace c = true := by
  have hspace := he.isSpace_head
  cases hattributes : e.attributes with
  | nil => exact ⟨'>', rfl, Or.inl rfl⟩
  | cons c cs =>
    rw [hattributes] at hspace
    exact ⟨c, rfl, Or.inr hspace⟩

/-- An element starts a text exactly if the text begins with `<` and the name, goes on with `>` or
whitespace, and has a closing tag behind a `>`. -/
theorem element?_isSome_iff {name t : Text} :
    (element? name t).isSome = true ↔
      ∃ opening u, t = opening ++ u ∧ IsForm ('<' :: name) opening ∧
        (∃ c ∈ u.head?, c = '>' ∨ isSpace c = true) ∧ Closes name u := by
  constructor
  · intro h
    obtain ⟨⟨e, rest⟩, hread⟩ := Option.isSome_iff_exists.1 h
    obtain ⟨rfl, he⟩ := element?_eq_some_iff.1 hread
    exact ⟨e.name, _, e.text_append rest, he.name_form, he.exists_head _, he.closes ..⟩
  · rintro ⟨opening, u, rfl, hform, ⟨c, hc, hhead⟩, hcloses⟩
    obtain ⟨s, x, y, rfl, hs, hy⟩ := hcloses.exists_first
    obtain ⟨⟨body, closing, rest⟩, hclosing⟩ := Option.ne_none_iff_exists'.1
      (splitClosing?_ne_none (x := x) (closingTag_ne_nil name) hy)
    obtain ⟨hbody, htag, hfirst⟩ := (splitClosing?_eq_some_iff (closingTag_ne_nil name)).1 hclosing
    rw [Option.isSome_iff_exists]
    let e : Element := ⟨opening, s, body, closing⟩
    have hspace : s.head?.all isSpace = true := by
      cases s with
      | nil => rfl
      | cons d s =>
        obtain rfl : d = c := by simpa using hc
        rcases hhead with rfl | hspace
        · exact absurd List.mem_cons_self hs
        · exact hspace
    have he : e.IsOf name := by
      refine ⟨hform, hs, hspace, htag, ?_⟩
      intro s u hs hu hbegins
      apply hfirst s u hs hu
      rw [← List.append_assoc]
      exact hbegins.append rest
    refine ⟨(e, rest), element?_eq_some_iff.2 ⟨?_, he⟩⟩
    rw [e.text_append, hbody]

theorem element?_of_ne_lt {c : Char} (hc : c ≠ '<') (name t : Text) :
    element? name (c :: t) = none := by
  rw [← Option.not_isSome_iff_eq_none, element?_isSome_iff]
  rintro ⟨opening, u, heq, hform, -⟩
  obtain ⟨letters, rfl, -⟩ := hform.exists_eq_cons
  exact hc (List.cons.inj heq).1

/-! ### Stretches -/

theorem scan_cons_of_none {name t : Text} {c : Char} (h : element? name (c :: t) = none) :
    scan name (c :: t) = .plain c :: scan name t := by
  rw [scan]
  split
  · next heq =>
    rw [h] at heq
    cases heq
  · rfl

theorem scan_cons_of_some {name t rest : Text} {c : Char} {e : Element}
    (h : element? name (c :: t) = some (e, rest)) :
    scan name (c :: t) = .element e :: scan name rest := by
  rw [scan]
  split
  · next heq =>
    rw [h] at heq
    cases heq
    rfl
  · next heq =>
    rw [h] at heq
    cases heq

/-- A character stands alone exactly if no element starts there. -/
theorem scan_eq_plain_cons_iff {name t : Text} {c : Char} {ss : List Stretch} :
    scan name (c :: t) = .plain c :: ss ↔ element? name (c :: t) = none ∧ scan name t = ss := by
  cases h : element? name (c :: t) with
  | none => simp [scan_cons_of_none h]
  | some x => simp [scan_cons_of_some h]

/-- Where no `<` stands, no element starts. -/
theorem scan_append_of_notMem {s : Text} (h : '<' ∉ s) (name t : Text) :
    scan name (s ++ t) = s.map .plain ++ scan name t := by
  induction s with
  | nil => rfl
  | cons c s ih =>
    obtain ⟨hc, hs⟩ := not_or.1 (List.mem_cons.not.1 h)
    rw [List.cons_append, scan_cons_of_none (element?_of_ne_lt (Ne.symm hc) name _), ih hs]
    rfl

theorem Element.IsOf.exists_text_eq {name : Text} {e : Element} (he : e.IsOf name) :
    ∃ u, e.text = '<' :: u := by
  obtain ⟨letters, hname, -⟩ := he.name_form.exists_eq_cons
  rw [Element.text, Element.opening, hname]
  exact ⟨_, rfl⟩

theorem Element.IsOf.scan_eq {name : Text} {e : Element} (he : e.IsOf name) (rest : Text) :
    scan name (e.text ++ rest) = .element e :: scan name rest := by
  have hread := he.element?_eq rest
  obtain ⟨u, hu⟩ := he.exists_text_eq
  rw [hu, List.cons_append] at hread ⊢
  exact scan_cons_of_some hread

/-- Induction on a text and its stretches. -/
@[elab_as_elim]
theorem scan_induction (name : Text) {P : Text → List Stretch → Prop} (nil : P [] [])
    (plain : ∀ c t, element? name (c :: t) = none → P t (scan name t) →
      P (c :: t) (.plain c :: scan name t))
    (element : ∀ (e : Element) rest, e.IsOf name → P rest (scan name rest) →
      P (e.text ++ rest) (.element e :: scan name rest)) (t : Text) : P t (scan name t) := by
  fun_induction scan name t with
  | case1 => exact nil
  | case2 c t e rest h _ ih =>
    obtain ⟨heq, he⟩ := element?_eq_some_iff.1 h
    rw [heq]
    exact element e rest he ih
  | case3 c t h ih => exact plain c t h ih

theorem isOf_of_mem_scan {name t : Text} {e : Element} (h : .element e ∈ scan name t) :
    e.IsOf name := by
  revert h
  induction t using scan_induction name with
  | nil => simp
  | plain c t hnone ih => simpa using ih
  | element e' rest he ih =>
    intro h
    rcases List.mem_cons.1 h with h | h
    · obtain rfl := Stretch.element.inj h
      exact he
    · exact ih h

theorem flatMap_text_map_plain (t : Text) : (t.map Stretch.plain).flatMap Stretch.text = t := by
  rw [List.flatMap_map]
  exact List.flatMap_singleton' t

/-- A word without whitespace and `<` that is found in a changed text stands outside of the
elements, if what has become of an element begins with whitespace or `<`. -/
theorem exists_of_flatMap_eq_append {f : Stretch → Text} (hplain : ∀ c, f (.plain c) = [c])
    {ss : List Stretch} (hss : ∀ e, .element e ∈ ss →
      ∃ c u, f (.element e) = c :: u ∧ (isSpace c = true ∨ c = '<'))
    {word u : Text} (hword : ∀ c ∈ word, isSpace c = false ∧ c ≠ '<')
    (h : ss.flatMap f = word ++ u) :
    ∃ rest, ss = word.map .plain ++ rest ∧ rest.flatMap f = u := by
  induction word generalizing ss with
  | nil => exact ⟨ss, rfl, h⟩
  | cons c word ih =>
    obtain ⟨⟨hspace, hlt⟩, hletters⟩ := List.forall_mem_cons.1 hword
    obtain _ | ⟨s, ss⟩ := ss
    · cases h
    · rw [List.flatMap_cons] at h
      cases s with
      | plain d =>
        rw [hplain] at h
        obtain ⟨rfl, htail⟩ := List.cons.inj h
        obtain ⟨rest, rfl, hrest⟩ :=
          ih (fun e he => hss e (List.mem_cons_of_mem _ he)) hletters htail
        exact ⟨rest, rfl, hrest⟩
      | element e =>
        obtain ⟨d, v, hd, hhead⟩ := hss e List.mem_cons_self
        rw [hd] at h
        obtain ⟨rfl, -⟩ := List.cons.inj h
        rcases hhead with hhead | rfl
        · rw [hspace] at hhead
          cases hhead
        · exact absurd rfl hlt

end ComponentLint.Markup
