import ComponentLint.Markup.Element

/-!
# Elements by a regular expression

An element with a raw body is what the regular expression `<name(\s.*?)?>(.*?)</name>` describes,
where `.` is any character and letters are compared without regard to case.  Such an expression
can be read at the start of a text in several ways, and its choices have an order: a part in
brackets is read if that is possible, and `.*?` reads as little as possible.  The first way in this
order is the one that counts.

Reading an element goes straight to that way.  It never has to come back to a choice, since a
closing tag that does not follow the first `>` does not follow a later one either.

## Main definitions

* `Markup.Pattern`, `Markup.Pattern.ways p t` — expressions, and the ways to read one at the start
  of a text, in order.
* `Markup.Pattern.partWays ps t` — the ways to read several expressions one after the other, with
  the part that each of them reads.
* `Markup.elementPattern name` — the five parts of an element.

## Main statements

* `Markup.Pattern.ways_word` — there is one way at most to read a word.
* `Markup.head?_partWays_elementPattern` — **reading an element takes the first way of its
  expression.**
-/

namespace ComponentLint.Markup

open Text

/-! ### Expressions and the order of their choices -/

/-- A regular expression whose choices have an order. -/
inductive Pattern where
  /-- Nothing is read. -/
  | empty
  /-- One character of a class. -/
  | one (p : Char → Bool)
  /-- One expression after the other. -/
  | seq (a b : Pattern)
  /-- An expression, or else nothing. -/
  | maybe (a : Pattern)
  /-- Any characters, as few as possible. -/
  | anything

namespace Pattern

/-- The ways to cut a text in two, those with less in the first part first. -/
def splits : Text → List (Text × Text)
  | [] => [([], [])]
  | c :: t => ([], c :: t) :: (splits t).map fun x => (c :: x.1, x.2)

/-- The ways to read an expression at the start of a text: what is read, and what follows.  The
preferred ways come first. -/
def ways : Pattern → Text → List (Text × Text)
  | .empty, t => [([], t)]
  | .one _, [] => []
  | .one p, c :: t => if p c then [([c], t)] else []
  | .seq a b, t => (ways a t).flatMap fun x => (ways b x.2).map fun y => (x.1 ++ y.1, y.2)
  | .maybe a, t => ways a t ++ [([], t)]
  | .anything, t => splits t

/-- The ways to read expressions one after the other: the part that each one reads, and what
follows. -/
def partWays : List Pattern → Text → List (List Text × Text)
  | [], t => [([], t)]
  | p :: ps, t => (ways p t).flatMap fun x => (partWays ps x.2).map fun y => (x.1 :: y.1, y.2)

/-- A word, without regard to case. -/
def word (w : Text) : Pattern := w.foldr (fun letter p => .seq (.one (isFormOf letter)) p) .empty

end Pattern

open Pattern

/-- The parts of an element: its opening `<` and name, what stands between the name and `>`, the
`>`, its body and its closing tag. -/
def elementPattern (name : Text) : List Pattern :=
  [word ('<' :: name), .maybe (.seq (.one isSpace) .anything), .one (· == '>'), .anything,
    word (closingTag name)]

/-- The parts of an element, as its expression reads them. -/
def Element.parts (e : Element) : List Text := [e.name, e.attributes, ['>'], e.body, e.closing]

namespace Pattern

theorem mem_splits_iff {t s u : Text} : (s, u) ∈ splits t ↔ s ++ u = t := by
  induction t generalizing s with
  | nil => simp [splits]
  | cons c t ih =>
    cases s with
    | nil => simp [splits, eq_comm]
    | cons d s =>
      simp only [splits, List.mem_cons, Prod.mk.injEq, reduceCtorEq, false_and, List.mem_map,
        Prod.exists, List.cons.injEq, false_or, List.cons_append]
      constructor
      · rintro ⟨s', u', h, ⟨rfl, rfl⟩, rfl⟩
        exact ⟨rfl, ih.1 h⟩
      · rintro ⟨rfl, h⟩
        exact ⟨s, u, ih.2 h, ⟨rfl, rfl⟩, rfl⟩

/-- The first way to cut a text so that something can be read behind the cut: nothing stands before
the cut, or the first character does. -/
theorem findSome?_splits_cons {α β : Type} (read : Text → Option α) (g : Text → α → β) (c : Char)
    (t : Text) :
    (splits (c :: t)).findSome? (fun x => (read x.2).map (g x.1)) =
      ((read (c :: t)).map (g [])).or
        ((splits t).findSome? fun x => (read x.2).map (g (c :: x.1))) := by
  rw [splits, List.findSome?_cons, List.findSome?_map]
  cases read (c :: t) <;> rfl

/-- The first way through several expressions is the first one of the first expression from which
the others can go on. -/
theorem head?_partWays_cons (p : Pattern) (ps : List Pattern) (t : Text) :
    (partWays (p :: ps) t).head? =
      (ways p t).findSome? fun x =>
        (partWays ps x.2).head?.map fun y => (x.1 :: y.1, y.2) := by
  rw [partWays, List.head?_flatMap]
  simp only [List.head?_map]

/-- There is one way at most to read a word. -/
theorem ways_word (w t : Text) : ways (word w) t = (splitWord? w t).toList := by
  fun_induction splitWord? w t with
  | case1 t => rfl
  | case2 letter w => rfl
  | case3 letter w c t hc ih =>
    show (if isFormOf letter c then [([c], t)] else []).flatMap _ = _
    rw [if_pos hc, List.flatMap_singleton]
    show (ways (word w) t).map _ = _
    rw [ih]
    cases splitWord? w t <;> rfl
  | case4 letter w c t hc =>
    show (if isFormOf letter c then [([c], t)] else []).flatMap _ = _
    rw [if_neg hc]
    rfl

/-- The first way to read a word. -/
theorem head?_partWays_word (w t : Text) :
    (partWays [word w] t).head? = (splitWord? w t).map fun x => ([x.1], x.2) := by
  rw [head?_partWays_cons, ways_word]
  cases splitWord? w t <;> rfl

end Pattern

/-! ### The body and the closing tag -/

/-- A text without closing tag has none further on. -/
theorem splitClosing?_eq_none_of_append {closing s t : Text}
    (h : splitClosing? closing (s ++ t) = none) : splitClosing? closing t = none := by
  induction s with
  | nil => exact h
  | cons c s ih =>
    rw [List.cons_append, splitClosing?] at h
    split at h
    · cases h
    · exact ih (Option.map_eq_none_iff.1 h)

/-- The first cut behind which a closing tag stands. -/
theorem findSome?_splits_word {β : Type} {closing : Text} (hne : closing ≠ [])
    (g : Text → Text × Text → β) (t : Text) :
    (splits t).findSome? (fun x => (splitWord? closing x.2).map (g x.1)) =
      (splitClosing? closing t).map fun x => g x.1 x.2 := by
  induction t generalizing g with
  | nil =>
    obtain ⟨letter, w, rfl⟩ := List.exists_cons_of_ne_nil hne
    rfl
  | cons c t ih =>
    rw [findSome?_splits_cons, ih fun s => g (c :: s), splitClosing?]
    cases splitWord? closing (c :: t) with
    | some x => rfl
    | none => cases splitClosing? closing t <;> rfl

/-- The first way to read a body and its closing tag. -/
theorem head?_partWays_body {closing : Text} (hne : closing ≠ []) (t : Text) :
    (partWays [.anything, word closing] t).head? =
      (splitClosing? closing t).map fun x => ([x.1, x.2.1], x.2.2) := by
  rw [head?_partWays_cons]
  simp only [head?_partWays_word, Option.map_map]
  exact findSome?_splits_word hne (fun s y => ([s, y.1], y.2)) t

/-! ### The opening tag -/

/-- Goes on behind a `>`. -/
def behindGt {α : Type} (follow : Text → Option α) : Text → Option α
  | [] => none
  | c :: t => if c = '>' then follow t else none

/-- The first `>` decides, where nothing can follow a later one that cannot follow an earlier
one. -/
theorem findSome?_splits_behindGt {α β : Type} {follow : Text → Option α}
    (hfollow : ∀ s u, follow (s ++ u) = none → follow u = none) (g : Text → α → β) (t : Text) :
    (splits t).findSome? (fun x => (behindGt follow x.2).map (g x.1)) =
      (behindGt follow (t.dropWhile (· ≠ '>'))).map (g (t.takeWhile (· ≠ '>'))) := by
  induction t generalizing g with
  | nil => rfl
  | cons c t ih =>
    rw [findSome?_splits_cons]
    by_cases hc : c = '>'
    · subst hc
      rw [List.dropWhile_cons_of_neg (by simp), List.takeWhile_cons_of_neg (by simp)]
      cases hread : behindGt follow ('>' :: t) with
      | some a => rfl
      | none =>
        -- nothing can follow this one, so nothing can follow the later ones
        rw [behindGt, if_pos rfl] at hread
        rw [Option.map_none, Option.none_or, List.findSome?_eq_none_iff]
        rintro ⟨s, u⟩ hmem
        rw [mem_splits_iff] at hmem
        rw [Option.map_eq_none_iff]
        cases u with
        | nil => rfl
        | cons d u =>
          rw [behindGt]
          split
          · refine hfollow (s ++ [d]) u ?_
            rwa [← List.append_cons, hmem]
          · rfl
    · rw [List.dropWhile_cons_of_pos (by simpa using hc),
        List.takeWhile_cons_of_pos (by simpa using hc), ih fun s => g (c :: s), behindGt,
        if_neg hc]
      rfl

/-- The first way to read a `>` and to go on behind it. -/
theorem head?_partWays_gt (ps : List Pattern) (t : Text) :
    (partWays (.one (· == '>') :: ps) t).head? =
      (behindGt (fun u => (partWays ps u).head?) t).map fun y => (['>'] :: y.1, y.2) := by
  rw [head?_partWays_cons]
  cases t with
  | nil => rfl
  | cons c t =>
    by_cases hc : c = '>'
    · subst hc
      rw [behindGt, if_pos rfl, ways, if_pos (by decide), List.findSome?_singleton]
    · rw [behindGt, if_neg hc, ways, if_neg (by simpa using hc)]
      rfl

/-- The first way to read what stands between the name and `>`, and to go on behind it. -/
theorem head?_partWays_opening {ps : List Pattern}
    (hps : ∀ s u, (partWays ps (s ++ u)).head? = none → (partWays ps u).head? = none) (t : Text) :
    (partWays (.maybe (.seq (.one isSpace) .anything) :: .one (· == '>') :: ps) t).head? =
      if (t.takeWhile (· ≠ '>')).head?.all isSpace then
        (behindGt (fun u => (partWays ps u).head?) (t.dropWhile (· ≠ '>'))).map fun y =>
          (t.takeWhile (· ≠ '>') :: ['>'] :: y.1, y.2)
      else none := by
  rw [head?_partWays_cons]
  simp only [head?_partWays_gt, Option.map_map]
  cases t with
  | nil => rfl
  | cons c t =>
    rw [ways, List.findSome?_append, ways, ways]
    by_cases hspace : isSpace c = true
    · -- the part in brackets is read, since a space is not the end of the tag
      have hc : c ≠ '>' := by
        rintro rfl
        exact absurd hspace (by decide)
      have hnone : behindGt (fun u => (partWays ps u).head?) (c :: t) = none := by
        rw [behindGt, if_neg hc]
      rw [if_pos hspace, List.flatMap_singleton, List.takeWhile_cons_of_pos (by simpa using hc),
        List.dropWhile_cons_of_pos (by simpa using hc), List.head?_cons, Option.all_some,
        if_pos hspace, List.findSome?_map, List.findSome?_singleton, hnone, Option.map_none,
        Option.or_none]
      exact @findSome?_splits_behindGt _ _ (fun u => (partWays ps u).head?) hps
        (fun s y => ((c :: s) :: ['>'] :: y.1, y.2)) t
    · rw [if_neg hspace, List.flatMap_nil, List.findSome?_nil, Option.none_or,
        List.findSome?_singleton]
      by_cases hc : c = '>'
      · subst hc
        rw [List.takeWhile_cons_of_neg (by simp), List.dropWhile_cons_of_neg (by simp)]
        rfl
      · rw [behindGt, if_neg hc, List.takeWhile_cons_of_pos (by simpa using hc), List.head?_cons,
          Option.all_some, if_neg hspace]
        rfl

/-- **Reading an element takes the first way of its expression.** -/
theorem head?_partWays_elementPattern (name t : Text) :
    (partWays (elementPattern name) t).head? =
      (element? name t).map fun x => (x.1.parts, x.2) := by
  have hbody := head?_partWays_body (show closingTag name ≠ [] by simp [closingTag])
  rw [elementPattern, head?_partWays_cons, ways_word, element?]
  cases splitWord? ('<' :: name) t with
  | none => rfl
  | some x =>
    obtain ⟨opened, u⟩ := x
    rw [Option.toList_some, List.findSome?_singleton, head?_partWays_opening]
    · show _ = Option.map _ (if _ then _ else none)
      split
      · cases hu : u.dropWhile (fun c => decide (c ≠ '>')) with
        | nil => rfl
        | cons c v =>
          have hc : c = '>' := by
            have := List.head?_dropWhile_not (fun c => decide (c ≠ '>')) u
            rw [hu] at this
            simpa using this
          rw [behindGt, if_pos hc, hbody]
          show _ = ((splitClosing? (closingTag name) v).bind _).map _
          cases splitClosing? (closingTag name) v <;> rfl
      · rfl
    · intro s u h
      rw [hbody, Option.map_eq_none_iff] at h ⊢
      exact splitClosing?_eq_none_of_append h

end ComponentLint.Markup
