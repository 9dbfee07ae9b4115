import ComponentLint.Proofs.Markup.Pattern
import Mathlib.Data.List.Forall2

/-!
# The elements of a document

The search for elements goes from left to right: the next element starts where the expression can
be read first, it is read in the first way, and the search goes on behind it.  The bodies of the
elements cut the document into pieces; what stands between two bodies is the closing tag of the
one, text without elements, and the opening tag of the other.

## Main definitions

* `Markup.IsForm word form` — `form` is `word`, without regard to case.
* `Markup.Begins word t` — `t` begins with `word`, without regard to case.
* `Markup.ClosesFirst closing body rest` — the first closing tag stands right behind the body.
* `Markup.Dissection name t lead cuts` — the bodies of the elements of `t`, each with what follows
  it up to the next one, and `lead` before the first one.
* `Markup.leadOf stretches`, `Markup.cutsOf stretches` — the same, computed from stretches.

## Main statements

* `Markup.dissection_scan` — **the stretches of a document are those that the search finds.**
* `Markup.Dissection.text_eq` — the pieces make up the document.
* `Markup.Dissection.closesFirst`, `Markup.Dissection.after_ne_nil` — every body goes up to the
  first closing tag, so that no two bodies touch.
-/

namespace ComponentLint.Markup

open Text Pattern

/-! ### Closing tags -/

/-- A form of a word: the same letters, without regard to case. -/
abbrev IsForm (word form : Text) : Prop :=
  List.Forall₂ (fun letter c => isFormOf letter c = true) word form

/-- A text begins with a form of a word. -/
def Begins (word t : Text) : Prop := ∃ form rest, t = form ++ rest ∧ IsForm word form

/-- The first closing tag behind the start of a body stands right behind the body. -/
def ClosesFirst (closing body rest : Text) : Prop :=
  Begins closing rest ∧ ∀ s u, s ++ u = body → u ≠ [] → ¬ Begins closing (u ++ rest)

/-- What is split off is a form of the word. -/
theorem splitWord?_eq_some_iff {word t form rest : Text} :
    splitWord? word t = some (form, rest) ↔ t = form ++ rest ∧ IsForm word form := by
  fun_induction splitWord? word t generalizing form with
  | case1 t =>
    rw [IsForm, List.forall₂_nil_left_iff, Option.some.injEq, Prod.mk.injEq]
    constructor
    · rintro ⟨rfl, rfl⟩
      exact ⟨rfl, rfl⟩
    · rintro ⟨rfl, rfl⟩
      exact ⟨rfl, rfl⟩
  | case2 letter word =>
    refine iff_of_false (by simp) ?_
    rintro ⟨heq, hform⟩
    obtain ⟨rfl, -⟩ := List.append_eq_nil_iff.1 heq.symm
    cases hform
  | case3 letter word c t hc ih =>
    rw [Option.map_eq_some_iff]
    constructor
    · rintro ⟨⟨form', rest'⟩, h, heq⟩
      obtain ⟨rfl, rfl⟩ := Prod.mk.inj heq
      obtain ⟨rfl, hform⟩ := ih.1 h
      exact ⟨rfl, .cons hc hform⟩
    · rintro ⟨heq, hform⟩
      cases hform with
      | cons hd htail =>
        obtain ⟨rfl, rfl⟩ := List.cons.inj heq
        exact ⟨_, ih.2 ⟨rfl, htail⟩, rfl⟩
  | case4 letter word c t hc =>
    refine iff_of_false (by simp) ?_
    rintro ⟨heq, hform⟩
    cases hform with
    | cons hd htail =>
      obtain ⟨rfl, -⟩ := List.cons.inj heq
      exact hc hd

/-- A word is split off exactly if the text begins with a form of it. -/
theorem splitWord?_isSome_iff {word t : Text} :
    (splitWord? word t).isSome = true ↔ Begins word t := by
  simp only [Option.isSome_iff_exists, Prod.exists, splitWord?_eq_some_iff, Begins]

theorem Begins.ne_nil {word t : Text} (h : Begins word t) (hword : word ≠ []) : t ≠ [] := by
  obtain ⟨form, rest, rfl, hform⟩ := h
  cases hform with
  | nil => exact absurd rfl hword
  | cons => exact List.cons_ne_nil _ _

/-- A body is split off at the first closing tag, together with the tag. -/
theorem closesFirst_of_splitClosing? {closing t body tag rest : Text}
    (h : splitClosing? closing t = some (body, tag, rest)) :
    ClosesFirst closing body (tag ++ rest) ∧ IsForm closing tag := by
  induction t generalizing body with
  | nil => cases h
  | cons c t ih =>
    rw [splitClosing?] at h
    split at h
    next tag' rest' hw =>
      obtain ⟨rfl, rfl, rfl⟩ := by simpa using h
      have hform := (splitWord?_eq_some_iff.1 hw).2
      refine ⟨⟨⟨tag', rest', rfl, hform⟩, ?_⟩, hform⟩
      intro s u hs hu
      exact absurd (List.append_eq_nil_iff.1 hs).2 hu
    next hw =>
      obtain ⟨⟨body', tag', rest'⟩, hparts, heq⟩ := Option.map_eq_some_iff.1 h
      obtain ⟨rfl, rfl, rfl⟩ := by simpa using heq
      obtain ⟨⟨hbegins, hfirst⟩, htag⟩ := ih hparts
      refine ⟨⟨hbegins, ?_⟩, htag⟩
      intro s u hs hu
      cases s with
      | nil =>
        -- no tag starts at the first character of the body, which was passed over
        obtain rfl : u = c :: body' := hs
        rw [List.cons_append, ← List.append_assoc, append_of_splitClosing? hparts,
          ← splitWord?_isSome_iff, hw]
        decide
      | cons d s =>
        obtain ⟨-, hs⟩ := List.cons.inj hs
        exact hfirst s u hs hu

/-- The body of an element goes up to the first closing tag, which is its own. -/
theorem closesFirst_of_element? {name t rest : Text} {e : Element}
    (h : element? name t = some (e, rest)) :
    ClosesFirst (closingTag name) e.body (e.closing ++ rest) ∧
      Begins (closingTag name) e.closing := by
  simp only [element?, Option.bind_eq_bind, Option.bind_eq_some_iff] at h
  obtain ⟨⟨opened, u⟩, -, h⟩ := h
  split at h
  next =>
    split at h
    next => cases h
    next =>
      simp only [Option.bind_eq_some_iff, Option.pure_def, Option.some.injEq, Prod.mk.injEq] at h
      obtain ⟨⟨body, closing, rest'⟩, hc, rfl, rfl⟩ := h
      obtain ⟨hfirst, hform⟩ := closesFirst_of_splitClosing? hc
      exact ⟨hfirst, closing, [], (List.append_nil closing).symm, hform⟩
  next => cases h

/-! ### The search from left to right -/

/-- The bodies of the elements of a document, each with what follows it up to the next one, and
what stands before the first one. -/
inductive Dissection (name : Text) : Text → Text → List (Text × Text) → Prop
  /-- No element starts anywhere. -/
  | nothing {t : Text}
      (hnone : ∀ s u, s ++ u = t → partWays (elementPattern name) u = []) :
      Dissection name t t []
  /-- The first element starts behind `gap`, and the search goes on behind it. -/
  | element {gap rest lead : Text} {e : Element} {cuts : List (Text × Text)}
      (hgap : ∀ s u, s ++ u = gap → u ≠ [] →
        partWays (elementPattern name) (u ++ (e.text ++ rest)) = [])
      (hfirst : (partWays (elementPattern name) (e.text ++ rest)).head? = some (e.parts, rest))
      (hrest : Dissection name rest lead cuts) :
      Dissection name (gap ++ (e.text ++ rest)) (gap ++ e.opening)
        ((e.body, e.closing ++ lead) :: cuts)

/-- What stands before the first body. -/
def leadOf : List Stretch → Text
  | [] => []
  | .plain c :: rest => c :: leadOf rest
  | .element e :: _ => e.opening

/-- The bodies, each with what follows it up to the next one. -/
def cutsOf : List Stretch → List (Text × Text)
  | [] => []
  | .plain _ :: rest => cutsOf rest
  | .element e :: rest => (e.body, e.closing ++ leadOf rest) :: cutsOf rest

/-- No element starts at a text exactly if there is no way to read its expression. -/
theorem partWays_elementPattern_eq_nil_iff {name t : Text} :
    partWays (elementPattern name) t = [] ↔ element? name t = none := by
  rw [← List.head?_eq_none_iff, head?_partWays_elementPattern, Option.map_eq_none_iff]

theorem Element.parts_injective {e f : Element} (h : e.parts = f.parts) : e = f := by
  obtain ⟨name, attributes, body, closing⟩ := e
  obtain ⟨name', attributes', body', closing'⟩ := f
  simpa [Element.parts] using h

/-- An element starts at a text exactly if it is the first way to read its expression. -/
theorem head?_partWays_eq_some_iff {name t rest : Text} {e : Element} :
    (partWays (elementPattern name) t).head? = some (e.parts, rest) ↔
      element? name t = some (e, rest) := by
  rw [head?_partWays_elementPattern]
  constructor
  · intro h
    obtain ⟨⟨f, rest'⟩, hf, heq⟩ := Option.map_eq_some_iff.1 h
    obtain ⟨hparts, rfl⟩ := Prod.mk.inj heq
    obtain rfl : f = e := Element.parts_injective hparts
    exact hf
  · intro h
    rw [h]
    rfl

/-- A character at which no element starts comes before the first element. -/
theorem Dissection.cons {name t lead : Text} {cuts : List (Text × Text)} {c : Char}
    (hc : element? name (c :: t) = none) (h : Dissection name t lead cuts) :
    Dissection name (c :: t) (c :: lead) cuts := by
  rw [← partWays_elementPattern_eq_nil_iff] at hc
  cases h with
  | nothing hnone =>
    refine .nothing fun s u hs => ?_
    cases s with
    | nil => rwa [show u = c :: t from hs]
    | cons d s => exact hnone s u (List.cons.inj hs).2
  | @element gap rest lead e cuts hgap hfirst hrest =>
    show Dissection name (c :: gap ++ (e.text ++ rest)) (c :: gap ++ e.opening) _
    refine .element (fun s u hs hu => ?_) hfirst hrest
    cases s with
    | nil =>
      rw [show u = c :: gap from hs]
      exact hc
    | cons d s => exact hgap s u (List.cons.inj hs).2 hu

/-- **The stretches of a document are those that the search finds.** -/
theorem dissection_scan (name t : Text) :
    Dissection name t (leadOf (scan name t)) (cutsOf (scan name t)) := by
  fun_induction scan name t with
  | case1 =>
    refine .nothing fun s u hs => ?_
    obtain ⟨-, rfl⟩ := List.append_eq_nil_iff.1 hs
    rfl
  | case2 c t e rest h _ ih =>
    have hfirst := head?_partWays_eq_some_iff.2 h
    rw [← append_of_element? h] at hfirst ⊢
    show Dissection name ([] ++ (e.text ++ rest)) ([] ++ e.opening) _
    exact .element (by simp) hfirst ih
  | case3 c t h ih => exact ih.cons h

/-- The pieces make up the document. -/
theorem Dissection.text_eq {name t lead : Text} {cuts : List (Text × Text)}
    (h : Dissection name t lead cuts) : t = lead ++ cuts.flatMap fun x => x.1 ++ x.2 := by
  induction h with
  | nothing => simp
  | element _ _ _ ih =>
    conv_lhs => rw [ih]
    simp [Element.text]

/-- Every body goes up to the first closing tag. -/
theorem Dissection.closesFirst {name t lead : Text} {cuts before later : List (Text × Text)}
    {body after : Text} (h : Dissection name t lead cuts)
    (hcuts : cuts = before ++ (body, after) :: later) :
    ClosesFirst (closingTag name) body (after ++ later.flatMap fun x => x.1 ++ x.2) := by
  induction h generalizing before with
  | nothing => cases before <;> cases hcuts
  | element _ hfirst hrest ih =>
    cases before with
    | nil =>
      obtain ⟨hhead, rfl⟩ := List.cons.inj hcuts
      obtain ⟨rfl, rfl⟩ := Prod.mk.inj hhead
      rw [List.append_assoc, ← hrest.text_eq]
      exact (closesFirst_of_element? (head?_partWays_eq_some_iff.1 hfirst)).1
    | cons x before => exact ih (List.cons.inj hcuts).2

/-- Two bodies do not touch: there is a closing tag behind each of them. -/
theorem Dissection.after_ne_nil {name t lead : Text} {cuts : List (Text × Text)}
    (h : Dissection name t lead cuts) : ∀ x ∈ cuts, x.2 ≠ [] := by
  induction h with
  | nothing => simp
  | element _ hfirst _ ih =>
    have hclosing := (closesFirst_of_element? (head?_partWays_eq_some_iff.1 hfirst)).2
    rintro x (_ | ⟨_, hx⟩)
    · exact List.append_ne_nil_of_left_ne_nil (hclosing.ne_nil (List.cons_ne_nil _ _)) _
    · exact ih x hx

end ComponentLint.Markup
