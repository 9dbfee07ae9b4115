import ComponentLint.Text.Whitespace

/-!
# Elements with a raw body

The `script` and `style` elements of a document are found without parsing the markup around them.
An element opens with `<` and its name, either directly followed by `>` or by whitespace and
anything up to the next `>`; its body goes up to the first closing tag.  Names are compared
without regard to case, where the long s is a form of the letter s.  The search goes from left to
right, and elements do not overlap.

## Main definitions

* `Markup.Element` — an element that was found.
* `Markup.element? name t` — the element `t` starts with, and what follows it.
* `Markup.Stretch` — a character outside the elements, or an element.
* `Markup.scan name t` — the text `t` as a list of stretches.

## Main statements

* `Markup.append_of_element?` — an element and what follows it make up the text.
* `Markup.flatMap_text_scan` — the stretches make up the text.
-/

namespace ComponentLint.Markup

open Text

/-- Whether a character is a form of a lower-case letter. -/
def isFormOf (letter c : Char) : Bool :=
  c.toLower == letter || (letter == 's' && c == '\u017f')

/-- Splits a text that starts with a form of `word` behind it. -/
def splitWord? : (word : Text) → Text → Option (Text × Text)
  | [], t => some ([], t)
  | _ :: _, [] => none
  | letter :: word, c :: t =>
    if isFormOf letter c then
      (splitWord? word t).map fun parts => (c :: parts.1, parts.2)
    else none

/-- What is read of a text makes up the text together with the rest. -/
theorem append_of_splitWord? {word t a b : Text} (h : splitWord? word t = some (a, b)) :
    a ++ b = t := by
  fun_induction splitWord? word t generalizing a b with
  | case1 t =>
    simp only [Option.some.injEq, Prod.mk.injEq] at h
    simp [← h.1, ← h.2]
  | case2 => simp at h
  | case3 letter word c t hc ih =>
    obtain ⟨parts, hp, heq⟩ := Option.map_eq_some_iff.1 h
    simp only [Prod.mk.injEq] at heq
    simp [← heq.1, ← heq.2, ih hp]
  | case4 => simp at h

/-- An element of a document. -/
structure Element where
  /-- The opening `<` and the name. -/
  name : Text
  /-- What stands between the name and `>`. -/
  attributes : Text
  /-- The body. -/
  body : Text
  /-- The closing tag. -/
  closing : Text
  deriving DecidableEq, Repr

namespace Element

/-- The opening tag. -/
def opening (e : Element) : Text := e.name ++ e.attributes ++ ['>']

/-- The text of the whole element. -/
def text (e : Element) : Text := e.opening ++ e.body ++ e.closing

end Element

/-- The closing tag of a name. -/
def closingTag (name : Text) : Text := '<' :: '/' :: name ++ ['>']

/-- Splits a text at the first form of a closing tag: the body before it, the tag, and what
follows. -/
def splitClosing? (closing : Text) : Text → Option (Text × Text × Text)
  | [] => none
  | c :: t =>
    match splitWord? closing (c :: t) with
    | some (tag, rest) => some ([], tag, rest)
    | none => (splitClosing? closing t).map fun parts => (c :: parts.1, parts.2)

/-- The body, the closing tag and what follows make up the text. -/
theorem append_of_splitClosing? {closing t body tag rest : Text}
    (h : splitClosing? closing t = some (body, tag, rest)) : body ++ tag ++ rest = t := by
  induction t generalizing body with
  | nil => simp [splitClosing?] at h
  | cons c t ih =>
    rw [splitClosing?] at h
    split at h
    next tag' rest' hw =>
      simp only [Option.some.injEq, Prod.mk.injEq] at h
      obtain ⟨rfl, rfl, rfl⟩ := h
      simpa using append_of_splitWord? hw
    next =>
      obtain ⟨parts, hp, heq⟩ := Option.map_eq_some_iff.1 h
      simp only [Prod.mk.injEq] at heq
      obtain ⟨rfl, htail⟩ := heq
      have := @ih parts.1 (by rw [hp, ← htail])
      simpa using this

/-- The element of a name that a text starts with, and what follows it. -/
def element? (name : Text) (t : Text) : Option (Element × Text) := do
  let (opened, t) ← splitWord? ('<' :: name) t
  let attributes := t.takeWhile (· ≠ '>')
  if attributes.head?.all isSpace then
    match t.dropWhile (· ≠ '>') with
    | [] => none
    | _ :: t => do
      let (body, closing, rest) ← splitClosing? (closingTag name) t
      return (⟨opened, attributes, body, closing⟩, rest)
  else none

/-- An element and what follows it make up the text. -/
theorem append_of_element? {name t rest : Text} {e : Element}
    (h : element? name t = some (e, rest)) : e.text ++ rest = t := by
  simp only [element?, Option.bind_eq_bind, Option.bind_eq_some_iff] at h
  obtain ⟨⟨opened, u⟩, hw, h⟩ := h
  split at h
  next =>
    split at h
    next => simp at h
    next c v hv =>
      simp only [Option.bind_eq_some_iff, Option.pure_def, Option.some.injEq,
        Prod.mk.injEq] at h
      obtain ⟨⟨body, closing, rest'⟩, hc, rfl, rfl⟩ := h
      -- The first character that is not passed over is the end of the opening tag.
      have hgt : c = '>' := by
        have := List.head?_dropWhile_not (fun c => decide (c ≠ '>')) u
        rw [hv] at this
        simpa using this
      subst hgt
      have hu : u.takeWhile (fun c => decide (c ≠ '>')) ++ '>' :: v = u := by
        rw [← hv]; exact List.takeWhile_append_dropWhile
      calc
        _ = opened ++ (u.takeWhile (fun c => decide (c ≠ '>')) ++
              '>' :: (body ++ closing ++ rest')) := by simp [Element.text, Element.opening]
        _ = opened ++ u := by rw [append_of_splitClosing? hc, hu]
        _ = t := append_of_splitWord? hw
  next => simp at h

/-- An element is not empty. -/
theorem Element.length_text_pos (e : Element) : 0 < e.text.length := by
  simp only [Element.text, Element.opening, List.length_append, List.length_cons]
  omega

/-- What follows an element is shorter than the text. -/
theorem length_lt_of_element? {name t rest : Text} {e : Element}
    (h : element? name t = some (e, rest)) : rest.length < t.length := by
  have htext := congrArg List.length (append_of_element? h)
  have hpos := e.length_text_pos
  rw [List.length_append] at htext
  omega

/-- A stretch of a document that is searched for elements. -/
inductive Stretch where
  /-- A character outside the elements. -/
  | plain (c : Char)
  | element (e : Element)
  deriving DecidableEq, Repr

/-- The text of a stretch. -/
def Stretch.text : Stretch → Text
  | .plain c => [c]
  | .element e => e.text

/-- A document as a list of stretches: from left to right, an element wherever one starts. -/
def scan (name : Text) : Text → List Stretch
  | [] => []
  | c :: t =>
    match h : element? name (c :: t) with
    | some (e, rest) =>
      have := length_lt_of_element? h
      .element e :: scan name rest
    | none => .plain c :: scan name t
termination_by t => t.length
decreasing_by
  · assumption
  · exact Nat.lt_succ_self _

/-- The stretches make up the document. -/
theorem flatMap_text_scan (name t : Text) : (scan name t).flatMap Stretch.text = t := by
  fun_induction scan name t with
  | case1 => rfl
  | case2 c t e rest h _ ih => simp [Stretch.text, ih, append_of_element? h]
  | case3 c t h ih => simp [Stretch.text, ih]

end ComponentLint.Markup
