/-!
# Texts and byte offsets

A text is a list of characters.  Compilers and linters speak of a text in UTF-8 bytes, so every
offset into a text is a byte offset, and a text can be cut only between two characters.

## Main definitions

* `Text` — a text, character by character.
* `Text.size t` — the number of bytes of `t`.
* `Text.cut? t n` — the two parts of `t` before and after byte `n`, if a character ends there.
* `Text.slice? t i j` — the part of `t` between bytes `i` and `j`.
* `Text.shortenStart t n`, `Text.shortenEnd t n` — `t` without at least `n` bytes of one end.
* `Text.spaces n` — `n` spaces.

## Main statements

* `cut?_eq_some_iff` — a text is cut exactly at the byte counts of its initial parts.
* `slice?_eq_some_iff` — a slice is what stands between an initial part and the rest.
-/

namespace ComponentLint

/-- A text, character by character. -/
abbrev Text := List Char

namespace Text

/-- The number of bytes of a text. -/
def size (t : Text) : Nat := t.foldr (fun c n => c.utf8Size + n) 0

@[simp] theorem size_nil : size [] = 0 := rfl

@[simp] theorem size_cons (c : Char) (t : Text) : size (c :: t) = c.utf8Size + size t :=
  rfl

@[simp] theorem size_append (s t : Text) : size (s ++ t) = size s + size t := by
  induction s with
  | nil => simp
  | cons c s ih => simp [ih, Nat.add_assoc]

@[simp] theorem size_reverse (t : Text) : size t.reverse = size t := by
  induction t with
  | nil => rfl
  | cons c t ih => simp [ih, Nat.add_comm]

/-- The parts of a text before and after a byte offset.  There are none if the offset lies past
the end or inside a character. -/
def cut? : Text → Nat → Option (Text × Text)
  | t, 0 => some ([], t)
  | [], _ + 1 => none
  | c :: t, n + 1 =>
    if c.utf8Size ≤ n + 1 then
      (cut? t (n + 1 - c.utf8Size)).map fun parts => (c :: parts.1, parts.2)
    else none

@[simp] theorem cut?_zero (t : Text) : cut? t 0 = some ([], t) := by
  cases t <;> rfl

/-- A text is cut exactly at the byte counts of its initial parts. -/
theorem cut?_eq_some_iff {t before after : Text} {n : Nat} :
    cut? t n = some (before, after) ↔ t = before ++ after ∧ size before = n := by
  fun_induction cut? t n generalizing before after with
  | case1 t =>
    constructor
    · intro h
      obtain ⟨rfl, rfl⟩ := Prod.mk.inj (Option.some.inj h)
      exact ⟨rfl, rfl⟩
    · rintro ⟨rfl, h⟩
      cases before with
      | nil => rfl
      | cons c s =>
        have := c.utf8Size_pos
        rw [size_cons] at h
        omega
  | case2 n =>
    constructor
    · intro h
      cases h
    · rintro ⟨h, hn⟩
      obtain ⟨rfl, -⟩ := List.append_eq_nil_iff.1 h.symm
      cases hn
  | case3 c t n hc ih =>
    rw [Option.map_eq_some_iff]
    constructor
    · rintro ⟨⟨s, r⟩, h, heq⟩
      obtain ⟨rfl, rfl⟩ := Prod.mk.inj heq
      obtain ⟨rfl, hs⟩ := ih.1 h
      refine ⟨rfl, ?_⟩
      show c.utf8Size + size s = n + 1
      omega
    · rintro ⟨h, hn⟩
      cases before with
      | nil => cases hn
      | cons d s =>
        rw [List.cons_append, List.cons.injEq] at h
        obtain ⟨rfl, rfl⟩ := h
        rw [size_cons] at hn
        exact ⟨(s, after), ih.2 ⟨rfl, by omega⟩, rfl⟩
  | case4 c t n hc =>
    constructor
    · intro h
      cases h
    · rintro ⟨h, hn⟩
      cases before with
      | nil => cases hn
      | cons d s =>
        rw [List.cons_append, List.cons.injEq] at h
        obtain ⟨rfl, rfl⟩ := h
        rw [size_cons] at hn
        omega

/-- The part of a text from byte `start` up to byte `stop`.  There is none if the offsets are in
the wrong order, past the end or inside a character. -/
def slice? (t : Text) (start stop : Nat) : Option Text :=
  if start ≤ stop then
    (cut? t start).bind fun parts => (cut? parts.2 (stop - start)).map Prod.fst
  else none

/-- A slice is what stands between a part of `start` bytes and the rest. -/
theorem slice?_eq_some_iff {t middle : Text} {start stop : Nat} :
    slice? t start stop = some middle ↔
      ∃ before after, t = before ++ middle ++ after ∧ size before = start ∧
        start + size middle = stop := by
  unfold slice?
  constructor
  · intro h
    split at h
    · next hle =>
      obtain ⟨⟨before, rest⟩, hb, h⟩ := Option.bind_eq_some_iff.1 h
      obtain ⟨⟨m, after⟩, hm, rfl⟩ := Option.map_eq_some_iff.1 h
      obtain ⟨rfl, rfl⟩ := cut?_eq_some_iff.1 hb
      obtain ⟨rfl, hs⟩ := cut?_eq_some_iff.1 hm
      refine ⟨before, after, (List.append_assoc ..).symm, rfl, ?_⟩
      show size before + size m = stop
      omega
    · cases h
  · rintro ⟨before, after, rfl, rfl, rfl⟩
    rw [if_pos (Nat.le_add_right ..), List.append_assoc, cut?_eq_some_iff.2 ⟨rfl, rfl⟩,
      Option.bind_some, Nat.add_sub_cancel_left, cut?_eq_some_iff.2 ⟨rfl, rfl⟩]
    rfl

/-- Drops whole characters from the front until at least `n` bytes are gone. -/
def shortenStart : Text → Nat → Text
  | t, 0 => t
  | [], _ + 1 => []
  | c :: t, n + 1 => shortenStart t (n + 1 - c.utf8Size)

/-- Drops whole characters from the back until at least `n` bytes are gone. -/
def shortenEnd (t : Text) (n : Nat) : Text := (shortenStart t.reverse n).reverse

/-- A run of spaces. -/
def spaces (n : Nat) : Text := List.replicate n ' '

@[simp] theorem size_spaces (n : Nat) : size (spaces n) = n := by
  induction n with
  | zero => rfl
  | succ n ih =>
    rw [spaces, List.replicate_succ, size_cons, ← spaces, ih]
    exact Nat.add_comm _ _

theorem mem_spaces {n : Nat} {c : Char} (h : c ∈ spaces n) : c = ' ' := List.eq_of_mem_replicate h

end Text

end ComponentLint
