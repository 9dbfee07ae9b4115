import ComponentLint.Position
import ComponentLint.Text.Lines

/-!
# The bytes of a text

Offsets and columns count the bytes of the UTF-8 encoding, and an offset may point into the middle
of a character.  Statements about every offset are therefore made about the bytes of a text.  A
line feed is one byte, and that byte occurs in no other character, so that lines can be counted
either way.

## Main definitions

* `Text.bytes t` — the bytes of `t`.
* `feed`, `ret` — the bytes of a line feed and of a carriage return.
* `lastRow sep l` — what follows the last `sep` in `l`.
* `Text.feedPlace t n` — the place of byte `n` when only line feeds end a line.

## Main statements

* `getElem?_bytes_eq_some_iff` — a byte below 128 stands where its character does.
* `count_feed_bytes` — line feeds are counted by their byte.
* `bytes_lastLine` — the last line is found by that byte.
* `feedPlace_size` — between two characters, a place is measured on the text before it.
-/

namespace ComponentLint

/-! ### The last row of a list -/

section LastRow

variable {α : Type} [DecidableEq α]

/-- What follows the last separator in a list. -/
def lastRow (sep : α) (l : List α) : List α := (l.reverse.takeWhile (· ≠ sep)).reverse

@[simp] theorem lastRow_nil (sep : α) : lastRow sep [] = [] := rfl

/-- Without a separator in it, a list continues the last row of what stands before it. -/
theorem lastRow_append_of_notMem {sep : α} (l : List α) {r : List α} (h : sep ∉ r) :
    lastRow sep (l ++ r) = lastRow sep l ++ r := by
  unfold lastRow
  have hall : ∀ a ∈ r.reverse, decide (a ≠ sep) = true := by
    intro a ha
    refine decide_eq_true fun heq => h ?_
    rw [← heq]
    exact List.mem_reverse.1 ha
  rw [List.reverse_append, List.takeWhile_append_of_pos hall, List.reverse_append,
    List.reverse_reverse]

/-- What stands before a separator does not matter. -/
@[simp] theorem lastRow_append_cons (sep : α) (l r : List α) :
    lastRow sep (l ++ sep :: r) = lastRow sep r := by
  unfold lastRow
  rw [List.reverse_append, List.reverse_cons, List.append_assoc, List.takeWhile_append]
  split
  · next h =>
    rw [(List.takeWhile_prefix _).eq_of_length h, List.singleton_append,
      List.takeWhile_cons_of_neg (by simp), List.append_nil]
  · rfl

/-- A list without separators is one row. -/
theorem lastRow_of_notMem {sep : α} {l : List α} (h : sep ∉ l) : lastRow sep l = l := by
  simpa using lastRow_append_of_notMem [] h

/-- A list has no separator, or ends with a last row after one. -/
theorem notMem_or_exists_append_cons (sep : α) (l : List α) :
    sep ∉ l ∨ ∃ s r, l = s ++ sep :: r ∧ sep ∉ r := by
  by_cases h : sep ∈ l
  · obtain ⟨r, s, hr, hsep⟩ := List.eq_append_cons_of_mem (List.mem_reverse.2 h)
    refine Or.inr ⟨s.reverse, r.reverse, ?_, fun hm => hsep (List.mem_reverse.1 hm)⟩
    rw [← List.reverse_reverse l, hr, List.reverse_append, List.reverse_cons, List.append_assoc]
    rfl
  · exact Or.inl h

theorem length_lastRow_le (sep : α) (l : List α) : (lastRow sep l).length ≤ l.length := by
  have h := (List.takeWhile_sublist (fun a => decide (a ≠ sep)) (l := l.reverse)).length_le
  rwa [lastRow, List.length_reverse, ← l.length_reverse]

end LastRow

namespace Text

/-! ### Sizes -/

theorem size_eq_zero {t : Text} : size t = 0 ↔ t = [] := by
  cases t with
  | nil => exact iff_of_true rfl rfl
  | cons c t =>
    have := c.utf8Size_pos
    rw [size_cons]
    exact iff_of_false (by omega) (List.cons_ne_nil c t)

/-- An initial part that is at least as large as another one begins with it. -/
theorem exists_append_of_size_le {a b u r : Text} (h : a ++ b = u ++ r)
    (hle : size a ≤ size u) : ∃ x, u = a ++ x ∧ b = x ++ r := by
  rcases List.append_eq_append_iff.1 h with ⟨x, hx, hb⟩ | ⟨x, rfl, rfl⟩
  · exact ⟨x, hx, hb⟩
  · rw [size_append] at hle
    obtain rfl : x = [] := size_eq_zero.1 (by omega)
    exact ⟨[], by rw [List.append_nil, List.append_nil], rfl⟩

/-! ### Ranges -/

/-- What stands before a range of a text, in it and behind it. -/
theorem exists_range {t : Text} {start stop : Nat} (hle : start ≤ stop)
    (hstart : (cut? t start).isSome) (hstop : (cut? t stop).isSome) :
    ∃ u y v, t = u ++ y ++ v ∧ start = size u ∧ stop = size u + size y := by
  obtain ⟨⟨u, r⟩, hu⟩ := Option.isSome_iff_exists.1 hstart
  obtain ⟨⟨s, v⟩, hs⟩ := Option.isSome_iff_exists.1 hstop
  obtain ⟨rfl, rfl⟩ := cut?_eq_some_iff.1 hu
  obtain ⟨hcut, rfl⟩ := cut?_eq_some_iff.1 hs
  obtain ⟨y, rfl, rfl⟩ := exists_append_of_size_le hcut hle
  exact ⟨u, y, v, (List.append_assoc ..).symm, rfl, size_append ..⟩

/-- A slice behind an initial part is a slice of the rest. -/
theorem slice?_append_right (s t : Text) (start stop : Nat) :
    slice? (s ++ t) (size s + start) (size s + stop) = slice? t start stop := by
  ext middle
  rw [slice?_eq_some_iff, slice?_eq_some_iff]
  constructor
  · rintro ⟨before, after, ht, hstart, hstop⟩
    rw [List.append_assoc] at ht
    obtain ⟨x, rfl, rfl⟩ := exists_append_of_size_le ht (by omega)
    rw [size_append] at hstart
    exact ⟨x, after, (List.append_assoc ..).symm, by omega, by omega⟩
  · rintro ⟨before, after, rfl, hstart, hstop⟩
    refine ⟨s ++ before, after, by simp only [List.append_assoc], ?_, by omega⟩
    rw [size_append, hstart]

/-! ### Encoding -/

/-- The bytes of a text. -/
def bytes (t : Text) : List UInt8 := t.flatMap String.utf8EncodeChar

@[simp] theorem bytes_nil : bytes [] = [] := rfl

@[simp] theorem bytes_cons (c : Char) (t : Text) :
    bytes (c :: t) = String.utf8EncodeChar c ++ bytes t := rfl

@[simp] theorem bytes_append (s t : Text) : bytes (s ++ t) = bytes s ++ bytes t :=
  List.flatMap_append

@[simp] theorem length_bytes (t : Text) : (bytes t).length = size t := by
  induction t with
  | nil => rfl
  | cons c t ih => rw [bytes_cons, List.length_append, String.length_utf8EncodeChar, ih, size_cons]

/-- The bytes behind an initial part. -/
theorem getElem?_bytes_append (s t : Text) (i : Nat) :
    (bytes (s ++ t))[size s + i]? = (bytes t)[i]? := by
  rw [bytes_append, ← length_bytes, List.getElem?_append_right (Nat.le_add_right _ _),
    Nat.add_sub_cancel_left]

/-- The bytes of an initial part. -/
theorem getElem?_bytes_append_left {s t : Text} {i : Nat} (h : i < size s) :
    (bytes (s ++ t))[i]? = (bytes s)[i]? := by
  rw [bytes_append, List.getElem?_append_left (by rwa [length_bytes])]

end Text

/-! ### Bytes below 128 -/

/-- A byte below 128 is none with a number from 128 on. -/
private theorem ne_ofNat_of_le {b : UInt8} (hb : b.toNat < 128) {n : Nat} (hn : n < 256)
    (h : 128 ≤ n) : b ≠ UInt8.ofNat n := by
  rintro rfl
  rw [UInt8.toNat_ofNat_of_lt' hn] at hb
  omega

/-- A byte below 128 is the number of the one character in which it occurs. -/
theorem toNat_eq_of_mem_utf8EncodeChar {c : Char} {b : UInt8} (hb : b.toNat < 128)
    (h : b ∈ String.utf8EncodeChar c) : c.val.toNat = b.toNat := by
  revert h
  fun_cases String.utf8EncodeChar c <;> intro h
  case case1 v hv =>
    rw [List.mem_singleton] at h
    rw [h, UInt8.toNat_ofNat_of_lt' (Nat.lt_of_le_of_lt hv (by decide))]
  -- every byte of a longer character is at least 128
  all_goals simp only [List.mem_cons, List.not_mem_nil, or_false] at h
  case case2 => rcases h with h | h <;> exact absurd h (ne_ofNat_of_le hb (by omega) (by omega))
  case case3 => rcases h with h | h | h <;> exact absurd h (ne_ofNat_of_le hb (by omega) (by omega))
  case case4 =>
    rcases h with h | h | h | h <;> exact absurd h (ne_ofNat_of_le hb (by omega) (by omega))

/-- A byte below 128 that is all of one character occurs in no other one. -/
theorem eq_of_mem_utf8EncodeChar {c d : Char} {b : UInt8} (hb : b.toNat < 128)
    (hc : String.utf8EncodeChar c = [b]) (h : b ∈ String.utf8EncodeChar d) : d = c := by
  have hdb := toNat_eq_of_mem_utf8EncodeChar hb h
  have hcb := toNat_eq_of_mem_utf8EncodeChar (c := c) hb (by rw [hc]; exact List.mem_cons_self)
  exact Char.ext (UInt32.toNat_inj.1 (hdb.trans hcb.symm))

/-- The byte of a line feed. -/
def feed : UInt8 := 10

@[simp] theorem utf8EncodeChar_feed : String.utf8EncodeChar '\n' = [feed] := by decide

/-- The byte of a carriage return. -/
def ret : UInt8 := 13

@[simp] theorem utf8EncodeChar_ret : String.utf8EncodeChar '\r' = [ret] := by decide

/-- The byte of a line feed occurs in no other character. -/
theorem feed_notMem_utf8EncodeChar {c : Char} (h : c ≠ '\n') :
    feed ∉ String.utf8EncodeChar c :=
  fun hmem => h (eq_of_mem_utf8EncodeChar (by decide) utf8EncodeChar_feed hmem)

namespace Text

/-- A byte that is all of one character stands where that character does. -/
theorem getElem?_bytes_eq_some_iff {c : Char} {b : UInt8} (hb : b.toNat < 128)
    (hc : String.utf8EncodeChar c = [b]) {t : Text} {n : Nat} :
    (bytes t)[n]? = some b ↔ ∃ s r, t = s ++ c :: r ∧ size s = n := by
  constructor
  · intro h
    induction t generalizing n with
    | nil => cases h
    | cons d t ih =>
      rw [bytes_cons] at h
      rcases Nat.lt_or_ge n (String.utf8EncodeChar d).length with hn | hn
      · rw [List.getElem?_append_left hn] at h
        obtain rfl := eq_of_mem_utf8EncodeChar hb hc (List.mem_of_getElem? h)
        rw [hc, List.length_singleton, Nat.lt_one_iff] at hn
        exact ⟨[], t, rfl, hn.symm⟩
      · rw [List.getElem?_append_right hn] at h
        obtain ⟨s, r, rfl, hs⟩ := ih h
        rw [String.length_utf8EncodeChar] at hn hs
        refine ⟨d :: s, r, rfl, ?_⟩
        rw [size_cons]
        omega
  · rintro ⟨s, r, rfl, rfl⟩
    rw [bytes_append, bytes_cons, hc, ← length_bytes, List.getElem?_append_right (Nat.le_refl _),
      Nat.sub_self]
    rfl

/-- The byte behind an initial part is a line feed exactly if that is what follows it. -/
theorem getElem?_bytes_size_eq_feed_iff (s r : Text) :
    (bytes (s ++ r))[size s]? = some feed ↔ r.head? = some '\n' := by
  rw [bytes_append, ← length_bytes, List.getElem?_append_right (Nat.le_refl _), Nat.sub_self,
    getElem?_bytes_eq_some_iff (by decide) utf8EncodeChar_feed, List.head?_eq_some_iff]
  constructor
  · rintro ⟨s, r, rfl, hs⟩
    obtain rfl := size_eq_zero.1 hs
    exact ⟨r, rfl⟩
  · rintro ⟨r, rfl⟩
    exact ⟨[], r, rfl, rfl⟩

/-! ### Lines by bytes -/

/-- Line feeds are counted by their byte. -/
@[simp] theorem count_feed_bytes (t : Text) : (bytes t).count feed = t.count '\n' := by
  induction t with
  | nil => rfl
  | cons c t ih =>
    rw [bytes_cons, List.count_append, ih]
    by_cases h : c = '\n'
    · subst h
      rw [utf8EncodeChar_feed, List.count_singleton_self, List.count_cons_self, Nat.add_comm]
    · rw [List.count_eq_zero_of_not_mem (feed_notMem_utf8EncodeChar h), List.count_cons_of_ne h,
        Nat.zero_add]

theorem feed_mem_bytes_iff {t : Text} : feed ∈ bytes t ↔ '\n' ∈ t := by
  rw [← List.count_pos_iff, count_feed_bytes, List.count_pos_iff]

theorem lastLine_eq_lastRow (t : Text) : lastLine t = lastRow '\n' t := rfl

/-- The last line is found by the byte of a line feed. -/
theorem bytes_lastLine (t : Text) : bytes (lastLine t) = lastRow feed (bytes t) := by
  rw [lastLine_eq_lastRow]
  rcases notMem_or_exists_append_cons '\n' t with h | ⟨s, l, rfl, hl⟩
  · rw [lastRow_of_notMem h, lastRow_of_notMem fun hm => h (feed_mem_bytes_iff.1 hm)]
  · rw [lastRow_append_cons, lastRow_of_notMem hl, bytes_append, bytes_cons, utf8EncodeChar_feed]
    rw [List.singleton_append, lastRow_append_cons,
      lastRow_of_notMem fun hm => hl (feed_mem_bytes_iff.1 hm)]

/-- The place of a byte offset when only line feeds end a line. -/
def feedPlace (t : Text) (offset : Nat) : Place where
  line := ((bytes t).take offset).count feed
  column := (lastRow feed ((bytes t).take offset)).length

theorem feedPlace_line_le (t : Text) (offset : Nat) : (feedPlace t offset).line ≤ offset :=
  Nat.le_trans List.count_le_length (List.length_take_le ..)

theorem feedPlace_column_le (t : Text) (offset : Nat) : (feedPlace t offset).column ≤ offset :=
  Nat.le_trans (length_lastRow_le ..) (List.length_take_le ..)

/-- Between two characters, a place is measured on the text before it. -/
theorem feedPlace_size (s t : Text) :
    feedPlace (s ++ t) (size s) = ⟨s.count '\n', size (lastLine s)⟩ := by
  have htake : (bytes (s ++ t)).take (size s) = bytes s := by
    rw [bytes_append, ← length_bytes, List.take_left]
  rw [feedPlace, htake, count_feed_bytes, ← bytes_lastLine, length_bytes]

end Text

end ComponentLint
