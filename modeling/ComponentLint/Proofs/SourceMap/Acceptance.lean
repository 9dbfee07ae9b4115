import ComponentLint.Proofs.SourceMap.Reader

/-!
# Which texts are read as mappings

A number is written in digits after which it goes on, and one digit that ends it.  One would expect
a text to be read exactly if each piece of it between two separators is a row of one, four or five
numbers, or empty.  But a number that is open at a separator stays open: its digits go on behind
it, and it counts for the piece in which it ends.  So the numbers are those of the text without its
separators, and a piece has as many fields as numbers end in it.

The digits of the open number are what the reader remembers of the text before.  The condition for
reading the rest is stated for these digits followed by the rest.

## Main definitions

* `Mappings.IsNumber t` — `t` is the writing of one number.
* `Mappings.IsSegment t` — `t` is a row of complete numbers, as many as a segment may have.
* `Mappings.pieces t` — the pieces of `t` between separators.
* `Mappings.IsRow t` — `t` is a row of numbers that are not too long.

## Main statements

* `Mappings.Reader.accepts_separator`, `Mappings.Reader.accepts_more`,
  `Mappings.Reader.accepts_last` — when a character of each kind is read, and what it changes.
* `Mappings.Reader.accepts_iff` — what may follow in a state of the reader.
* `Mappings.isSegment_iff` — a piece is a segment by its digits and its end.
* `Mappings.decode_accepts_iff` — **the texts that are read, and when their pieces are segments.**
* `Mappings.decode_open_number` — a number is read that goes on behind a comma.
-/

namespace ComponentLint.Mappings

/-! ### Numbers -/

/-- A digit after which a number goes on. -/
def isMore (c : Char) : Bool := (digit? c).any continues

/-- A digit that ends a number. -/
def isLast (c : Char) : Bool := (digit? c).any (!continues ·)

/-- A number is written in digits after which it goes on, and one that ends it. -/
def IsNumber (t : Text) : Prop :=
  ∃ front last, t = front ++ [last] ∧ (∀ c ∈ front, isMore c = true) ∧ isLast last = true

/-- A row of numbers, none of which has too many digits. -/
def IsRow (t : Text) : Prop :=
  ∃ numbers : List Text, t = numbers.flatten ∧ ∀ n ∈ numbers, IsNumber n ∧ n.length ≤ 7

/-- A digit after which a number goes on does not end it. -/
theorem isLast_eq_false_of_isMore {c : Char} (h : isMore c = true) : isLast c = false := by
  unfold isMore at h
  unfold isLast
  cases hd : digit? c with
  | none => rfl
  | some d =>
    rw [hd] at h
    simpa using h

theorem isMore_eq_false_of_isLast {c : Char} (h : isLast c = true) : isMore c = false := by
  cases hmore : isMore c with
  | false => rfl
  | true =>
    rw [isLast_eq_false_of_isMore hmore] at h
    cases h

theorem IsNumber.ne_nil {n : Text} (h : IsNumber n) : n ≠ [] := by
  obtain ⟨front, last, rfl, -, -⟩ := h
  exact List.append_ne_nil_of_right_ne_nil _ (List.cons_ne_nil _ _)

theorem IsNumber.isMore_or_isLast {n : Text} (h : IsNumber n) {c : Char} (hc : c ∈ n) :
    isMore c = true ∨ isLast c = true := by
  obtain ⟨front, last, rfl, hmore, hlast⟩ := h
  rcases List.mem_append.1 hc with hc | hc
  · exact Or.inl (hmore c hc)
  · rw [List.mem_singleton.1 hc]
    exact Or.inr hlast

/-- One number ends in a number. -/
theorem IsNumber.countP_isLast {n : Text} (h : IsNumber n) : n.countP isLast = 1 := by
  obtain ⟨front, last, rfl, hmore, hlast⟩ := h
  have hfront : front.countP isLast = 0 := by
    rw [List.countP_eq_zero]
    intro c hc
    rw [isLast_eq_false_of_isMore (hmore c hc)]
    decide
  rw [List.countP_append, hfront, List.countP_singleton, if_pos hlast]

/-- No number continues another one: a text starts with one number at most. -/
theorem IsNumber.append_inj {m n s t : Text} (hm : IsNumber m) (hn : IsNumber n)
    (h : m ++ s = n ++ t) : m = n ∧ s = t := by
  obtain ⟨front, last, rfl, hmore, hlast⟩ := hm
  obtain ⟨front', last', rfl, hmore', hlast'⟩ := hn
  induction front generalizing front' with
  | nil =>
    cases front' with
    | nil => simpa using h
    | cons c front' =>
      -- the digit that ends the one goes on with the other
      obtain ⟨rfl, -⟩ := List.cons.inj h
      exact absurd (hmore' _ List.mem_cons_self) (by rw [isMore_eq_false_of_isLast hlast]; decide)
  | cons c front ih =>
    cases front' with
    | nil =>
      obtain ⟨rfl, -⟩ := List.cons.inj h
      exact absurd (hmore _ List.mem_cons_self) (by rw [isMore_eq_false_of_isLast hlast']; decide)
    | cons c' front' =>
      obtain ⟨rfl, htail⟩ := List.cons.inj h
      obtain ⟨heq, rfl⟩ := ih (fun d hd => hmore d (List.mem_cons_of_mem _ hd)) front' htail
        (fun d hd => hmore' d (List.mem_cons_of_mem _ hd))
      exact ⟨congrArg _ heq, rfl⟩

/-- A number at the start of a row is one of its numbers. -/
theorem isRow_append_iff {n t : Text} (hn : IsNumber n) :
    IsRow (n ++ t) ↔ n.length ≤ 7 ∧ IsRow t := by
  constructor
  · rintro ⟨numbers, heq, hall⟩
    cases numbers with
    | nil => exact absurd (List.append_eq_nil_iff.1 heq).1 hn.ne_nil
    | cons m numbers =>
      obtain ⟨hm, hlen⟩ := hall m List.mem_cons_self
      obtain ⟨rfl, rfl⟩ := hn.append_inj hm heq
      exact ⟨hlen, numbers, rfl, fun k hk => hall k (List.mem_cons_of_mem _ hk)⟩
  · rintro ⟨hlen, numbers, rfl, hall⟩
    exact ⟨n :: numbers, rfl, List.forall_mem_cons.2 ⟨⟨hn, hlen⟩, hall⟩⟩

theorem IsRow.isMore_or_isLast {t : Text} (h : IsRow t) {c : Char} (hc : c ∈ t) :
    isMore c = true ∨ isLast c = true := by
  obtain ⟨numbers, rfl, hall⟩ := h
  obtain ⟨n, hn, hc⟩ := List.mem_flatten.1 hc
  exact (hall n hn).1.isMore_or_isLast hc

/-- A row does not stop inside a number, and the digits of an open number leave room for one
more. -/
theorem IsRow.length_lt {front t : Text} (h : IsRow (front ++ t))
    (hmore : ∀ c ∈ front, isMore c = true) (hne : front ≠ []) : t ≠ [] ∧ front.length < 7 := by
  obtain ⟨numbers, heq, hall⟩ := h
  cases numbers with
  | nil => exact absurd (List.append_eq_nil_iff.1 heq).1 hne
  | cons n numbers =>
    obtain ⟨⟨front', last, rfl, -, hlast⟩, hlen⟩ := hall n List.mem_cons_self
    rw [List.flatten_cons, List.append_assoc] at heq
    -- the digit that ends the first number is not among the open ones
    rcases List.append_eq_append_iff.1 heq with ⟨u, rfl, hu⟩ | ⟨u, rfl, hu⟩
    · rw [List.length_append, List.length_append, List.length_singleton] at hlen
      refine ⟨?_, by omega⟩
      rintro rfl
      simp at hu
    · cases u with
      | nil =>
        rw [List.length_append, List.length_singleton] at hlen
        rw [List.append_nil]
        refine ⟨?_, by omega⟩
        rintro rfl
        simp at hu
      | cons d u =>
        obtain ⟨rfl, -⟩ := List.cons.inj hu
        exact absurd (hmore last (by simp)) (by rw [isMore_eq_false_of_isLast hlast]; decide)

/-! ### Segments -/

/-- The numbers of fields that a segment may have.  One without fields leaves no trace. -/
def fieldCounts : List Nat := [0, 1, 4, 5]

/-- A row of complete numbers, as many as a segment may have. -/
def IsSegment (t : Text) : Prop :=
  ∃ numbers : List Text, t = numbers.flatten ∧ (∀ n ∈ numbers, IsNumber n) ∧
    numbers.length ∈ fieldCounts

/-- The pieces of a text between separators. -/
def pieces (t : Text) : List Text := t.splitOnP isSeparator

/-- A separator ends the first piece. -/
theorem pieces_separator {c : Char} (h : isSeparator c = true) (t : Text) :
    pieces (c :: t) = [] :: pieces t := by
  rw [pieces, List.splitOnP_cons_eq_if_modifyHead, if_pos h]
  rfl

/-- Any other character belongs to the first piece. -/
theorem exists_pieces_cons {c : Char} (h : isSeparator c = false) (t : Text) :
    ∃ first rest, pieces t = first :: rest ∧ pieces (c :: t) = (c :: first) :: rest := by
  obtain ⟨first, rest, ht⟩ := List.exists_cons_of_ne_nil (List.splitOnP_ne_nil isSeparator t)
  refine ⟨first, rest, ht, ?_⟩
  rw [pieces, List.splitOnP_cons_eq_if_modifyHead, h, if_neg (by decide), ht]
  rfl

/-- As many numbers end in a row as it has. -/
theorem countP_isLast_flatten {numbers : List Text} (h : ∀ n ∈ numbers, IsNumber n) :
    numbers.flatten.countP isLast = numbers.length := by
  induction numbers with
  | nil => rfl
  | cons n numbers ih =>
    obtain ⟨hn, hall⟩ := List.forall_mem_cons.1 h
    rw [List.flatten_cons, List.countP_append, hn.countP_isLast, ih hall, List.length_cons,
      Nat.add_comm]

/-- Digits that do not stop inside a number are a row of numbers.  Some digits of the first one may
stand before them. -/
theorem exists_numbers {front t : Text} (hmore : ∀ c ∈ front, isMore c = true)
    (hdigits : ∀ c ∈ t, isMore c = true ∨ isLast c = true)
    (hlast : ∀ c ∈ (front ++ t).getLast?, isMore c = false) :
    ∃ numbers : List Text, front ++ t = numbers.flatten ∧ ∀ n ∈ numbers, IsNumber n := by
  induction t generalizing front with
  | nil =>
    rcases List.eq_nil_or_concat front with rfl | ⟨front, c, rfl⟩
    · exact ⟨[], rfl, by simp⟩
    · have := hlast c (by simp)
      rw [hmore c (by simp)] at this
      cases this
  | cons c t ih =>
    obtain ⟨hc, hdigits⟩ := List.forall_mem_cons.1 hdigits
    rw [List.append_cons] at hlast ⊢
    rcases hc with hc | hc
    · refine ih ?_ hdigits hlast
      intro d hd
      rcases List.mem_append.1 hd with hd | hd
      · exact hmore d hd
      · rw [List.mem_singleton.1 hd]
        exact hc
    · -- the number ends here, and the rest is a row of its own
      obtain ⟨numbers, hrest, hall⟩ := @ih [] (by simp) hdigits (by
        intro d hd
        refine hlast d ?_
        rw [List.getLast?_append, ← List.nil_append t, hd]
        rfl)
      exact ⟨(front ++ [c]) :: numbers, by rw [List.flatten_cons, ← hrest]; rfl,
        List.forall_mem_cons.2 ⟨⟨front, c, rfl, hmore, hc⟩, hall⟩⟩

/-- **A piece is a segment by its digits and its end**: nothing but digits, as many ends of numbers
as a segment may have fields, and no number that is open at the end. -/
theorem isSegment_iff {t : Text} :
    IsSegment t ↔ (∀ c ∈ t, isMore c = true ∨ isLast c = true) ∧
      t.countP isLast ∈ fieldCounts ∧ ∀ c ∈ t.getLast?, isMore c = false := by
  constructor
  · rintro ⟨numbers, rfl, hall, hlen⟩
    refine ⟨?_, ?_, ?_⟩
    · intro c hc
      obtain ⟨n, hn, hc⟩ := List.mem_flatten.1 hc
      exact (hall n hn).isMore_or_isLast hc
    · rwa [countP_isLast_flatten hall]
    · intro c hc
      rcases List.eq_nil_or_concat numbers with rfl | ⟨numbers, n, rfl⟩
      · cases hc
      · obtain ⟨front, last, rfl, -, hlast⟩ := hall n (by simp)
        rw [List.concat_eq_append, List.flatten_append, List.flatten_singleton,
          ← List.append_assoc, List.getLast?_concat, Option.mem_some_iff] at hc
        subst hc
        exact isMore_eq_false_of_isLast hlast
  · rintro ⟨hdigits, hcount, hlast⟩
    obtain ⟨numbers, heq, hall⟩ := @exists_numbers [] t (by simp) hdigits hlast
    rw [List.nil_append] at heq
    refine ⟨numbers, heq, hall, ?_⟩
    rwa [← countP_isLast_flatten hall, ← heq]

/-! ### What may follow in a state of the reader -/

namespace Reader

/-- The reader reads a text to its end. -/
def Accepts (r : Reader) (t : Text) : Prop := ∃ m, (t.foldlM step r >>= finish) = .ok m

theorem accepts_cons_of_ok {r r' : Reader} {c : Char} (h : r.step c = .ok r') (t : Text) :
    r.Accepts (c :: t) ↔ r'.Accepts t := by
  rw [Accepts, List.foldlM_cons, h]
  rfl

theorem not_accepts_cons_of_error {r : Reader} {c : Char} {e : MappingError}
    (h : r.step c = .error e) (t : Text) : ¬ r.Accepts (c :: t) := by
  rw [Accepts, List.foldlM_cons, h]
  rintro ⟨m, hm⟩
  cases hm

/-- A segment ends if it has as many fields as a segment may have. -/
theorem endSegment_of_mem {r : Reader} (h : r.count ∈ fieldCounts) :
    ∃ line, r.endSegment = .ok { r with count := 0, line := line } := by
  obtain ⟨position, totals, count, value, shift, line, lines⟩ := r
  simp only [fieldCounts, List.mem_cons, List.not_mem_nil, or_false] at h
  rcases h with rfl | rfl | rfl | rfl <;> exact ⟨_, rfl⟩

/-- With any other number of fields it is refused. -/
theorem endSegment_of_notMem {r : Reader} (h : r.count ∉ fieldCounts) :
    r.endSegment = .error (.invalidSegment r.count r.position) := by
  simp only [fieldCounts, List.mem_cons, List.not_mem_nil, or_false, not_or] at h
  obtain ⟨h0, h1, h4, h5⟩ := h
  unfold endSegment
  split
  · exact absurd ‹_› h0
  · exact absurd ‹_› h1
  · exact absurd ‹_› h4
  · exact absurd ‹_› h5
  · rfl

/-- The text may end after a complete segment. -/
theorem accepts_nil_iff {r : Reader} : r.Accepts [] ↔ r.shift = 0 ∧ r.count ∈ fieldCounts := by
  show (∃ m, finish r = .ok m) ↔ _
  rw [finish]
  by_cases hshift : r.shift = 0
  · rw [if_neg (by simpa using hshift)]
    by_cases hcount : r.count ∈ fieldCounts
    · obtain ⟨line, hend⟩ := endSegment_of_mem hcount
      rw [hend]
      exact ⟨fun _ => ⟨hshift, hcount⟩, fun _ => ⟨_, rfl⟩⟩
    · rw [endSegment_of_notMem hcount]
      refine ⟨?_, fun h => absurd h.2 hcount⟩
      rintro ⟨m, hm⟩
      cases hm
  · rw [if_pos hshift]
    refine ⟨?_, fun h => absurd h.1 hshift⟩
    rintro ⟨m, hm⟩
    cases hm

/-- A separator is read after as many fields as a segment may have.  The open number stays
open. -/
theorem accepts_separator {r : Reader} {c : Char} (h : isSeparator c = true) (t : Text) :
    ∃ r' : Reader, r'.count = 0 ∧ r'.shift = r.shift ∧
      (r.Accepts (c :: t) ↔ r.count ∈ fieldCounts ∧ r'.Accepts t) := by
  rw [isSeparator, Bool.or_eq_true, beq_iff_eq, beq_iff_eq] at h
  by_cases hcount : r.count ∈ fieldCounts
  · obtain ⟨line, hend⟩ := endSegment_of_mem hcount
    obtain ⟨r', hnext, hzero, hshift⟩ :
        ∃ r', r.step c = .ok r' ∧ r'.count = 0 ∧ r'.shift = r.shift := by
      rcases h with rfl | rfl
      · have hstep := step_comma r
        rw [hend] at hstep
        exact ⟨_, hstep, rfl, rfl⟩
      · have hstep := step_semicolon r
        rw [hend] at hstep
        exact ⟨_, hstep, rfl, rfl⟩
    refine ⟨r', hzero, hshift, ?_⟩
    rw [accepts_cons_of_ok hnext, and_iff_right hcount]
  · have hend := endSegment_of_notMem hcount
    refine ⟨{ r with count := 0 }, rfl, rfl, iff_of_false ?_ fun h => hcount h.1⟩
    rcases h with rfl | rfl
    · exact not_accepts_cons_of_error (by rw [step_comma, hend]; rfl) t
    · exact not_accepts_cons_of_error (by rw [step_semicolon, hend]; rfl) t

/-- A digit after which the number goes on is read if there is room for it. -/
theorem accepts_more {r : Reader} {c : Char} (h : isMore c = true) (t : Text) :
    ∃ r' : Reader, r'.count = r.count ∧ r'.shift = r.shift + 5 ∧
      (r.Accepts (c :: t) ↔ r.shift ≤ 30 ∧ r'.Accepts t) := by
  obtain ⟨d, hd, hmore⟩ := (Option.any_eq_true _ _).1 h
  have hstep := step_digit r hd
  by_cases hroom : r.shift ≤ 30
  · rw [readDigit_of_continues hmore hroom] at hstep
    obtain ⟨r', hnext, hcount, hshift⟩ :
        ∃ r', r.step c = .ok r' ∧ r'.count = r.count ∧ r'.shift = r.shift + 5 :=
      ⟨_, hstep, rfl, rfl⟩
    refine ⟨r', hcount, hshift, ?_⟩
    rw [accepts_cons_of_ok hnext, and_iff_right hroom]
  · rw [readDigit, if_pos (Nat.lt_of_not_ge hroom)] at hstep
    exact ⟨{ r with shift := r.shift + 5 }, rfl, rfl,
      iff_of_false (not_accepts_cons_of_error hstep t) fun h => hroom h.1⟩

/-- The last digit of a number is read if there is room for it, and room for the number. -/
theorem accepts_last {r : Reader} {c : Char} (h : isLast c = true) (t : Text) :
    ∃ r' : Reader, r'.count = r.count + 1 ∧ r'.shift = 0 ∧
      (r.Accepts (c :: t) ↔ r.shift ≤ 30 ∧ r.count ≠ 5 ∧ r'.Accepts t) := by
  obtain ⟨d, hd, hlast⟩ := (Option.any_eq_true _ _).1 h
  have hstep := step_digit r hd
  by_cases hroom : r.shift ≤ 30
  · by_cases hcount : r.count = 5
    · rw [readDigit, if_neg (Nat.not_lt.2 hroom), if_neg (by simpa [continues] using hlast),
        if_pos hcount] at hstep
      exact ⟨{ r with count := r.count + 1, shift := 0 }, rfl, rfl,
        iff_of_false (not_accepts_cons_of_error hstep t) fun h => h.2.1 hcount⟩
    · rw [readDigit_of_not_continues (by simpa using hlast) hroom hcount] at hstep
      obtain ⟨r', hnext, hcount', hshift⟩ :
          ∃ r', r.step c = .ok r' ∧ r'.count = r.count + 1 ∧ r'.shift = 0 :=
        ⟨_, hstep, rfl, rfl⟩
      refine ⟨r', hcount', hshift, ?_⟩
      rw [accepts_cons_of_ok hnext, and_iff_right hroom, and_iff_right hcount]
  · rw [readDigit, if_pos (Nat.lt_of_not_ge hroom)] at hstep
    exact ⟨{ r with count := r.count + 1, shift := 0 }, rfl, rfl,
      iff_of_false (not_accepts_cons_of_error hstep t) fun h => hroom h.1⟩

/-- Nothing but digits and separators is read. -/
theorem not_accepts_other {r : Reader} {c : Char} (hsep : isSeparator c = false)
    (hmore : isMore c = false) (hlast : isLast c = false) (t : Text) : ¬ r.Accepts (c :: t) := by
  cases hd : digit? c with
  | none => exact not_accepts_cons_of_error (step_other r hsep hd) t
  | some d =>
    simp only [isMore, isLast, hd, Option.any_some] at hmore hlast
    rw [hmore] at hlast
    cases hlast

end Reader

/-! ### Reading a text -/

/-- Every piece has as many ends of numbers as a segment may have fields, when `n` numbers ended in
the first piece before. -/
def FieldsFrom (n : Nat) : List Text → Prop
  | [] => False
  | piece :: rest =>
    n + piece.countP isLast ∈ fieldCounts ∧ ∀ q ∈ rest, q.countP isLast ∈ fieldCounts

theorem fieldsFrom_zero_iff {t : Text} :
    FieldsFrom 0 (pieces t) ↔ ∀ piece ∈ pieces t, piece.countP isLast ∈ fieldCounts := by
  obtain ⟨piece, rest, hpieces⟩ := List.exists_cons_of_ne_nil (List.splitOnP_ne_nil isSeparator t)
  rw [pieces, hpieces, FieldsFrom, Nat.zero_add, List.forall_mem_cons]

theorem fieldsFrom_nil_iff {n : Nat} : FieldsFrom n (pieces []) ↔ n ∈ fieldCounts := by
  simp [pieces, FieldsFrom]

theorem fieldsFrom_separator_iff {n : Nat} {c : Char} (h : isSeparator c = true) (t : Text) :
    FieldsFrom n (pieces (c :: t)) ↔ n ∈ fieldCounts ∧ FieldsFrom 0 (pieces t) := by
  rw [fieldsFrom_zero_iff, pieces_separator h]
  rfl

theorem fieldsFrom_cons_iff {n : Nat} {c : Char} (h : isSeparator c = false) (t : Text) :
    FieldsFrom n (pieces (c :: t)) ↔
      FieldsFrom (n + if isLast c = true then 1 else 0) (pieces t) := by
  obtain ⟨first, rest, ht, hct⟩ := exists_pieces_cons h t
  rw [ht, hct, FieldsFrom, FieldsFrom, List.countP_cons, Nat.add_assoc,
    Nat.add_comm (first.countP isLast)]

/-- There is no way back from six numbers in a piece. -/
theorem not_fieldsFrom_of_lt {n : Nat} (h : 5 < n) (l : List Text) : ¬ FieldsFrom n l := by
  cases l with
  | nil => exact id
  | cons piece rest =>
    rintro ⟨hcount, -⟩
    simp only [fieldCounts, List.mem_cons, List.not_mem_nil, or_false] at hcount
    omega

/-- **What may follow in a state of the reader**: the digits `front` of the open number and the
digits that follow are a row of numbers, and the pieces have as many fields as segments may
have. -/
theorem Reader.accepts_iff (t : Text) (r : Reader) (front : Text)
    (hmore : ∀ c ∈ front, isMore c = true) (hshift : r.shift = 5 * front.length)
    (hcount : r.count ≤ 5) :
    r.Accepts t ↔
      IsRow (front ++ t.filter (!isSeparator ·)) ∧ FieldsFrom r.count (pieces t) := by
  induction t generalizing r front with
  | nil =>
    rw [accepts_nil_iff, fieldsFrom_nil_iff, List.filter_nil]
    refine and_congr_left fun _ => ?_
    constructor
    · intro hzero
      obtain rfl : front = [] := List.eq_nil_of_length_eq_zero (by omega)
      exact ⟨[], rfl, by simp⟩
    · intro hrow
      by_cases hne : front = []
      · rw [hshift, hne]
        rfl
      · exact absurd rfl (hrow.length_lt hmore hne).1
  | cons c t ih =>
    by_cases hsep : isSeparator c = true
    · obtain ⟨r', hcount', hshift', haccepts⟩ := accepts_separator (r := r) hsep t
      rw [haccepts, ih r' front hmore (hshift'.trans hshift) (by omega), hcount',
        fieldsFrom_separator_iff hsep, List.filter_cons_of_neg (by simpa using hsep),
        and_left_comm]
    rw [Bool.not_eq_true] at hsep
    rw [fieldsFrom_cons_iff hsep, List.filter_cons_of_pos (by simpa using hsep)]
    by_cases hc : isMore c = true
    · -- the number goes on; the digits of a row leave room for one more
      have hmore' : ∀ d ∈ front ++ [c], isMore d = true := by
        simpa [or_imp, forall_and] using ⟨hmore, hc⟩
      obtain ⟨r', hcount', hshift', haccepts⟩ := accepts_more (r := r) hc t
      rw [haccepts, ih r' (front ++ [c]) hmore' (by simp; omega) (by omega), hcount',
        isLast_eq_false_of_isMore hc, if_neg (by decide), Nat.add_zero, ← List.append_cons]
      refine and_iff_right_of_imp ?_
      rintro ⟨hrow, -⟩
      rw [List.append_cons] at hrow
      have hlt := (hrow.length_lt hmore' (by simp)).2
      rw [List.length_append, List.length_singleton] at hlt
      omega
    by_cases hlast : isLast c = true
    · -- the number ends, and a row of its own follows
      have hnumber : IsNumber (front ++ [c]) := ⟨front, c, rfl, hmore, hlast⟩
      have hroom : r.shift ≤ 30 ↔ front.length + 1 ≤ 7 := by omega
      obtain ⟨r', hcount', hshift', haccepts⟩ := accepts_last (r := r) hlast t
      rw [haccepts, List.append_cons, isRow_append_iff hnumber, List.length_append,
        List.length_singleton, if_pos hlast, hroom, and_assoc]
      by_cases hfive : r.count = 5
      · refine iff_of_false (fun h => h.2.1 hfive) fun h => ?_
        exact not_fieldsFrom_of_lt (by omega) _ h.2.2
      · rw [and_iff_right hfive, ih r' [] (by simp) hshift' (by omega), hcount', List.nil_append]
    · rw [Bool.not_eq_true] at hc hlast
      refine iff_of_false (not_accepts_other hsep hc hlast t) ?_
      rintro ⟨hrow, -⟩
      have hdigit := hrow.isMore_or_isLast (List.mem_append_right front List.mem_cons_self)
      rw [hc, hlast] at hdigit
      simp at hdigit

/-- The characters of a piece are those of the text, without separators. -/
theorem mem_filter_of_mem_pieces {t piece : Text} (h : piece ∈ pieces t) {c : Char}
    (hc : c ∈ piece) : c ∈ t.filter (!isSeparator ·) := by
  induction t generalizing piece with
  | nil =>
    rw [pieces, List.splitOnP_nil, List.mem_singleton] at h
    rw [h] at hc
    cases hc
  | cons d t ih =>
    by_cases hd : isSeparator d = true
    · rw [List.filter_cons_of_neg (by simpa using hd)]
      rw [pieces_separator hd] at h
      rcases List.mem_cons.1 h with rfl | h
      · cases hc
      · exact ih h hc
    · rw [List.filter_cons_of_pos (by simpa using hd)]
      obtain ⟨first, rest, ht, hdt⟩ := exists_pieces_cons (by simpa using hd) t
      rw [hdt] at h
      rcases List.mem_cons.1 h with rfl | h
      · rcases List.mem_cons.1 hc with rfl | hc
        · exact List.mem_cons_self
        · exact List.mem_cons_of_mem _ (ih (ht ▸ List.mem_cons_self) hc)
      · exact List.mem_cons_of_mem _ (ih (ht ▸ List.mem_cons_of_mem _ h) hc)

/-- **The texts that are read, and when their pieces are segments.**  A text is read as mappings
exactly if, without its separators, it is a row of numbers of at most seven digits, and if none,
one, four or five numbers end in each piece between separators.  The pieces of such a text are rows
of complete numbers, none, one, four or five of them, exactly if no piece stops inside a number. -/
theorem decode_accepts_iff (t : Text) :
    ((∃ m, decode t = .ok m) ↔
      IsRow (t.filter (!isSeparator ·)) ∧
        ∀ piece ∈ pieces t, piece.countP isLast ∈ fieldCounts) ∧
    ((∃ m, decode t = .ok m) →
      ((∀ piece ∈ pieces t, IsSegment piece) ↔
        ∀ piece ∈ pieces t, ∀ c ∈ piece.getLast?, isMore c = false)) := by
  have hread : (∃ m, decode t = .ok m) ↔ _ :=
    Reader.accepts_iff t {} [] (by simp) rfl (by decide)
  rw [List.nil_append, fieldsFrom_zero_iff] at hread
  refine ⟨hread, fun hok => ?_⟩
  obtain ⟨hrow, hcounts⟩ := hread.1 hok
  refine forall₂_congr fun piece hpiece => ?_
  rw [isSegment_iff]
  refine ⟨fun h => h.2.2, fun h => ⟨fun c hc => ?_, hcounts piece hpiece, h⟩⟩
  exact hrow.isMore_or_isLast (mem_filter_of_mem_pieces hpiece hc)

theorem decode_accepts_iff_two_segments :
    (∃ m, decode "gBAAgB,DAAD;".toList = .ok m) ∧
      ∀ piece ∈ pieces "gBAAgB,DAAD;".toList, IsSegment piece := by
  refine ⟨⟨_, rfl⟩, ((decode_accepts_iff _).2 ⟨_, rfl⟩).2 ?_⟩
  have hall : ∀ piece ∈ pieces "gBAAgB,DAAD;".toList,
      piece.getLast?.all (fun c => !isMore c) = true := by decide
  intro piece hpiece c hc
  have hlast := hall piece hpiece
  rw [Option.mem_def.1 hc] at hlast
  simpa using hlast

/-- A number is read that goes on behind a comma, so that the piece before the comma is no
segment. -/
theorem decode_open_number :
    ¬ ∀ t : Text, (∃ m, decode t = .ok m) → ∀ piece ∈ pieces t, IsSegment piece := by
  intro h
  have hsegment := h ['g', ',', 'A'] ⟨_, rfl⟩ ['g'] (by decide)
  exact absurd ((isSegment_iff.1 hsegment).2.2 'g' rfl) (by decide)

end ComponentLint.Mappings
