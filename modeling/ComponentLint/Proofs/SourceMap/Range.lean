import ComponentLint.Proofs.SourceMap.Acceptance
import ComponentLint.Proofs.SourceMap.Encoding
import Mathlib.Data.List.Induction
import Mathlib.Data.Nat.Digits.Defs

/-!
# Numbers that are too large

A number in mappings stands for a difference of 32 bits, and one with too many digits is refused.
The digits are counted in fives, though: seven of them hold 35 bits, and the three bits in excess
are cut off where the number ends.  So a number of seven digits may be out of range and is still
read, as another number that is in range.

A number is read in one go, from any state of the reader that can stand before it.  What is read
behind it depends on the difference it stands for and not on its digits, so that a number can be
exchanged for another one of the same difference.

## Main definitions

* `Mappings.valueOf t` — the number that a row of digits stands for, without a bound.
* `Mappings.magnitudeOf t` — the same without the sign.
* `Mappings.Between t` — `t` does not stop inside a number.
* `Mappings.HasNumber t n` — `n` is one of the numbers of `t`.
* `Mappings.cutNumber n` — the writing of the difference that `n` is cut to.

## Main statements

* `Mappings.Reader.foldlM_number_iff` — when a number is read, and what it changes.
* `Mappings.Reader.shift_eq_zero_of_between` — the reader is between two numbers where the text is.
* `Mappings.numberOf_difference_iff` — a number keeps its value exactly if it has 32 bits.
* `Mappings.decode_exchange` — **numbers of the same difference can be exchanged.**
* `Mappings.decode_limits_numbers` — **which numbers are refused, and what the others are read as.**
* `Mappings.decode_cuts_number` — a number out of range is read as zero.
-/

namespace ComponentLint.Mappings

/-! ### The value of a number -/

/-- The five bits that a digit adds to a number. -/
def digitBits (c : Char) : Nat := (digit? c).getD 0 % 32

/-- The number that a row of digits stands for, the lowest digit first. -/
def valueOf (t : Text) : Nat := Nat.ofDigits 32 (t.map digitBits)

/-- The number that a row of digits stands for, without the lowest bit, which is the sign. -/
def magnitudeOf (t : Text) : Nat := valueOf t / 2

@[simp] theorem valueOf_nil : valueOf [] = 0 := rfl

@[simp] theorem valueOf_cons (c : Char) (t : Text) :
    valueOf (c :: t) = digitBits c + 32 * valueOf t := by
  simp [valueOf, Nat.ofDigits_cons]

theorem valueOf_concat (front : Text) (last : Char) :
    valueOf (front ++ [last]) = valueOf front + 32 ^ front.length * digitBits last := by
  simp [valueOf, Nat.ofDigits_append]

theorem digitBits_lt (c : Char) : digitBits c < 32 := Nat.mod_lt _ (by decide)

/-- A row of digits has five bits for each of them. -/
theorem valueOf_lt (t : Text) : valueOf t < 32 ^ t.length := by
  have hdigits : ∀ d ∈ t.map digitBits, d < 32 := by
    intro d hd
    obtain ⟨c, -, rfl⟩ := List.mem_map.1 hd
    exact digitBits_lt c
  simpa [valueOf] using Nat.ofDigits_lt_base_pow_length (by decide) hdigits

/-- A number of at most seven digits has 32 bits exactly if its seventh digit has two of its five
bits at most. -/
theorem valueOf_lt_iff {n : Text} (hlength : n.length ≤ 7) :
    valueOf n < 2 ^ 32 ↔ n.length < 7 ∨ ∀ c ∈ n.getLast?, digitBits c < 4 := by
  by_cases hseven : n.length = 7
  · obtain ⟨front, last, rfl⟩ : ∃ front last, n = front ++ [last] := by
      rcases List.eq_nil_or_concat n with rfl | ⟨front, last, rfl⟩
      · cases hseven
      · exact ⟨front, last, List.concat_eq_append⟩
    have hfront : front.length = 6 := by simpa using hseven
    have hvalue := valueOf_concat front last
    have hlt := valueOf_lt front
    rw [hfront] at hvalue hlt
    simp [hvalue, hfront]
    omega
  · have hlt := valueOf_lt n
    have hpow : 32 ^ n.length ≤ 32 ^ 6 := Nat.pow_le_pow_right (by decide) (by omega)
    have hrange : valueOf n < 2 ^ 32 := by omega
    simp only [hrange, true_iff]
    left
    omega

/-- What was written has the value it was written for. -/
theorem valueOf_writeNumber (n : Nat) : valueOf (writeNumber n) = n := by
  fun_induction writeNumber n with
  | case1 n hn =>
    simp [digitBits, digit?_digitOf (show n < 64 by omega)]
    omega
  | case2 n hn ih =>
    simp only [valueOf_cons, ih, digitBits, digit?_digitOf (show n % 32 + 32 < 64 by omega),
      Option.getD_some]
    omega

theorem isNumber_writeNumber (n : Nat) : IsNumber (writeNumber n) := by
  fun_induction writeNumber n with
  | case1 n hn =>
    refine ⟨[], digitOf n, rfl, by simp, ?_⟩
    simp [isLast, digit?_digitOf (show n < 64 by omega), continues, Nat.div_eq_of_lt hn]
  | case2 n hn ih =>
    obtain ⟨front, last, hrest, hmore, hlast⟩ := ih
    refine ⟨digitOf (n % 32 + 32) :: front, last, by rw [hrest]; rfl, ?_, hlast⟩
    intro c hc
    rcases List.mem_cons.1 hc with rfl | hc
    · rw [isMore, digit?_digitOf (by omega), Option.any_some, continues, beq_iff_eq]
      omega
    · exact hmore c hc

/-! ### Reading a number -/

namespace Reader

/-- The reader reads a text to its end, and finds mappings in it. -/
def Reads (r : Reader) (t : Text) (m : Mappings) : Prop := (t.foldlM step r >>= finish) = .ok m

theorem foldlM_cons_iff {c : Char} {t : Text} {r r' : Reader} :
    (c :: t).foldlM step r = .ok r' ↔
      ∃ next, r.step c = .ok next ∧ t.foldlM step next = .ok r' := by
  rw [List.foldlM_cons]
  cases r.step c <;> simp [bind, Except.bind]

theorem foldlM_concat_iff {t : Text} {c : Char} {r r' : Reader} :
    (t ++ [c]).foldlM step r = .ok r' ↔
      ∃ before, t.foldlM step r = .ok before ∧ before.step c = .ok r' := by
  rw [List.foldlM_append]
  simp only [List.foldlM_cons, List.foldlM_nil, bind_pure]
  cases t.foldlM step r <;> simp [bind, Except.bind]

theorem reads_cons_iff {c : Char} {t : Text} {r : Reader} {m : Mappings} :
    r.Reads (c :: t) m ↔ ∃ next, r.step c = .ok next ∧ next.Reads t m := by
  unfold Reads
  rw [List.foldlM_cons]
  cases r.step c <;> simp [bind, Except.bind]

theorem reads_append_iff {s t : Text} {r : Reader} {m : Mappings} :
    r.Reads (s ++ t) m ↔ ∃ next, s.foldlM step r = .ok next ∧ next.Reads t m := by
  unfold Reads
  rw [List.foldlM_append]
  cases s.foldlM step r <;> simp [bind, Except.bind]

/-- A separator leaves the open number alone. -/
theorem step_separator {r r' : Reader} {c : Char} (hc : isSeparator c = true)
    (h : r.step c = .ok r') : r'.shift = r.shift ∧ r'.value = r.value := by
  rw [isSeparator, Bool.or_eq_true, beq_iff_eq, beq_iff_eq] at hc
  by_cases hcount : r.count ∈ fieldCounts
  · obtain ⟨line, hend⟩ := endSegment_of_mem hcount
    rcases hc with rfl | rfl
    · rw [step_comma, hend] at h
      cases h
      exact ⟨rfl, rfl⟩
    · rw [step_semicolon, hend] at h
      cases h
      exact ⟨rfl, rfl⟩
  · have hend := endSegment_of_notMem hcount
    rcases hc with rfl | rfl
    · rw [step_comma, hend] at h
      cases h
    · rw [step_semicolon, hend] at h
      cases h

/-- What is read and is not a separator is a digit. -/
theorem isLast_of_step {r r' : Reader} {c : Char} (hsep : isSeparator c = false)
    (hmore : isMore c = false) (h : r.step c = .ok r') : isLast c = true := by
  cases hd : digit? c with
  | none =>
    rw [step_other r hsep hd] at h
    cases h
  | some d => simpa [isMore, isLast, hd] using hmore

/-- A digit after which the number goes on is read exactly if there is room for it. -/
theorem step_more_iff {r r' : Reader} {c : Char} (h : isMore c = true) :
    r.step c = .ok r' ↔ r.shift ≤ 30 ∧
      r' = { r with
        position := r.position + c.utf8Size
        value := r.value + digitBits c <<< r.shift
        shift := r.shift + 5 } := by
  obtain ⟨d, hd, hmore⟩ := (Option.any_eq_true _ _).1 h
  rw [step_digit r hd]
  by_cases hroom : r.shift ≤ 30
  · rw [readDigit_of_continues hmore hroom]
    simp [Except.map, hroom, digitBits, hd, eq_comm]
  · rw [readDigit, if_pos (Nat.lt_of_not_ge hroom)]
    simp [Except.map, hroom]

/-- The last digit of a number is read exactly if there is room for it, and for the number. -/
theorem step_last_iff {r r' : Reader} {c : Char} (h : isLast c = true) :
    r.step c = .ok r' ↔ r.shift ≤ 30 ∧ r.count ≠ 5 ∧
      r' = { r with
        position := r.position + c.utf8Size
        totals := r.totals.add (difference (r.value + digitBits c <<< r.shift)) r.count
        count := r.count + 1
        value := 0
        shift := 0 } := by
  obtain ⟨d, hd, hlast⟩ := (Option.any_eq_true _ _).1 h
  have hlast : continues d = false := by simpa using hlast
  rw [step_digit r hd]
  by_cases hroom : r.shift ≤ 30
  · by_cases hcount : r.count = 5
    · rw [readDigit, if_neg (Nat.not_lt.2 hroom), if_neg (by simpa [continues] using hlast),
        if_pos hcount]
      simp [Except.map, hcount]
    · rw [readDigit_of_not_continues hlast hroom hcount]
      simp [Except.map, hroom, hcount, digitBits, hd, eq_comm]
  · rw [readDigit, if_pos (Nat.lt_of_not_ge hroom)]
    simp [Except.map, hroom]

/-- **When a number is read, and what it changes**: there has to be room for its digits and for one
more field.  Some of its digits may have been read before. -/
theorem foldlM_number_iff {n : Text} (hn : IsNumber n) (r r' : Reader) :
    n.foldlM step r = .ok r' ↔ r.shift + 5 * n.length ≤ 35 ∧ r.count ≠ 5 ∧
      r' = { r with
        position := r.position + Text.size n
        totals := r.totals.add (difference (r.value + valueOf n <<< r.shift)) r.count
        count := r.count + 1
        value := 0
        shift := 0 } := by
  obtain ⟨front, last, rfl, hmore, hlast⟩ := hn
  induction front generalizing r with
  | nil =>
    have hroom : r.shift + 5 * 1 ≤ 35 ↔ r.shift ≤ 30 := by omega
    have hone : [last].foldlM step r = r.step last := by simp
    rw [List.nil_append, hone, step_last_iff hlast, List.length_singleton, hroom]
    simp
  | cons c front ih =>
    have hc : isMore c = true := hmore c List.mem_cons_self
    have hfront : ∀ d ∈ front, isMore d = true := fun d hd => hmore d (List.mem_cons_of_mem _ hd)
    -- the digit read and those to come make up the number
    have hvalue : ∀ v, digitBits c <<< r.shift + v <<< (r.shift + 5) =
        (digitBits c + 32 * v) <<< r.shift := by
      intro v
      simp only [Nat.shiftLeft_eq, Nat.pow_add]
      ring
    rw [List.cons_append, foldlM_cons_iff]
    simp only [step_more_iff hc, ih _ hfront, valueOf_cons, Text.size_cons, List.length_cons,
      ← hvalue]
    constructor
    · rintro ⟨next, ⟨-, rfl⟩, hroom, hcount, rfl⟩
      dsimp only at hroom
      exact ⟨by omega, hcount, by simp only [Nat.add_assoc]⟩
    · rintro ⟨hroom, hcount, rfl⟩
      refine ⟨_, ⟨by omega, rfl⟩, ?_, hcount, by simp only [Nat.add_assoc]⟩
      dsimp only
      omega

/-! ### What stands before and behind a number -/

/-- What a segment ends with does not depend on how many bytes were read before. -/
theorem endSegment_moved {r r' : Reader} (h : r.endSegment = .ok r') (p : Nat) :
    endSegment { r with position := p } = .ok { r' with position := p } := by
  unfold endSegment at h ⊢
  dsimp only at h ⊢
  split at h <;> cases h <;> simp_all

theorem readDigit_moved {r r' : Reader} {d : Nat} (h : r.readDigit d = .ok r') (p : Nat) :
    readDigit { r with position := p } d = .ok { r' with position := p } := by
  unfold readDigit at h ⊢
  dsimp only at h ⊢
  split at h
  · cases h
  · split at h
    · cases h
      simp_all
    · split at h
      · cases h
      · cases h
        simp_all

/-- What a character changes does not depend on how many bytes were read before. -/
theorem step_moved {r r' : Reader} {c : Char} (h : r.step c = .ok r') (p : Nat) :
    ∃ p', step { r with position := p } c = .ok { r' with position := p' } := by
  by_cases hsep : isSeparator c = true
  · cases hend : r.endSegment with
    | error e =>
      rw [isSeparator, Bool.or_eq_true, beq_iff_eq, beq_iff_eq] at hsep
      rcases hsep with rfl | rfl
      · simp [step_comma, hend, Except.map] at h
      · simp [step_semicolon, hend, Except.map] at h
    | ok next =>
      have hmoved := endSegment_moved hend p
      rw [isSeparator, Bool.or_eq_true, beq_iff_eq, beq_iff_eq] at hsep
      rcases hsep with rfl | rfl
      · rw [step_comma, hend] at h
        cases h
        exact ⟨p + 1, by rw [step_comma, hmoved]; rfl⟩
      · rw [step_semicolon, hend] at h
        cases h
        exact ⟨p + 1, by rw [step_semicolon, hmoved]; rfl⟩
  · rw [Bool.not_eq_true] at hsep
    cases hd : digit? c with
    | none =>
      rw [step_other r hsep hd] at h
      cases h
    | some d =>
      rw [step_digit r hd] at h
      cases hread : r.readDigit d with
      | error e => simp [hread, Except.map] at h
      | ok next =>
        rw [hread] at h
        cases h
        exact ⟨p + c.utf8Size, by rw [step_digit _ hd, readDigit_moved hread p]; rfl⟩

/-- The mappings that are read do not depend on how many bytes were read before. -/
theorem Reads.moved {r : Reader} {t : Text} {m : Mappings} (h : r.Reads t m) (p : Nat) :
    Reads { r with position := p } t m := by
  induction t generalizing r p with
  | nil =>
    have hfinish : finish r = .ok m := h
    show finish { r with position := p } = .ok m
    unfold finish at hfinish ⊢
    by_cases hshift : r.shift = 0
    · rw [if_neg (by simpa using hshift)] at hfinish ⊢
      cases hend : r.endSegment with
      | error e =>
        rw [hend] at hfinish
        cases hfinish
      | ok next =>
        rw [hend] at hfinish
        rw [endSegment_moved hend p]
        exact hfinish
    · rw [if_pos hshift] at hfinish
      cases hfinish
  | cons c t ih =>
    obtain ⟨next, hstep, hrest⟩ := reads_cons_iff.1 h
    obtain ⟨p', hmoved⟩ := step_moved hstep p
    exact reads_cons_iff.2 ⟨_, hmoved, ih hrest p'⟩

end Reader

/-! ### The numbers of a text -/

/-- A text does not stop inside a number. -/
def Between (t : Text) : Prop := ∀ c ∈ (t.filter (!isSeparator ·)).getLast?, isMore c = false

/-- A number of a text.  Separators do not count: a number that is open at a separator goes on
behind it. -/
def HasNumber (t n : Text) : Prop :=
  ∃ a b, t.filter (!isSeparator ·) = a ++ n ++ b ∧ Between a ∧ IsNumber n

/-- **The reader is between two numbers where the text is.** -/
theorem Reader.shift_eq_zero_of_between {t : Text} {r : Reader} (h : t.foldlM step {} = .ok r)
    (ht : Between t) : r.shift = 0 ∧ r.value = 0 := by
  induction t using List.reverseRecOn generalizing r with
  | nil =>
    cases h
    exact ⟨rfl, rfl⟩
  | append_singleton t c ih =>
    obtain ⟨before, hbefore, hstep⟩ := foldlM_concat_iff.1 h
    unfold Between at ht
    rw [List.filter_append] at ht
    by_cases hsep : isSeparator c = true
    · obtain ⟨hshift, hvalue⟩ := ih hbefore (by simpa [Between, hsep] using ht)
      obtain ⟨hshift', hvalue'⟩ := step_separator hsep hstep
      exact ⟨hshift'.trans hshift, hvalue'.trans hvalue⟩
    · have hmore : isMore c = false := by
        apply ht c
        simp [hsep]
      have hlast := isLast_of_step (by simpa using hsep) hmore hstep
      obtain ⟨-, -, rfl⟩ := (step_last_iff hlast).1 hstep
      exact ⟨rfl, rfl⟩

/-- **Numbers of the same difference can be exchanged**, if both have at most seven digits. -/
theorem decode_exchange {a n n' b : Text} {m : Mappings} (ha : Between a) (hn : IsNumber n)
    (hn' : IsNumber n') (hlength : n'.length ≤ 7)
    (hdifference : difference (valueOf n') = difference (valueOf n))
    (h : decode (a ++ n ++ b) = .ok m) : decode (a ++ n' ++ b) = .ok m := by
  have hreads : Reader.Reads {} (a ++ (n ++ b)) m := by rwa [← List.append_assoc]
  obtain ⟨r, hr, hreads⟩ := Reader.reads_append_iff.1 hreads
  obtain ⟨next, hnext, hreads⟩ := Reader.reads_append_iff.1 hreads
  obtain ⟨hshift, hvalue⟩ := Reader.shift_eq_zero_of_between hr ha
  obtain ⟨-, hcount, heq⟩ := (Reader.foldlM_number_iff hn r next).1 hnext
  -- the state behind the other number differs in the bytes that were read
  have hnext' : n'.foldlM Reader.step r =
      .ok { next with position := r.position + Text.size n' } := by
    rw [Reader.foldlM_number_iff hn']
    exact ⟨by omega, hcount, by simp [heq, hshift, hvalue, hdifference]⟩
  have hreads' : Reader.Reads {} (a ++ (n' ++ b)) m :=
    Reader.reads_append_iff.2 ⟨r, hr, Reader.reads_append_iff.2 ⟨_, hnext', hreads.moved _⟩⟩
  rwa [← List.append_assoc] at hreads'

/-- A row of numbers is one behind each of its numbers. -/
theorem IsRow.of_append {numbers : List Text} {t : Text} (h : ∀ n ∈ numbers, IsNumber n)
    (hrow : IsRow (numbers.flatten ++ t)) : IsRow t := by
  induction numbers with
  | nil => exact hrow
  | cons n numbers ih =>
    obtain ⟨hn, hall⟩ := List.forall_mem_cons.1 h
    rw [List.flatten_cons, List.append_assoc, isRow_append_iff hn] at hrow
    exact ih hall hrow.2

/-- The numbers of a text that is read have at most seven digits. -/
theorem HasNumber.length_le {t n : Text} (h : HasNumber t n) {m : Mappings}
    (hread : decode t = .ok m) : n.length ≤ 7 := by
  obtain ⟨a, b, heq, ha, hn⟩ := h
  have hrow : IsRow (t.filter (!isSeparator ·)) := by
    have haccepts := (Reader.accepts_iff t {} [] (by simp) rfl (by decide)).1 ⟨m, hread⟩
    exact haccepts.1
  rw [heq, List.append_assoc] at hrow
  have hplain : a.filter (!isSeparator ·) = a := by
    rw [List.filter_eq_self]
    intro c hc
    have hmem : c ∈ t.filter (!isSeparator ·) := by simp [heq, hc]
    exact (List.mem_filter.1 hmem).2
  unfold Between at ha
  rw [hplain] at ha
  -- what stands before the number is a row of numbers itself
  obtain ⟨numbers, hnumbers, hall⟩ := @exists_numbers [] a (by simp)
    (fun c hc => hrow.isMore_or_isLast (List.mem_append_left _ hc)) ha
  obtain rfl : a = numbers.flatten := hnumbers
  exact ((isRow_append_iff hn).1 (hrow.of_append hall)).1

/-! ### Numbers out of range -/

/-- A number keeps its value exactly if it has 32 bits. -/
theorem numberOf_difference_iff {v : Nat} : numberOf (difference v) = v ↔ v < 2 ^ 32 := by
  constructor
  · intro h
    rw [← h]
    exact numberOf_lt _
  · intro h
    have hword : (Int32.ofNat (v / 2)).toInt = (v / 2 : Nat) := Int32.toInt_ofNat_of_lt (by omega)
    unfold difference numberOf
    by_cases heven : v % 2 = 0
    · rw [if_pos heven, hword, if_pos (by omega)]
      omega
    · by_cases hzero : Int32.ofNat (v / 2) = 0
      · -- the negative zero stands for the least word, and the least word for it
        have hhalf : v / 2 = 0 := by
          rw [hzero, Int32.toInt_zero] at hword
          omega
        rw [if_neg heven, if_pos hzero, if_neg (by decide), if_pos rfl]
        omega
      · have hneg : (-Int32.ofNat (v / 2)).toInt = -(v / 2 : Nat) := by
          rw [Int32.toInt_neg, hword]
          exact Int.bmod_eq_of_le (by omega) (by omega)
        have hpos : v / 2 ≠ 0 := by
          intro hhalf
          rw [hhalf] at hzero
          exact hzero rfl
        have hmin : -Int32.ofNat (v / 2) ≠ Int32.minValue := by
          intro hmin
          rw [hmin, Int32.toInt_minValue] at hneg
          omega
        rw [if_neg heven, if_neg hzero, hneg, if_neg (by omega), if_neg hmin]
        omega

/-- The writing of the difference that a number is cut to. -/
def cutNumber (n : Text) : Text := writeDifference (difference (valueOf n))

theorem valueOf_cutNumber (n : Text) :
    valueOf (cutNumber n) = numberOf (difference (valueOf n)) := valueOf_writeNumber _

/-- What a number is cut to is in range. -/
theorem magnitudeOf_cutNumber_lt (n : Text) : magnitudeOf (cutNumber n) < 2 ^ 31 := by
  have hlt := numberOf_lt (difference (valueOf n))
  rw [magnitudeOf, valueOf_cutNumber]
  omega

/-- **A number can be exchanged for what it is cut to.** -/
theorem decode_cutNumber {a n b : Text} {m : Mappings} (ha : Between a) (hn : IsNumber n)
    (h : decode (a ++ n ++ b) = .ok m) : decode (a ++ cutNumber n ++ b) = .ok m := by
  have hdifference : difference (valueOf (cutNumber n)) = difference (valueOf n) := by
    rw [valueOf_cutNumber, difference_numberOf]
  exact decode_exchange ha hn (isNumber_writeNumber _) (length_writeNumber_numberOf_le _)
    hdifference h

/-- **Which numbers are refused, and what the others are read as.**  For every text:

* if it is read, the magnitudes of its numbers are less than `2 ^ 34`.  One is less than `2 ^ 31`
  exactly if the number has fewer than seven digits or its last digit is less than four;
* each of its numbers is then read as what it is cut to: writing this in its place does not change
  the mappings.  It is in range, and it has the value of the number exactly if the number is in
  range;
* if it has a number whose magnitude is `2 ^ 34` or more, it is refused. -/
theorem decode_limits_numbers (t : Text) :
    (∀ m, decode t = .ok m →
      (∀ n, HasNumber t n → magnitudeOf n < 2 ^ 34 ∧
        (magnitudeOf n < 2 ^ 31 ↔ n.length < 7 ∨ ∀ c ∈ n.getLast?, digitBits c < 4)) ∧
      ∀ a n b, t = a ++ n ++ b → Between a → IsNumber n →
        decode (a ++ cutNumber n ++ b) = .ok m ∧ magnitudeOf (cutNumber n) < 2 ^ 31 ∧
        (valueOf (cutNumber n) = valueOf n ↔ magnitudeOf n < 2 ^ 31)) ∧
    ∀ n, HasNumber t n → 2 ^ 34 ≤ magnitudeOf n → ∃ e, decode t = .error e := by
  have hhalf (n : Text) : magnitudeOf n < 2 ^ 31 ↔ valueOf n < 2 ^ 32 := by
    unfold magnitudeOf
    omega
  have hlimit : ∀ m, decode t = .ok m → ∀ n, HasNumber t n → magnitudeOf n < 2 ^ 34 := by
    intro m hm n hn
    have hlt := valueOf_lt n
    have hpow : 32 ^ n.length ≤ 32 ^ 7 := Nat.pow_le_pow_right (by decide) (hn.length_le hm)
    unfold magnitudeOf
    omega
  refine ⟨fun m hm => ⟨fun n hn => ⟨hlimit m hm n hn, ?_⟩, ?_⟩, fun n hn hlarge => ?_⟩
  · rw [hhalf, valueOf_lt_iff (hn.length_le hm)]
  · rintro a n b rfl ha hn
    refine ⟨decode_cutNumber ha hn hm, magnitudeOf_cutNumber_lt n, ?_⟩
    rw [valueOf_cutNumber, numberOf_difference_iff, hhalf]
  · cases hdecode : decode t with
    | error e => exact ⟨e, rfl⟩
    | ok m =>
      have := hlimit m hdecode n hn
      omega

/-- A number that repeats a digit before the last one. -/
theorem isNumber_replicate {c last : Char} (hc : isMore c = true) (hlast : isLast last = true)
    (k : Nat) : IsNumber (List.replicate k c ++ [last]) := by
  refine ⟨_, last, rfl, ?_, hlast⟩
  intro d hd
  rwa [List.eq_of_mem_replicate hd]

/-- The largest number of seven digits. -/
def largestNumber : Text := List.replicate 6 '/' ++ ['f']

theorem decode_limits_numbers_largest :
    decode largestNumber = .ok [[⟨1, none⟩]] ∧ HasNumber largestNumber largestNumber ∧
      magnitudeOf largestNumber = 2 ^ 34 - 1 ∧ cutNumber largestNumber = ['C'] ∧
      decode ['C'] = .ok [[⟨1, none⟩]] := by
  have hread : decode largestNumber = .ok [[⟨1, none⟩]] := by decide +kernel
  have hnumber : IsNumber largestNumber := isNumber_replicate rfl rfl 6
  have hcut : cutNumber largestNumber = ['C'] := by decide +kernel
  refine ⟨hread, ⟨[], [], by rfl, by simp [Between], hnumber⟩, by decide +kernel, hcut, ?_⟩
  have hlimits := ((decode_limits_numbers largestNumber).1 _ hread).2 [] largestNumber []
    (by simp) (by simp [Between]) hnumber
  simpa [hcut] using hlimits.1

/-- The number `2 ^ 33`. -/
def wideNumber : Text := List.replicate 6 'g' ++ ['I']

/-- A number out of range is read as zero. -/
theorem decode_cuts_number :
    decode wideNumber = .ok [[⟨0, none⟩]] ∧ HasNumber wideNumber wideNumber ∧
      2 ^ 31 - 1 < magnitudeOf wideNumber :=
  ⟨by decide +kernel, ⟨[], [], by rfl, by simp [Between], isNumber_replicate rfl rfl 6⟩,
    by decide +kernel⟩

end ComponentLint.Mappings
