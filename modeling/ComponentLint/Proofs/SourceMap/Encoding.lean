import ComponentLint.Proofs.SourceMap.Reader
import Mathlib.Algebra.Ring.Nat

/-!
# Writing mappings

Mappings are written line by line and segment by segment.  Each field is written as the difference
to the value that the field had before, as one number whose lowest bit is the sign, in digits of
five bits from the lowest one on.  Reading what was written gives the mappings back.

The reader is one loop over the characters.  What it does on the writing of a number, of the fields
of a segment, of a line and of all lines is said level by level, each time for a reader in any state
that can stand before such a writing.

## Main definitions

* `Mappings.numberOf d` — the number that stands for the difference `d`.
* `Mappings.writeNumber n` — the digits of `n`.
* `Mappings.Totals.differences t s`, `Mappings.Totals.after t s` — what is written for the segment
  `s` when the fields have the values `t`, and their values after it.
* `Mappings.encode m` — the writing of `m`.

## Main statements

* `Mappings.difference_numberOf` — a number stands for its difference.
* `Mappings.Reader.reads_writeNumber`, `Mappings.Reader.reads_writeSegment`,
  `Mappings.Reader.reads_writeLine` — the levels of reading.
* `Mappings.decode_encode` — **reading undoes writing.**
-/

namespace ComponentLint.Mappings

/-! ### Numbers -/

/-- The digits of base 64, from zero on. -/
def digits : Text :=
  "ABCDEFGHIJKLMNOPQRSTUVWXYZabcdefghijklmnopqrstuvwxyz0123456789+/".toList

/-- The digit of a value. -/
def digitOf (n : Nat) : Char := digits.getD n 'A'

/-- Digits are read as their values. -/
theorem digit?_digitOf {n : Nat} (h : n < 64) : digit? (digitOf n) = some n := by
  have hall : ∀ n < 64, digit? (digitOf n) = some n := by decide +kernel
  exact hall n h

/-- A number in digits of five bits, the lowest ones first.  Every digit but the last one carries
the sixth bit, which says that the number goes on. -/
def writeNumber (n : Nat) : Text :=
  if n < 32 then [digitOf n] else digitOf (n % 32 + 32) :: writeNumber (n / 32)

/-- The number that stands for a difference: the lowest bit is the sign, the others the magnitude.
The least word has no magnitude, and the negative zero stands for it. -/
def numberOf (d : Int32) : Nat :=
  if 0 ≤ d.toInt then 2 * d.toInt.natAbs
  else if d = Int32.minValue then 1
  else 2 * d.toInt.natAbs + 1

/-- A word is the one of its magnitude if it is not negative. -/
private theorem ofNat_natAbs_of_nonneg {d : Int32} (h : 0 ≤ d.toInt) :
    Int32.ofNat d.toInt.natAbs = d := by
  rw [← Int32.ofInt_eq_ofNat, Int.natAbs_of_nonneg h, Int32.ofInt_toInt]

/-- A negative word is the opposite of the one of its magnitude. -/
private theorem neg_ofNat_natAbs_of_neg {d : Int32} (h : d.toInt < 0) :
    -Int32.ofNat d.toInt.natAbs = d := by
  rw [← Int32.ofInt_eq_ofNat, Int.ofNat_natAbs_of_nonpos (Int.le_of_lt h), Int32.ofInt_neg,
    Int32.ofInt_toInt, Int32.neg_neg]

/-- **A number stands for its difference**, for every word. -/
theorem difference_numberOf (d : Int32) : difference (numberOf d) = d := by
  unfold numberOf difference
  by_cases hpos : 0 ≤ d.toInt
  · rw [if_pos hpos, if_pos (by omega), Nat.mul_div_cancel_left _ (by decide)]
    exact ofNat_natAbs_of_nonneg hpos
  · rw [if_neg hpos]
    by_cases hmin : d = Int32.minValue
    · rw [if_pos hmin, hmin]
      decide
    · have hhalf : (2 * d.toInt.natAbs + 1) / 2 = d.toInt.natAbs := by omega
      have hneg := neg_ofNat_natAbs_of_neg (Int.lt_of_not_ge hpos)
      -- only the least word and zero are their own opposites
      have hne : Int32.ofNat d.toInt.natAbs ≠ 0 := by
        intro hzero
        rw [hzero] at hneg
        rw [← hneg] at hpos
        exact hpos (by decide)
      rw [if_neg hmin, if_neg (by omega), hhalf, if_neg hne]
      exact hneg

/-- The number of a difference has 32 bits. -/
theorem numberOf_lt (d : Int32) : numberOf d < 2 ^ 32 := by
  have hlt := d.toInt_lt
  have hge := d.le_toInt
  unfold numberOf
  split
  · omega
  · split
    · decide
    · next hmin =>
      have : d.toInt ≠ Int32.minValue.toInt := fun h => hmin (Int32.toInt_inj.1 h)
      rw [Int32.toInt_minValue] at this
      omega

/-- A number of `5 * k` bits has at most `k` digits. -/
theorem length_writeNumber_le {k n : Nat} (hk : 0 < k) (h : n < 32 ^ k) :
    (writeNumber n).length ≤ k := by
  induction k generalizing n with
  | zero => omega
  | succ k ih =>
    rw [writeNumber]
    split
    · exact Nat.succ_le_succ (Nat.zero_le k)
    · have hdiv : n / 32 < 32 ^ k := Nat.div_lt_of_lt_mul (by rwa [Nat.pow_succ'] at h)
      have hpos : 0 < k := by
        rcases Nat.eq_zero_or_pos k with rfl | hpos
        · omega
        · exact hpos
      exact Nat.succ_le_succ (ih hpos hdiv)

/-- The number of a difference has at most seven digits. -/
theorem length_writeNumber_numberOf_le (d : Int32) : (writeNumber (numberOf d)).length ≤ 7 :=
  length_writeNumber_le (by decide) (Nat.lt_trans (numberOf_lt d) (by decide))

/-! ### Writing -/

/-- The writing of a difference. -/
def writeDifference (d : Int32) : Text := writeNumber (numberOf d)

namespace Totals

/-- The differences of the fields of a segment to the values before it. -/
def differences (t : Totals) (s : Segment) : List Int32 :=
  match s.origin with
  | none => [s.column - t.column]
  | some o =>
    [s.column - t.column, o.source - t.source, o.line - t.line, o.column - t.sourceColumn]
      ++ (o.name.map (· - t.name)).toList

/-- The values after a segment.  A field that the segment does not have keeps its value. -/
def after (t : Totals) (s : Segment) : Totals :=
  match s.origin with
  | none => { t with column := s.column }
  | some o => ⟨s.column, o.source, o.line, o.column, o.name.getD t.name⟩

/-- The values at the start of a line: the generated column starts anew. -/
def newLine (t : Totals) : Totals := { t with column := 0 }

end Totals

/-- The writing of a segment, given the values before it. -/
def writeSegment (t : Totals) (s : Segment) : Text := (t.differences s).flatMap writeDifference

/-- The writings of the segments of a line. -/
def segmentTexts (t : Totals) : List Segment → List Text
  | [] => []
  | s :: rest => writeSegment t s :: segmentTexts (t.after s) rest

/-- The writing of a line. -/
def writeLine (t : Totals) (line : List Segment) : Text := [','].intercalate (segmentTexts t line)

/-- The writings of the lines, given the values before them. -/
def lineTexts (t : Totals) : Mappings → List Text
  | [] => []
  | line :: rest =>
    writeLine t.newLine line :: lineTexts (line.foldl Totals.after t.newLine) rest

/-- The writing of mappings. -/
def encode (m : Mappings) : Text := [';'].intercalate (lineTexts {} m)

/-! ### Reading what was written -/

/-- Adds a row of differences to the fields from a given one on. -/
def Totals.addAll (t : Totals) (field : Nat) : List Int32 → Totals
  | [] => t
  | d :: ds => (t.add d field).addAll (field + 1) ds

/-- The differences of a segment lead to its values. -/
theorem Totals.addAll_differences (t : Totals) (s : Segment) :
    t.addAll 0 (t.differences s) = t.after s := by
  have hback (a b : Int32) : a + (b - a) = b := by
    rw [Int32.add_comm, Int32.sub_add_cancel]
  obtain ⟨column, _ | ⟨source, line, sourceColumn, _ | name⟩⟩ := s <;>
    simp [differences, after, addAll, add, hback]

theorem Totals.length_differences (t : Totals) (s : Segment) :
    (t.differences s).length = s.fields.length := by
  obtain ⟨column, _ | ⟨source, line, sourceColumn, _ | name⟩⟩ := s <;> rfl

namespace Reader

/-- The digits of a number are read as the number, if there is room for them.  Some of the number
may have been read before. -/
theorem reads_writeNumber (r : Reader) (n : Nat) (hcount : r.count ≠ 5)
    (hroom : r.shift + 5 * (writeNumber n).length ≤ 35) :
    (writeNumber n).foldlM step r =
      .ok { r with
        position := r.position + Text.size (writeNumber n)
        totals := r.totals.add (difference (r.value + n <<< r.shift)) r.count
        count := r.count + 1
        value := 0
        shift := 0 } := by
  fun_induction writeNumber n generalizing r with
  | case1 n hn =>
    have hlast : continues n = false := by simp [continues, Nat.div_eq_of_lt hn]
    rw [List.length_singleton] at hroom
    rw [List.foldlM_cons, step_digit r (digit?_digitOf (by omega)),
      readDigit_of_not_continues hlast (by omega) hcount, Nat.mod_eq_of_lt hn]
    rfl
  | case2 n hn ih =>
    have hmore : continues (n % 32 + 32) = true := by
      rw [continues, beq_iff_eq]
      omega
    -- the digits read and those to come make up the number
    have hvalue : (n % 32) <<< r.shift + (n / 32) <<< (r.shift + 5) = n <<< r.shift := by
      rw [Nat.shiftLeft_eq, Nat.shiftLeft_eq, Nat.shiftLeft_eq, Nat.pow_add,
        Nat.mul_comm (2 ^ r.shift), ← Nat.mul_assoc, ← Nat.add_mul, Nat.mod_add_div']
    rw [List.length_cons] at hroom
    rw [List.foldlM_cons, step_digit r (digit?_digitOf (by omega)),
      readDigit_of_continues hmore (by omega)]
    refine (ih _ ?_ ?_).trans ?_
    · exact hcount
    · show r.shift + 5 + 5 * (writeNumber (n / 32)).length ≤ 35
      omega
    · simp only [Nat.add_mod_right, Nat.mod_mod, Nat.add_assoc, hvalue, Text.size_cons]

/-- A row of differences is read field by field. -/
theorem reads_writeDifferences (ds : List Int32) (p : Nat) (t : Totals) (count : Nat)
    (line : List Segment) (lines : Mappings) (hcount : count + ds.length ≤ 5) :
    (ds.flatMap writeDifference).foldlM step ⟨p, t, count, 0, 0, line, lines⟩ =
      .ok ⟨p + Text.size (ds.flatMap writeDifference), t.addAll count ds, count + ds.length, 0, 0,
        line, lines⟩ := by
  induction ds generalizing p t count with
  | nil => rfl
  | cons d ds ih =>
    rw [List.length_cons] at hcount
    have hroom := length_writeNumber_numberOf_le d
    rw [List.flatMap_cons, List.foldlM_append, writeDifference,
      reads_writeNumber _ _ (by show count ≠ 5; omega) (by show 0 + _ ≤ 35; omega)]
    show (ds.flatMap writeDifference).foldlM step ⟨_, _, count + 1, 0, 0, line, lines⟩ = _
    rw [ih _ _ _ (by omega)]
    simp only [Nat.zero_add, Nat.shiftLeft_zero, difference_numberOf, Text.size_append,
      Totals.addAll, List.length_cons, Nat.add_assoc, Nat.add_comm 1]

/-- A segment is read up to its last field. -/
theorem reads_writeSegment (s : Segment) (p : Nat) (t : Totals) (line : List Segment)
    (lines : Mappings) :
    (writeSegment t s).foldlM step ⟨p, t, 0, 0, 0, line, lines⟩ =
      .ok ⟨p + Text.size (writeSegment t s), t.after s, s.fields.length, 0, 0, line, lines⟩ := by
  have hfields : s.fields.length ≤ 5 := by
    obtain ⟨column, _ | ⟨source, line, sourceColumn, _ | name⟩⟩ := s <;>
      simp [Segment.fields]
  rw [writeSegment, reads_writeDifferences _ _ _ _ _ _ (by rw [t.length_differences]; omega),
    t.length_differences, t.addAll_differences, Nat.zero_add]

/-- After its last field, a segment is added to the line. -/
theorem endSegment_after (s : Segment) (p : Nat) (t : Totals) (line : List Segment)
    (lines : Mappings) :
    endSegment ⟨p, t.after s, s.fields.length, 0, 0, line, lines⟩ =
      .ok ⟨p, t.after s, 0, 0, 0, s :: line, lines⟩ := by
  obtain ⟨column, _ | ⟨source, sourceLine, sourceColumn, _ | name⟩⟩ := s <;> rfl

/-- The segments of a line are read up to the last field of the last one. -/
theorem reads_writeLine (segments : List Segment) (p : Nat) (t : Totals) (line : List Segment)
    (lines : Mappings) :
    ∃ r, (writeLine t segments).foldlM step ⟨p, t, 0, 0, 0, line, lines⟩ = .ok r ∧
      r.shift = 0 ∧
      r.endSegment =
        .ok ⟨r.position, segments.foldl Totals.after t, 0, 0, 0, segments.reverse ++ line,
          lines⟩ := by
  induction segments generalizing p t line with
  | nil => exact ⟨_, rfl, rfl, rfl⟩
  | cons s rest ih =>
    have hread := reads_writeSegment s p t line lines
    have hend (p : Nat) := endSegment_after s p t line lines
    rw [writeLine, segmentTexts]
    cases rest with
    | nil => exact ⟨_, by rw [segmentTexts, List.intercalate_singleton]; exact hread, rfl, hend _⟩
    | cons s' rest =>
      rw [segmentTexts, List.intercalate_cons_cons, ← segmentTexts, ← writeLine,
        List.append_assoc, List.foldlM_append, hread]
      -- the comma puts the segment into the line
      obtain ⟨r, hr, hshift, hlast⟩ :=
        ih (p + Text.size (writeSegment t s) + 1) (t.after s) (s :: line)
      refine ⟨r, ?_, hshift, ?_⟩
      · rw [← hr]
        show (step _ ',' >>= _) = _
        rw [step_comma, hend]
        rfl
      · rw [hlast, List.reverse_cons (a := s), List.append_assoc]
        rfl

/-- The lines are read to the end. -/
theorem reads_lineTexts (line : List Segment) (rest : Mappings) (p : Nat) (t : Totals)
    (lines : Mappings) :
    (([';'].intercalate (lineTexts t (line :: rest))).foldlM step
        ⟨p, t.newLine, 0, 0, 0, [], lines⟩ >>= finish) =
      .ok (lines.reverse ++ line :: rest) := by
  induction rest generalizing line p t lines with
  | nil =>
    obtain ⟨r, hr, hshift, hend⟩ := reads_writeLine line p t.newLine [] lines
    rw [lineTexts, lineTexts, List.intercalate_singleton, hr]
    show finish r = _
    rw [finish, if_neg (by rw [hshift]; decide), hend]
    simp [bind, Except.bind, pure, Except.pure, endLine]
  | cons line' rest ih =>
    obtain ⟨r, hr, -, hend⟩ := reads_writeLine line p t.newLine [] lines
    rw [lineTexts, lineTexts, List.intercalate_cons_cons, ← lineTexts, List.append_assoc,
      List.foldlM_append, hr]
    have hstep : r.step ';' =
        .ok ⟨r.position + 1, (line.foldl Totals.after t.newLine).newLine, 0, 0, 0, [],
          line :: lines⟩ := by
      rw [step_semicolon, hend]
      simp [Except.map, endLine, Totals.newLine]
    have hrest := ih line' (r.position + 1) (line.foldl Totals.after t.newLine) (line :: lines)
    rw [List.reverse_cons, List.append_assoc] at hrest
    show ((step r ';' >>= _) >>= finish) = _
    rw [hstep]
    exact hrest

end Reader

/-- **Reading undoes writing.**  Mappings of one line or more are read back from their writing,
whatever the words in their fields are. -/
theorem decode_encode (m : Mappings) (h : m ≠ []) : decode (encode m) = .ok m := by
  obtain ⟨line, rest, rfl⟩ := List.exists_cons_of_ne_nil h
  exact Reader.reads_lineTexts line rest 0 {} []

/-- Segments of all lengths, an empty line, and the least and the greatest word. -/
theorem decode_encode_extreme_words :
    let m : Mappings :=
      [[⟨.minValue, none⟩, ⟨.maxValue, some ⟨.minValue, .maxValue, 0, none⟩⟩], [],
        [⟨-1, some ⟨.maxValue, .minValue, 1, some .minValue⟩⟩]]
    m ≠ [] ∧ decode (encode m) = .ok m :=
  ⟨by decide, decode_encode _ (by decide)⟩

example : encode [[⟨16, some ⟨0, 0, 16, none⟩⟩, ⟨15, some ⟨0, 0, 15, none⟩⟩]] =
    "gBAAgB,DAAD".toList := by decide +kernel

example : encode [[⟨.minValue, none⟩], [⟨.maxValue, none⟩, ⟨.minValue, none⟩]] =
    "B;+/////D,C".toList := by decide +kernel

end ComponentLint.Mappings
