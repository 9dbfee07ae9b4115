import ComponentLint.Json.Printer
import ComponentLint.Json.Token
import Mathlib.Data.List.Basic
import Mathlib.Data.List.TakeWhile

/-!
# Numerals that are read again

A whole number of 64 bits is read again from the digits it is written with.  Other numbers need
not be: what a decimal denotes is rounded twice when it is read.

## Main definitions

* `Number.ReadsBack x` — the number `x` is read again from the numeral it is written as.

## Main statements

* `Json.number?_chars` — a numeral begins and goes on with the characters of numbers.
* `Number.readsBack_whole` — **whole numbers of 64 bits are read again.**
-/

namespace ComponentLint

/-- The number is read again from the numeral it is written as. -/
def Number.ReadsBack (x : Number) : Prop := Json.number? x.render.toList = some (.number x)

/-- The number that a document is. -/
def Json.toNumber? : Json → Option Number
  | .number x => some x
  | _ => none

instance (x : Number) : Decidable x.ReadsBack :=
  decidable_of_iff ((Json.number? x.render.toList).bind Json.toNumber? = some x) <| by
    rw [Number.ReadsBack, Option.bind_eq_some_iff]
    constructor
    · rintro ⟨j, hj, hx⟩
      cases j with
      | number y =>
        cases hx
        exact hj
      | _ => cases hx
    · exact fun h => ⟨_, h, rfl⟩

namespace Json

/-! ### The characters of a numeral -/

theorem isNumberChar_of_isDigit {c : Char} (h : c.isDigit = true) :
    Lexer.isNumberChar c = true := by
  simp [Lexer.isNumberChar, h]

/-- The characters of an exponent go on a number. -/
theorem isNumberChar_of_exponent? {cs : List Char} {e : Int} (h : exponent? cs = some e) :
    ∀ c ∈ cs, Lexer.isNumberChar c = true := by
  unfold exponent? at h
  split at h
  next negative ds hsign =>
  split at h
  · cases h
  next hds =>
  have hdigits : ∀ c ∈ ds, Lexer.isNumberChar c = true := by
    intro c hc
    refine isNumberChar_of_isDigit ?_
    simp only [Bool.or_eq_true, not_or, List.any_eq_true, not_exists, not_and] at hds
    simpa using hds.2 c hc
  split at hsign <;> cases hsign
  · exact List.forall_mem_cons.2 ⟨rfl, hdigits⟩
  · exact List.forall_mem_cons.2 ⟨rfl, hdigits⟩
  · exact hdigits

/-- A run goes on like a number if what is behind the digits at its front does. -/
theorem isNumberChar_of_dropWhile {cs : List Char}
    (h : ∀ c ∈ cs.dropWhile Char.isDigit, Lexer.isNumberChar c = true) :
    ∀ c ∈ cs, Lexer.isNumberChar c = true := by
  intro c hc
  rw [← List.takeWhile_append_dropWhile (p := Char.isDigit) (l := cs), List.mem_append] at hc
  rcases hc with hc | hc
  · exact isNumberChar_of_isDigit (List.all_eq_true.1 List.all_takeWhile c hc)
  · exact h c hc

/-- The sign of a numeral, and what is behind it. -/
def numeralSign : List Char → Bool × List Char
  | '-' :: cs => (true, cs)
  | cs => (false, cs)

/-- The digits behind the point, what is behind them, and whether there is no point. -/
def numeralFraction : List Char → List Char × List Char × Bool
  | '.' :: cs => (cs.takeWhile Char.isDigit, cs.dropWhile Char.isDigit, false)
  | cs => ([], cs, true)

/-- A numeral is read part by part. -/
theorem number?_eq (cs : List Char) : number? cs =
    let sign := numeralSign cs
    let whole := sign.2.takeWhile Char.isDigit
    let fraction := numeralFraction (sign.2.dropWhile Char.isDigit)
    if whole.isEmpty || (whole.head? == some '0' && 1 < whole.length) then none
    else if !fraction.2.2 && fraction.1.isEmpty then none
    else
      match fraction.2.1 with
      | [] =>
        if fraction.2.2 then some (wholeNumber sign.1 whole)
        else some (decimalNumber sign.1 (.ofDigits whole fraction.1 0))
      | e :: cs =>
        if e = 'e' ∨ e = 'E' then
          (exponent? cs).map fun exponent =>
            decimalNumber sign.1 (.ofDigits whole fraction.1 exponent)
        else none := rfl

theorem numeralSign_cases (cs : List Char) :
    cs = '-' :: (numeralSign cs).2 ∨ (numeralSign cs).2 = cs := by
  unfold numeralSign
  split
  · exact .inl rfl
  · exact .inr rfl

theorem numeralFraction_cases (cs : List Char) :
    (∃ rest, cs = '.' :: rest ∧ rest.dropWhile Char.isDigit = (numeralFraction cs).2.1) ∨
      cs = (numeralFraction cs).2.1 := by
  unfold numeralFraction
  split
  · exact .inl ⟨_, rfl, rfl⟩
  · exact .inr rfl

/-- A run of characters that denotes a number begins like one and goes on like one. -/
theorem number?_chars {cs : List Char} {j : Json} (h : number? cs = some j) :
    ∃ c rest, cs = c :: rest ∧ (c.isDigit || c == '-') = true ∧
      ∀ c ∈ rest, Lexer.isNumberChar c = true := by
  rw [number?_eq] at h
  dsimp only at h
  generalize hbody : (numeralSign cs).2 = body at h
  generalize htail : (numeralFraction (body.dropWhile Char.isDigit)).2.1 = tail at h
  split at h
  · cases h
  next hwhole =>
  split at h
  · cases h
  have hchars : ∀ c ∈ tail, Lexer.isNumberChar c = true := by
    split at h
    · exact List.forall_mem_nil _
    · next e cs _ =>
      obtain ⟨he, h⟩ := Option.ite_none_right_eq_some.1 h
      obtain ⟨exponent, hexponent, -⟩ := Option.map_eq_some_iff.1 h
      refine List.forall_mem_cons.2 ⟨?_, isNumberChar_of_exponent? hexponent⟩
      rcases he with rfl | rfl <;> rfl
  -- in front of the exponent stand digits, maybe with a point among them
  have hbodyChars : ∀ c ∈ body, Lexer.isNumberChar c = true := by
    refine isNumberChar_of_dropWhile ?_
    rcases numeralFraction_cases (body.dropWhile Char.isDigit) with ⟨rest, hrest, hdrop⟩ | hdrop
    · rw [hrest]
      refine List.forall_mem_cons.2 ⟨rfl, isNumberChar_of_dropWhile ?_⟩
      rw [hdrop, htail]
      exact hchars
    · rw [hdrop, htail]
      exact hchars
  rcases numeralSign_cases cs with hcs | hcs
  · exact ⟨'-', body, hbody ▸ hcs, rfl, hbodyChars⟩
  · rw [hbody] at hcs
    subst hcs
    -- without a sign, the digits are not missing
    cases body with
    | nil => simp at hwhole
    | cons d ds =>
      refine ⟨d, ds, rfl, ?_, fun c hc => hbodyChars c (List.mem_cons_of_mem d hc)⟩
      cases hd : d.isDigit with
      | true => rfl
      | false => simp [hd] at hwhole

end Json

/-! ### Whole numbers -/

open Json

theorem isDigit_toDigits (n : Nat) : ∀ d ∈ Nat.toDigits 10 n, d.isDigit = true :=
  fun _ hd => Nat.isDigit_of_mem_toDigits (by decide) (by decide) hd

/-- The digits of a number have no leading zero. -/
theorem head?_toDigits {n : Nat} (h : 0 < n) : (Nat.toDigits 10 n).head? ≠ some '0' := by
  induction n using Nat.strongRecOn with
  | ind n ih =>
    rcases Nat.lt_or_ge n 10 with hn | hn
    · have hdigit : ∀ k < 10, 0 < k → some (Nat.digitChar k) ≠ some '0' := by decide
      rw [Nat.toDigits_of_lt_base hn, List.head?_cons]
      exact hdigit n hn h
    · rw [Nat.toDigits_of_base_le (by decide) hn, List.head?_append_of_ne_nil _ Nat.toDigits_ne_nil]
      exact ih (n / 10) (by omega) (by omega)

theorem leadingZero_toDigits (n : Nat) : ((Nat.toDigits 10 n).head? == some '0' &&
    decide (1 < (Nat.toDigits 10 n).length)) = false := by
  rcases Nat.eq_zero_or_pos n with rfl | hn
  · rfl
  · rw [beq_eq_false_iff_ne.2 (head?_toDigits hn), Bool.false_and]

/-- The digits of a number, with a sign or without, denote a whole number. -/
theorem number?_toDigits (negative : Bool) (n : Nat) :
    number? ((if negative then ['-'] else []) ++ Nat.toDigits 10 n) =
      some (wholeNumber negative (Nat.toDigits 10 n)) := by
  have hsign : numeralSign ((if negative then ['-'] else []) ++ Nat.toDigits 10 n) =
      (negative, Nat.toDigits 10 n) := by
    cases negative with
    | true => rfl
    | false =>
      have hdigits := isDigit_toDigits n
      show numeralSign (Nat.toDigits 10 n) = _
      unfold numeralSign
      split
      · next hcs =>
        rw [hcs] at hdigits
        exact absurd (hdigits '-' List.mem_cons_self) (by decide)
      · rfl
  have htake : (Nat.toDigits 10 n).takeWhile Char.isDigit = Nat.toDigits 10 n :=
    List.takeWhile_eq_self_iff.2 (isDigit_toDigits n)
  have hdrop : (Nat.toDigits 10 n).dropWhile Char.isDigit = [] :=
    List.dropWhile_eq_nil_iff.2 (isDigit_toDigits n)
  have hempty : (Nat.toDigits 10 n).isEmpty = false :=
    List.isEmpty_eq_false_iff.2 Nat.toDigits_ne_nil
  rw [number?_eq]
  simp only [hsign, htake, hdrop, hempty, leadingZero_toDigits]
  rfl

theorem digitsValue_toDigits (n : Nat) : digitsValue (Nat.toDigits 10 n) = n :=
  Nat.ofDigitChars_toDigits (by decide) (by decide)

/-- **Whole numbers of 64 bits are read again.** -/
theorem Number.readsBack_whole {i : Int} (hlow : -0x8000000000000000 ≤ i)
    (hhigh : i < 0x10000000000000000) : (Number.whole i).ReadsBack := by
  unfold ReadsBack
  rw [render, Int.toString_eq_repr, Int.repr_eq_if]
  split
  · next hi =>
    rw [Nat.toList_repr]
    refine (number?_toDigits false i.toNat).trans ?_
    unfold wholeNumber
    rw [digitsValue_toDigits, if_neg (by decide), if_pos (by omega), Int.toNat_of_nonneg hi]
  · next hi =>
    rw [String.toList_append, Nat.toList_repr]
    refine (number?_toDigits true (-i).toNat).trans ?_
    unfold wholeNumber
    rw [digitsValue_toDigits, if_pos rfl, if_pos (by omega), Int.toNat_of_nonneg (by omega),
      Int.neg_neg]

end ComponentLint
