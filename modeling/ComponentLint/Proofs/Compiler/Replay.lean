import ComponentLint.Proofs.Compiler.Codec
import ComponentLint.Proofs.Json.Text

/-!
# Recorded answers

An answer of the compiler that was recorded is read again as the same answer, down to the order of
the entries in its expressions and patterns.  This holds of every answer that was read from a
document without repeated names.  It holds of the recorded text too as far as the numbers in it are
read again, and whole numbers are.

## Main statements

* `Compiled.survives_recording` — **an answer survives being written and read again**, unless it
  has an ambiguous pattern or a number that does not.
* `Compiled.lost_in_recording` — an answer with a decimal that is not read again, and one with an
  ambiguous pattern.
-/

namespace ComponentLint

open Json Json.Decoder

/-- **An answer survives being written and read again.**  Whatever document an answer was read from,
with any nesting:

* what the answer is written as reads as the same answer, exactly if the answer is unambiguous;
* it is unambiguous if no name is repeated in the document;
* the text it is written as reads as the same answer, if it is unambiguous and its numbers are read
  again, as all whole numbers of 64 bits are.

The same holds of the parts of an answer. -/
theorem Compiled.survives_recording (n : Nesting) (j : Json) :
    (∀ c, Compiled.decode n j = some c →
      (Compiled.decode n c.encode = some c ↔ c.Unambiguous) ∧
      (j.IsValue → c.Unambiguous) ∧
      (c.Unambiguous → (∀ x ∈ c.encode.numbers, x.ReadsBack) →
        (parse? c.encode.render.toList).bind (Compiled.decode n) = some c)) ∧
    (∀ c, Component.decode n j = some c →
      (Component.decode n c.encode = some c ↔ c.Unambiguous) ∧ (j.IsValue → c.Unambiguous)) ∧
    (∀ x, Node.decode n j = some x →
      (Node.decode n x.encode = some x ↔ x.Unambiguous) ∧ (j.IsValue → x.Unambiguous)) ∧
    (∀ e, Expression.decode n j = some e → Expression.decode n e.encode = some e) ∧
    (∀ v, Variable.decode n j = some v → Variable.decode n v.encode = some v) ∧
    (∀ w, Warning.decode n j = some w → Warning.decode n w.encode = some w) ∧
    ∀ i : Int, -0x8000000000000000 ≤ i → i < 0x10000000000000000 → (Number.whole i).ReadsBack := by
  refine ⟨fun c h => ⟨?_, unambiguous_of_isValue h, fun hc hnumbers => ?_⟩, fun c h => ⟨?_, ?_⟩,
    fun x h => ⟨?_, Node.unambiguous_of_isValue h⟩, fun e h => e.stable.reread h,
    fun v h => v.stable.reread h, fun w h => w.stable.reread h,
    fun i hlow hhigh => Number.readsBack_whole hlow hhigh⟩
  · exact ⟨unambiguous_of_decode_encode, fun hc => (stable hc).reread h⟩
  · have hvalue := (stable hc).value h (.inl rfl)
    rw [parse?_render (Option.isSome_of_eq_some hvalue) hnumbers]
    exact (stable hc).reread h
  · exact ⟨Component.unambiguous_of_decode_encode, fun hc => (Component.stable hc).reread h⟩
  · exact Component.unambiguous_of_isValue h
  · exact ⟨Node.unambiguous_of_decode_encode, fun hx => (Node.stable hx).reread h⟩

/-! An answer with a fraction in a pattern, of which one item is no node. -/

/-- The pattern of an `await` block. -/
def mixedPattern : Json :=
  .array [.object [("type", .string "Identifier"), ("start", .ofNat 0), ("end", .ofNat 1)],
    .object [("ratio", .number (.decimal false 5 (-1)))]]

/-- The answer, as it was recorded. -/
def mixedAnswer : Json :=
  .object [("ast", .object [("html", .object [("type", .string "AwaitBlock"), ("start", .ofNat 0),
    ("end", .ofNat 9), ("value", mixedPattern)])]),
    ("warnings", .array [.object [("code", .string "c"), ("message", .string "m")]])]

theorem Compiled.survives_recording_mixedAnswer :
    ∃ c, Compiled.decode Nesting.ofDocument mixedAnswer = some c ∧
      Compiled.decode Nesting.ofDocument c.encode = some c ∧
      Decoder.ofText Compiled.decode c.encode.render.toList = some c := by
  have hvalue : mixedAnswer.IsValue := rfl
  have hnumbers : (Compiled.decode Nesting.ofDocument mixedAnswer).map (·.encode.numbers) =
      some [.whole 0, .whole 9, .whole 0, .whole 1, .decimal false 5 (-1)] := by
    decide +kernel
  obtain ⟨c, hc, hnumbers⟩ := Option.map_eq_some_iff.1 hnumbers
  obtain ⟨hreread, hunambiguous, htext⟩ :=
    (Compiled.survives_recording Nesting.ofDocument mixedAnswer).1 c hc
  refine ⟨c, hc, hreread.2 (hunambiguous hvalue), htext (hunambiguous hvalue) ?_⟩
  rw [hnumbers]
  decide +kernel

/-! Answers that are not read again. -/

/-- An answer, written as arrays, with a number that grows each time it is read. -/
def growingAnswer : Text := "[[null,null,[\"X\",0,1,null,null,7.101215824554616e260]]]".toList

/-- An answer with a pattern that repeats a name. -/
def repeatingAnswer : Json :=
  .array [.array [.null, .null, .object [("type", .string "X"), ("start", .ofNat 0),
    ("end", .ofNat 1), ("value", .array [.object [("type", .string "A"), ("type", .string "B"),
      ("start", .ofNat 2), ("end", .ofNat 3), ("extra", .ofNat 4)]])]]]

/-- A decimal may change when it is read again, and a pattern with a repeated name may become a list
of nodes. -/
theorem Compiled.lost_in_recording :
    (∃ c c', Decoder.ofText Compiled.decode growingAnswer = some c ∧
      Decoder.ofText Compiled.decode c.encode.render.toList = some c' ∧ c' ≠ c) ∧
    ∃ c c', Compiled.decode Nesting.ofDocument repeatingAnswer = some c ∧
      Compiled.decode Nesting.ofDocument c.encode = some c' ∧ c' ≠ c := by
  have hgrowing : ((Decoder.ofText Compiled.decode growingAnswer).bind fun c =>
      (Decoder.ofText Compiled.decode c.encode.render.toList).map fun c' =>
        (c.encode.numbers, c'.encode.numbers)) =
      some ([.whole 0, .whole 1, .decimal false 7101215824554617 245],
        [.whole 0, .whole 1, .decimal false 7101215824554618 245]) := by
    decide +kernel
  have hrepeating : ((Compiled.decode Nesting.ofDocument repeatingAnswer).bind fun c =>
      (Compiled.decode Nesting.ofDocument c.encode).map fun c' =>
        (c.encode.numbers, c'.encode.numbers)) =
      some ([.whole 0, .whole 1, .whole 2, .whole 3, .whole 4],
        [.whole 0, .whole 1, .whole 2, .whole 3]) := by
    decide +kernel
  obtain ⟨c, hc, h⟩ := Option.bind_eq_some_iff.1 hgrowing
  obtain ⟨c', hc', h⟩ := Option.map_eq_some_iff.1 h
  obtain ⟨d, hd, h'⟩ := Option.bind_eq_some_iff.1 hrepeating
  obtain ⟨d', hd', h'⟩ := Option.map_eq_some_iff.1 h'
  refine ⟨⟨c, c', hc, hc', ?_⟩, d, d', hd, hd', ?_⟩
  · rintro rfl
    obtain ⟨hfirst, hsecond⟩ := Prod.mk.inj h
    exact absurd (hfirst.symm.trans hsecond) (by decide)
  · rintro rfl
    obtain ⟨hfirst, hsecond⟩ := Prod.mk.inj h'
    exact absurd (hfirst.symm.trans hsecond) (by decide)

end ComponentLint
