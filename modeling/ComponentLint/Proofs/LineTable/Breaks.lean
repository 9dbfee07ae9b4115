import ComponentLint.Proofs.LineTable.Parts
import ComponentLint.Report

/-!
# Lines and the breaks that end them

A text is broken into lines: each line has neither break character, and each but the last is ended
by a line feed, by a carriage return with the line feed behind it, or by a carriage return that no
line feed follows.  A line table starts its lines behind these breaks, so a line of the table is cut
out together with the one break that ends it, and taking the break characters off its end leaves the
line.

## Main definitions

* `Text.IsBreak stop rest` — `stop` is a line break when `rest` follows it.
* `EndedLine` — a line and the break that ends it.
* `Text.BrokenInto t lines` — `lines` are the lines of `t`.

## Main statements

* `Text.exists_brokenInto` — every text is broken into lines.
* `LineTable.starts_ended` — where the lines start behind a line and its break.
* `Text.BrokenInto.count_eq`, `Text.BrokenInto.lineAt?_eq` — the lines that are counted and shown.
* `shown_lines_make_text` — **what is shown of a text are its lines, without the breaks.**
-/

namespace ComponentLint

namespace Text

/-! ### Breaking a text into lines -/

/-- A line break, when `rest` follows it. -/
inductive IsBreak : Text → Text → Prop
  | feed (rest : Text) : IsBreak ['\n'] rest
  | returnFeed (rest : Text) : IsBreak ['\r', '\n'] rest
  /-- A carriage return is a break of its own unless a line feed follows it. -/
  | ret {rest : Text} (h : rest.head? ≠ some '\n') : IsBreak ['\r'] rest

end Text

/-- A line and the break that ends it; nothing ends the last line of a text. -/
structure EndedLine where
  line : Text
  stop : Text
  deriving DecidableEq, Repr

/-- The line with its break. -/
def EndedLine.text (l : EndedLine) : Text := l.line ++ l.stop

namespace Text

/-- The lines of a text, each with the break that ends it. -/
inductive BrokenInto : Text → List EndedLine → Prop
  /-- The last line ends with the text. -/
  | last {line : Text} (hline : Unbroken line) : BrokenInto line [⟨line, []⟩]
  /-- A line, its break, and the lines behind it. -/
  | ended {line stop rest : Text} {lines : List EndedLine} (hline : Unbroken line)
      (hstop : IsBreak stop rest) (hrest : BrokenInto rest lines) :
      BrokenInto (line ++ stop ++ rest) (⟨line, stop⟩ :: lines)

/-- Every character of a break is a break character. -/
theorem IsBreak.isBreakChar {stop rest : Text} (h : IsBreak stop rest) {c : Char} (hc : c ∈ stop) :
    c = '\n' ∨ c = '\r' := by
  cases h with
  | feed => exact Or.inl (List.mem_singleton.1 hc)
  | returnFeed => simpa [or_comm] using hc
  | ret => exact Or.inr (List.mem_singleton.1 hc)

/-- A text has no break, or begins with a line and the break that ends it. -/
theorem unbroken_or_exists_break (t : Text) :
    Unbroken t ∨
      ∃ line stop rest, t = line ++ stop ++ rest ∧ Unbroken line ∧ IsBreak stop rest := by
  induction t with
  | nil => exact Or.inl (List.forall_mem_nil _)
  | cons c t ih =>
    by_cases hfeed : c = '\n'
    · subst hfeed
      exact Or.inr ⟨[], ['\n'], t, rfl, List.forall_mem_nil _, IsBreak.feed t⟩
    by_cases hret : c = '\r'
    · subst hret
      by_cases ht : t.head? = some '\n'
      · obtain ⟨r, rfl⟩ := List.head?_eq_some_iff.1 ht
        exact Or.inr ⟨[], ['\r', '\n'], r, rfl, List.forall_mem_nil _, IsBreak.returnFeed r⟩
      · exact Or.inr ⟨[], ['\r'], t, rfl, List.forall_mem_nil _, IsBreak.ret ht⟩
    rcases ih with h | ⟨line, stop, rest, rfl, hline, hstop⟩
    · exact Or.inl (List.forall_mem_cons.2 ⟨⟨hfeed, hret⟩, h⟩)
    · have hcons := List.forall_mem_cons.2 ⟨⟨hfeed, hret⟩, hline⟩
      exact Or.inr ⟨c :: line, stop, rest, rfl, hcons, hstop⟩

/-- Every text is broken into lines. -/
theorem exists_brokenInto (t : Text) : ∃ lines, BrokenInto t lines := by
  induction hn : t.length using Nat.strong_induction_on generalizing t with
  | _ n ih =>
    rcases unbroken_or_exists_break t with h | ⟨line, stop, rest, rfl, hline, hstop⟩
    · exact ⟨_, BrokenInto.last h⟩
    · -- a break has characters, so less is left behind it
      have hpos : 0 < stop.length := by cases hstop <;> simp
      simp only [List.length_append] at hn
      obtain ⟨lines, hlines⟩ := ih rest.length (by omega) rest rfl
      exact ⟨_, BrokenInto.ended hline hstop hlines⟩

namespace BrokenInto

variable {t : Text} {lines : List EndedLine}

/-- Nothing is lost between the lines. -/
theorem flatMap_text (h : BrokenInto t lines) : lines.flatMap EndedLine.text = t := by
  induction h with
  | last hline => simp [EndedLine.text]
  | ended hline hstop hrest ih => rw [List.flatMap_cons, ih, EndedLine.text]

theorem unbroken (h : BrokenInto t lines) {l : EndedLine} (hl : l ∈ lines) : Unbroken l.line := by
  induction h with
  | last hline =>
    obtain rfl := List.mem_singleton.1 hl
    exact hline
  | ended hline hstop hrest ih =>
    rcases List.mem_cons.1 hl with rfl | hl
    · exact hline
    · exact ih hl

end BrokenInto

end Text

/-! ### Where lines start behind a line and its break -/

open Text

variable {line stop rest : Text}

/-- One line starts behind a break. -/
theorem lineStartsFrom_break (hstop : IsBreak stop rest) (start : Nat) :
    lineStartsFrom start (stop ++ rest) =
      (start + size stop) :: lineStartsFrom (start + size stop) rest := by
  cases hstop with
  | feed => rfl
  | returnFeed => rfl
  | ret h =>
    have hends : endsLine '\r' rest.head? = true := endsLine_iff.2 (Or.inr ⟨rfl, h⟩)
    rw [List.singleton_append, lineStartsFrom, if_pos hends]
    rfl

namespace LineTable

/-- The lines behind a line and its break are those of the rest. -/
theorem starts_ended (hline : Unbroken line) (hstop : IsBreak stop rest) :
    (ofText (line ++ stop ++ rest)).starts =
      0 :: (ofText rest).starts.map (Text.size (line ++ stop) + ·) := by
  have hstarts : lineStartsFrom 0 (line ++ stop ++ rest) =
      Text.size (line ++ stop) :: lineStartsFrom (Text.size (line ++ stop)) rest := by
    rw [List.append_assoc, lineStartsFrom_append_of_unbroken hline, lineStartsFrom_break hstop,
      Nat.zero_add, ← size_append]
  have hrest := lineStartsFrom_add (Text.size (line ++ stop)) 0 rest
  rw [Nat.add_zero] at hrest
  show 0 :: lineStartsFrom 0 (line ++ stop ++ rest) = _
  rw [hstarts, hrest]
  rfl

/-- A text without breaks has one line. -/
theorem starts_of_unbroken {t : Text} (h : Unbroken t) : (ofText t).starts = [0] := by
  have hstarts := lineStartsFrom_append_of_unbroken h 0 []
  rw [List.append_nil] at hstarts
  rw [ofText, hstarts]
  rfl

end LineTable

theorem Text.BrokenInto.count_eq {t : Text} {lines : List EndedLine} (h : BrokenInto t lines) :
    (LineTable.ofText t).count = lines.length := by
  induction h with
  | last hline =>
    rw [LineTable.count, LineTable.starts_of_unbroken hline]
    rfl
  | ended hline hstop hrest ih =>
    rw [LineTable.count, LineTable.starts_ended hline hstop, List.length_cons, List.length_map,
      List.length_cons, ← ih]
    rfl

/-! ### The line that is shown -/

/-- Taking break characters off the end leaves a line that has none. -/
theorem dropWhile_breaks (hline : Unbroken line)
    (hstop : ∀ c ∈ stop, c = '\n' ∨ c = '\r') :
    ((line ++ stop).reverse.dropWhile fun c => c == '\n' || c == '\r').reverse = line := by
  have hpos : ∀ c ∈ stop.reverse, (c == '\n' || c == '\r') = true := by
    intro c hc
    simpa using hstop c (List.mem_reverse.1 hc)
  have hneg : line.reverse.dropWhile (fun c => c == '\n' || c == '\r') = line.reverse := by
    cases hreverse : line.reverse with
    | nil => rfl
    | cons c r =>
      have hc : c ∈ line := by
        rw [← List.mem_reverse, hreverse]
        exact List.mem_cons_self
      exact List.dropWhile_cons_of_neg (by simpa using hline c hc)
  rw [List.reverse_append, List.dropWhile_append_of_pos hpos, hneg, List.reverse_reverse]

/-- A line is shown if the table has it: it is cut out up to the start of the next one. -/
theorem lineAt?_succ (t : Text) (i : Nat) :
    lineAt? t (i + 1) = ((LineTable.ofText t).startOf? i).bind fun start =>
      (slice? t start (((LineTable.ofText t).startOf? (i + 1)).getD (size t))).map fun text =>
        (text.reverse.dropWhile fun c => c == '\n' || c == '\r').reverse := by
  simp only [Option.map_eq_bind]
  rfl

/-- The only line of a text without breaks. -/
theorem lineAt?_of_unbroken {t : Text} (h : Unbroken t) (i : Nat) :
    lineAt? t (i + 1) = [t][i]? := by
  have hstart (j : Nat) : (LineTable.ofText t).startOf? j = [0][j]? := by
    rw [LineTable.startOf?, LineTable.starts_of_unbroken h]
  rw [lineAt?_succ, hstart, hstart]
  cases i with
  | zero =>
    have hslice : slice? t 0 (size t) = some t :=
      slice?_eq_some_iff.2 ⟨[], [], (List.append_nil t).symm, rfl, Nat.zero_add _⟩
    have htrim := @dropWhile_breaks t [] h (by simp)
    rw [List.append_nil] at htrim
    simp [hslice, htrim]
  | succ i => simp

/-- The first line of a text is cut out with its break. -/
theorem lineAt?_ended_one (hline : Unbroken line) (hstop : IsBreak stop rest) :
    lineAt? (line ++ stop ++ rest) 1 = some line := by
  have hnext : (LineTable.ofText (line ++ stop ++ rest)).startOf? 1 =
      some (size (line ++ stop)) := by
    rw [LineTable.startOf?, LineTable.starts_ended hline hstop]
    rfl
  have hslice : slice? (line ++ stop ++ rest) 0 (size (line ++ stop)) = some (line ++ stop) :=
    slice?_eq_some_iff.2 ⟨[], rest, rfl, rfl, Nat.zero_add _⟩
  rw [lineAt?_succ, (LineTable.ofText_wellFormed _).first, Option.bind_some, hnext,
    Option.getD_some, hslice, Option.map_some]
  exact congrArg some (dropWhile_breaks hline fun _ => hstop.isBreakChar)

/-- The other lines of a text are those of what follows the first break. -/
theorem lineAt?_ended_succ (hline : Unbroken line) (hstop : IsBreak stop rest) (i : Nat) :
    lineAt? (line ++ stop ++ rest) (i + 2) = lineAt? rest (i + 1) := by
  have hstart (j : Nat) : (LineTable.ofText (line ++ stop ++ rest)).startOf? (j + 1) =
      ((LineTable.ofText rest).startOf? j).map (size (line ++ stop) + ·) := by
    rw [LineTable.startOf?, LineTable.starts_ended hline hstop, List.getElem?_cons_succ,
      List.getElem?_map]
    rfl
  have hnext : ((LineTable.ofText (line ++ stop ++ rest)).startOf? (i + 2)).getD
        (size (line ++ stop ++ rest)) =
      size (line ++ stop) + ((LineTable.ofText rest).startOf? (i + 1)).getD (size rest) := by
    rw [hstart, size_append (line ++ stop), Option.getD_map]
  rw [lineAt?_succ, lineAt?_succ, hstart, hnext, Option.bind_map]
  congr 1
  funext start
  rw [Function.comp_apply, slice?_append_right]

/-- What is shown are the lines, without their breaks. -/
theorem Text.BrokenInto.lineAt?_eq {t : Text} {lines : List EndedLine} (h : BrokenInto t lines)
    (i : Nat) : lineAt? t (i + 1) = lines[i]?.map EndedLine.line := by
  induction h generalizing i with
  | last hline =>
    rw [lineAt?_of_unbroken hline, ← List.getElem?_map]
    rfl
  | ended hline hstop hrest ih =>
    cases i with
    | zero => exact lineAt?_ended_one hline hstop
    | succ i => rw [lineAt?_ended_succ hline hstop, ih, List.getElem?_cons_succ]

/-- A line is shown for every number of a line, from one. -/
theorem isSome_lineAt?_iff (t : Text) (n : Nat) :
    (lineAt? t n).isSome ↔ 1 ≤ n ∧ n ≤ (LineTable.ofText t).count := by
  obtain ⟨lines, h⟩ := exists_brokenInto t
  cases n with
  | zero => simp [lineAt?]
  | succ i =>
    rw [h.lineAt?_eq, Option.isSome_map, h.count_eq, isSome_getElem?]
    exact ⟨fun hi => ⟨Nat.succ_pos i, hi⟩, fun hi => hi.2⟩

/-- The lines from the first one to the last. -/
theorem Text.BrokenInto.map_lineAt? {t : Text} {lines : List EndedLine} (h : BrokenInto t lines) :
    (List.range' 1 (LineTable.ofText t).count).map (lineAt? t) = lines.map (some ·.line) := by
  apply List.ext_getElem
  · simp [h.count_eq]
  · intro i hi hlines
    rw [List.length_map] at hlines
    rw [List.getElem_map, List.getElem_range', Nat.one_mul, Nat.add_comm, h.lineAt?_eq,
      List.getElem?_eq_getElem hlines, List.getElem_map]
    rfl

/-- **What is shown of a text are its lines, without the breaks.**  For every text:

* a line is shown for the numbers from one up to the number of lines, and for no other one;
* no break character is shown;
* the lines that are shown, each with the break that ends it, make up the text. -/
theorem shown_lines_make_text (source : Text) :
    let count := (LineTable.ofText source).count
    (∀ n, (lineAt? source n).isSome ↔ 1 ≤ n ∧ n ≤ count) ∧
    (∀ n line, lineAt? source n = some line → '\n' ∉ line ∧ '\r' ∉ line) ∧
    ∃ lines, BrokenInto source lines ∧
      (List.range' 1 count).map (lineAt? source) = lines.map (some ·.line) ∧
      lines.flatMap EndedLine.text = source := by
  obtain ⟨lines, hlines⟩ := exists_brokenInto source
  refine ⟨isSome_lineAt?_iff source, ?_, lines, hlines, hlines.map_lineAt?, hlines.flatMap_text⟩
  intro n line hshown
  cases n with
  | zero => cases hshown
  | succ i =>
    rw [hlines.lineAt?_eq] at hshown
    obtain ⟨l, hl, rfl⟩ := Option.map_eq_some_iff.1 hshown
    exact unbroken_iff.1 (hlines.unbroken (List.mem_of_getElem? hl))

/-- Two carriage returns before a line feed make two breaks, and a break at the end begins a last
line, which is empty. -/
example : (List.range 6).map (lineAt? ['a', '\r', '\r', '\n', 'ä', '\n']) =
    [none, some ['a'], some [], some ['ä'], some [], none] := by decide

end ComponentLint
