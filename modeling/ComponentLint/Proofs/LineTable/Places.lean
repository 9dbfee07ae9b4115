import ComponentLint.Proofs.LineTable
import Mathlib.Data.Prod.Lex
import Mathlib.Order.Interval.Set.Defs

/-!
# Offsets and places

Both conversions of a line table are described by one relation: a place belongs to an offset if
its line is there, if its column counts from the start of that line, and if no later line has
started.  Every offset of the text has one such place, and every place has one offset at most, so
that each conversion undoes the other one where it can.  What else is said about them rests on the
order of the line starts.

## Main definitions

* `Place.key` — places are compared by line, then by column.
* `LineTable.WellFormed table` — the lines start one behind the other, inside the text.
* `LineTable.IsPlaceOf table p o` — place `p` belongs to offset `o`.
* `LineTable.Has table p` — the text has the place `p`.

## Main statements

* `LineTable.mem_starts_iff` — where lines start, by bytes.
* `LineTable.WellFormed.isPlaceOf_placeOf`, `LineTable.IsPlaceOf.offsetOf_eq` — what the two
  conversions find.
* `LineTable.WellFormed.place_le_place` — **places come in the order of their offsets.**
* `LineTable.conversions_order_iso` — **the two conversions are inverse to each other and keep the
  order.**
-/

namespace ComponentLint

/-! ### The order of places -/

namespace Place

/-- Line and column, to be compared in this order. -/
def key (p : Place) : ℕ ×ₗ ℕ := toLex (p.line, p.column)

theorem key_injective : Function.Injective key := by
  rintro ⟨line, column⟩ ⟨line', column'⟩ h
  obtain ⟨rfl, rfl⟩ := Prod.mk.inj (toLex.injective h)
  rfl

/-- Places come in the order of the text: by line, then by column. -/
instance : PartialOrder Place := PartialOrder.lift key key_injective

theorem le_iff {p q : Place} :
    p ≤ q ↔ p.line < q.line ∨ p.line = q.line ∧ p.column ≤ q.column :=
  Prod.Lex.toLex_le_toLex

end Place

/-! ### Where lines start -/

theorem endsLine_iff {c : Char} {next? : Option Char} :
    endsLine c next? = true ↔ c = '\n' ∨ c = '\r' ∧ next? ≠ some '\n' := by
  simp [endsLine]

theorem utf8Size_of_endsLine {c : Char} {next? : Option Char} (h : endsLine c next? = true) :
    c.utf8Size = 1 := by
  rcases endsLine_iff.1 h with rfl | ⟨rfl, -⟩ <;> rfl

/-- A line starts behind every character that ends one, and nowhere else. -/
theorem mem_lineStartsFrom_iff {start n : Nat} {t : Text} :
    n ∈ lineStartsFrom start t ↔
      ∃ s c r, t = s ++ c :: r ∧ endsLine c r.head? = true ∧ n = start + Text.size s + 1 := by
  induction t generalizing start with
  | nil => simp [lineStartsFrom]
  | cons d t ih =>
    have hmem : n ∈ lineStartsFrom start (d :: t) ↔
        (endsLine d t.head? = true ∧ n = start + d.utf8Size) ∨
          n ∈ lineStartsFrom (start + d.utf8Size) t := by
      rw [lineStartsFrom]
      split
      · next h => simp [h]
      · next h => simp [h]
    rw [hmem, ih]
    constructor
    · rintro (⟨hends, rfl⟩ | ⟨s, c, r, rfl, hends, rfl⟩)
      · exact ⟨[], d, t, rfl, hends, by rw [utf8Size_of_endsLine hends]; rfl⟩
      · refine ⟨d :: s, c, r, rfl, hends, ?_⟩
        rw [Text.size_cons]
        omega
    · rintro ⟨s, c, r, ht, hends, rfl⟩
      cases s with
      | nil =>
        obtain ⟨rfl, rfl⟩ := List.cons.inj ht
        exact Or.inl ⟨hends, by rw [utf8Size_of_endsLine hends]; rfl⟩
      | cons e s =>
        obtain ⟨rfl, rfl⟩ := List.cons.inj ht
        refine Or.inr ⟨s, c, r, rfl, hends, ?_⟩
        rw [Text.size_cons]
        omega

/-- Lines start one behind the other. -/
theorem pairwise_lineStartsFrom (start : Nat) (t : Text) :
    (lineStartsFrom start t).Pairwise (· < ·) := by
  induction t generalizing start with
  | nil => exact List.Pairwise.nil
  | cons c t ih =>
    rw [lineStartsFrom]
    split
    · exact List.pairwise_cons.2 ⟨fun n hn => lt_of_mem_lineStartsFrom hn, ih _⟩
    · exact ih _

namespace LineTable

/-- Lines start at offset 0, behind every line feed, and behind every carriage return that no line
feed follows. -/
theorem mem_starts_iff (t : Text) (n : Nat) :
    n ∈ (ofText t).starts ↔ n = 0 ∨ 1 ≤ n ∧ n ≤ Text.size t ∧
      ((Text.bytes t)[n - 1]? = some feed ∨
        (Text.bytes t)[n - 1]? = some ret ∧ (Text.bytes t)[n]? ≠ some feed) := by
  -- the byte behind a carriage return
  have hbehind : ∀ s r : Text, (Text.bytes (s ++ '\r' :: r))[Text.size s + 1]? = some feed ↔
      r.head? = some '\n' := by
    intro s r
    rw [List.append_cons, ← Text.getElem?_bytes_size_eq_feed_iff (s ++ ['\r']), Text.size_append]
    rfl
  have hfeed_iff {u : Text} {k : Nat} : (Text.bytes u)[k]? = some feed ↔
      ∃ s r, u = s ++ '\n' :: r ∧ Text.size s = k :=
    Text.getElem?_bytes_eq_some_iff (by decide) utf8EncodeChar_feed
  have hret_iff {u : Text} {k : Nat} : (Text.bytes u)[k]? = some ret ↔
      ∃ s r, u = s ++ '\r' :: r ∧ Text.size s = k :=
    Text.getElem?_bytes_eq_some_iff (by decide) utf8EncodeChar_ret
  show n ∈ 0 :: lineStartsFrom 0 t ↔ _
  rw [List.mem_cons]
  refine or_congr_right ⟨fun hn => ?_, ?_⟩
  · have hpos := lt_of_mem_lineStartsFrom hn
    have hle := le_of_mem_lineStartsFrom hn
    rw [Nat.zero_add] at hle
    refine ⟨hpos, hle, ?_⟩
    obtain ⟨s, c, r, rfl, hends, rfl⟩ := mem_lineStartsFrom_iff.1 hn
    rw [Nat.zero_add, Nat.add_sub_cancel]
    rcases endsLine_iff.1 hends with rfl | ⟨rfl, hnext⟩
    · exact Or.inl (hfeed_iff.2 ⟨s, r, rfl, rfl⟩)
    · refine Or.inr ⟨hret_iff.2 ⟨s, r, rfl, rfl⟩, ?_⟩
      rwa [Ne, hbehind]
  · rintro ⟨hpos, -, hfeed | ⟨hret, hnext⟩⟩
    · obtain ⟨s, r, rfl, hs⟩ := hfeed_iff.1 hfeed
      exact mem_lineStartsFrom_iff.2 ⟨s, '\n', r, rfl, endsLine_iff.2 (Or.inl rfl), by omega⟩
    · obtain ⟨s, r, rfl, hs⟩ := hret_iff.1 hret
      obtain rfl : n = Text.size s + 1 := by omega
      rw [Ne, hbehind] at hnext
      exact mem_lineStartsFrom_iff.2
        ⟨s, '\r', r, rfl, endsLine_iff.2 (Or.inr ⟨rfl, hnext⟩), by omega⟩

/-! ### Well-formed tables -/

/-- The first line starts at offset 0, and the others one behind the other inside the text. -/
structure WellFormed (table : LineTable) : Prop where
  first : table.startOf? 0 = some 0
  increasing : table.starts.Pairwise (· < ·)
  le_size : ∀ n ∈ table.starts, n ≤ table.size

theorem ofText_wellFormed (t : Text) : (ofText t).WellFormed where
  first := rfl
  increasing := List.pairwise_cons.2
    ⟨fun _ hn => lt_of_mem_lineStartsFrom hn, pairwise_lineStartsFrom 0 t⟩
  le_size := by
    intro n hn
    rcases List.mem_cons.1 hn with rfl | hn
    · exact Nat.zero_le _
    · have hle := le_of_mem_lineStartsFrom hn
      rwa [Nat.zero_add] at hle

variable {table : LineTable}

/-- A later line starts further on. -/
theorem WellFormed.start_lt (h : table.WellFormed) {i j a b : Nat}
    (hi : table.startOf? i = some a) (hj : table.startOf? j = some b) (hij : i < j) : a < b := by
  obtain ⟨hi', rfl⟩ := List.getElem?_eq_some_iff.1 hi
  obtain ⟨hj', rfl⟩ := List.getElem?_eq_some_iff.1 hj
  exact List.pairwise_iff_getElem.1 h.increasing i j hi' hj' hij

theorem WellFormed.start_le (h : table.WellFormed) {i j a b : Nat}
    (hi : table.startOf? i = some a) (hj : table.startOf? j = some b) (hij : i ≤ j) : a ≤ b := by
  rcases Nat.eq_or_lt_of_le hij with rfl | hlt
  · exact Nat.le_of_eq (Option.some.inj (hi.symm.trans hj))
  · exact Nat.le_of_lt (h.start_lt hi hj hlt)

theorem WellFormed.start_le_size (h : table.WellFormed) {i a : Nat}
    (hi : table.startOf? i = some a) : a ≤ table.size :=
  h.le_size a (List.mem_of_getElem? hi)

/-- The lines before one that is there are there. -/
theorem exists_startOf?_of_le {i j a : Nat} (hj : table.startOf? j = some a) (hij : i ≤ j) :
    ∃ b, table.startOf? i = some b := by
  have hlen : j < table.starts.length := (List.getElem?_eq_some_iff.1 hj).1
  exact ⟨_, List.getElem?_eq_getElem (Nat.lt_of_le_of_lt hij hlen)⟩

/-! ### The place of an offset -/

/-- Place `p` belongs to offset `o`: its column counts from the start of its line, and the next
line starts behind `o`. -/
def IsPlaceOf (table : LineTable) (p : Place) (o : Nat) : Prop :=
  ∃ start, table.startOf? p.line = some start ∧ o = start + p.column ∧ o ≤ table.size ∧
    ∀ next, table.startOf? (p.line + 1) = some next → o < next

/-- The text has the place: its line is there, and its column lies before the start of the next
line, or on the last line not behind the end of the text. -/
def Has (table : LineTable) (p : Place) : Prop :=
  ∃ start, table.startOf? p.line = some start ∧
    match table.startOf? (p.line + 1) with
    | some next => start + p.column < next
    | none => start + p.column ≤ table.size

/-- The lines that start up to an offset, the last of them, and those that start behind it. -/
theorem WellFormed.exists_starts (h : table.WellFormed) (o : Nat) :
    ∃ init start after, table.starts.takeWhile (· ≤ o) = init ++ [start] ∧
      table.starts = init ++ start :: after ∧ start ≤ o ∧ ∀ next ∈ after.head?, o < next := by
  have hne : table.starts.takeWhile (· ≤ o) ≠ [] := by
    obtain ⟨rest, hrest⟩ := List.head?_eq_some_iff.1 (List.head?_eq_getElem?.trans h.first)
    rw [hrest, List.takeWhile_cons_of_pos (by simp)]
    exact List.cons_ne_nil _ _
  obtain ⟨init, start, hbefore⟩ :
      ∃ init start, table.starts.takeWhile (· ≤ o) = init ++ [start] :=
    ⟨_, _, (List.dropLast_concat_getLast hne).symm⟩
  have hcut := List.takeWhile_append_dropWhile (p := (· ≤ o)) (l := table.starts)
  rw [hbefore, List.append_assoc, List.singleton_append] at hcut
  refine ⟨init, start, _, hbefore, hcut.symm, ?_, ?_⟩
  · have hmem : start ∈ table.starts.takeWhile (· ≤ o) := by
      rw [hbefore]
      exact List.mem_append_right _ List.mem_cons_self
    simpa using List.all_eq_true.1 List.all_takeWhile start hmem
  · intro next hnext
    have hnot := List.head?_dropWhile_not (· ≤ o) table.starts
    rw [Option.mem_def.1 hnext] at hnot
    simpa using hnot

/-- Of every offset inside the text the place is found. -/
theorem WellFormed.isPlaceOf_placeOf (h : table.WellFormed) {o : Nat} (ho : o ≤ table.size) :
    table.IsPlaceOf (table.placeOf o) o := by
  obtain ⟨init, start, after, hbefore, hstarts, hle, hnext⟩ := h.exists_starts o
  have hplace : table.placeOf o = ⟨init.length, o - start⟩ := by
    rw [placeOf, Nat.min_eq_left ho]
    simp [hbefore]
  rw [hplace]
  refine ⟨start, ?_, (Nat.add_sub_cancel' hle).symm, ho, ?_⟩
  · show table.starts[init.length]? = some start
    rw [hstarts]
    simp
  · intro next hn
    have hn : table.starts[init.length + 1]? = some next := hn
    rw [hstarts, List.getElem?_append_right (Nat.le_add_right ..), Nat.add_sub_cancel_left] at hn
    exact hnext next (List.head?_eq_getElem?.trans hn)

/-- A place leads back to the offset it belongs to. -/
theorem IsPlaceOf.offsetOf_eq {p : Place} {o : Nat} (hp : table.IsPlaceOf p o) :
    table.offsetOf p = o := by
  obtain ⟨start, hstart, rfl, hle, hnext⟩ := hp
  rw [offsetOf, hstart]
  refine Nat.min_eq_left ?_
  cases h : table.startOf? (p.line + 1) with
  | none => exact hle
  | some next => exact Nat.le_of_lt (hnext next h)

/-- **Places come in the order of their offsets.** -/
theorem WellFormed.place_le_place (h : table.WellFormed) {p q : Place} {a b : Nat}
    (hp : table.IsPlaceOf p a) (hq : table.IsPlaceOf q b) (hab : a ≤ b) : p ≤ q := by
  obtain ⟨start, hstart, rfl, -, -⟩ := hp
  obtain ⟨start', hstart', rfl, -, hnext'⟩ := hq
  rw [Place.le_iff]
  rcases Nat.lt_trichotomy p.line q.line with hlt | heq | hgt
  · exact Or.inl hlt
  · rw [heq, hstart'] at hstart
    obtain rfl : start' = start := Option.some.inj hstart
    exact Or.inr ⟨heq, by omega⟩
  · -- the line of `b` would end before that of `a` starts
    obtain ⟨next, hnext⟩ := exists_startOf?_of_le hstart (Nat.succ_le_of_lt hgt)
    have hb := hnext' next hnext
    have hle := h.start_le hnext hstart (Nat.succ_le_of_lt hgt)
    omega

/-- An offset has one place only. -/
theorem WellFormed.placeOf_eq (h : table.WellFormed) {p : Place} {o : Nat}
    (hp : table.IsPlaceOf p o) : table.placeOf o = p := by
  have hle : o ≤ table.size := by
    obtain ⟨_, _, _, hle, _⟩ := hp
    exact hle
  have hfound := h.isPlaceOf_placeOf hle
  exact le_antisymm (h.place_le_place hfound hp (Nat.le_refl o))
    (h.place_le_place hp hfound (Nat.le_refl o))

/-- An offset further on has a place further on. -/
theorem WellFormed.strictMonoOn_placeOf (h : table.WellFormed) :
    StrictMonoOn table.placeOf (Set.Iic table.size) := by
  intro a ha b hb hab
  have hpa := h.isPlaceOf_placeOf ha
  have hpb := h.isPlaceOf_placeOf hb
  refine lt_of_le_of_ne (h.place_le_place hpa hpb (Nat.le_of_lt hab)) fun heq => ?_
  rw [heq] at hpa
  exact Nat.ne_of_lt hab (hpa.offsetOf_eq.symm.trans hpb.offsetOf_eq)

/-- Behind the end, the place is that of the end. -/
theorem placeOf_min_size (table : LineTable) (o : Nat) :
    table.placeOf (min o table.size) = table.placeOf o := by
  rw [placeOf, placeOf, Nat.min_assoc, Nat.min_self]

/-- An offset further on has no earlier place, whether the text has it or not. -/
theorem WellFormed.monotone_placeOf (h : table.WellFormed) : Monotone table.placeOf := by
  intro a b hab
  rw [← placeOf_min_size table a, ← placeOf_min_size table b]
  refine h.strictMonoOn_placeOf.monotoneOn (Nat.min_le_right _ _) (Nat.min_le_right _ _) ?_
  omega

/-! ### The offset of a place -/

/-- The places of a text are those of its offsets. -/
theorem WellFormed.has_iff (h : table.WellFormed) {p : Place} :
    table.Has p ↔ ∃ o, table.IsPlaceOf p o := by
  constructor
  · rintro ⟨start, hstart, hcolumn⟩
    refine ⟨_, start, hstart, rfl, ?_, ?_⟩
    · split at hcolumn
      · next next hnext => exact Nat.le_trans (Nat.le_of_lt hcolumn) (h.start_le_size hnext)
      · exact hcolumn
    · intro next hnext
      rwa [hnext] at hcolumn
  · rintro ⟨o, start, hstart, rfl, hle, hnext⟩
    refine ⟨start, hstart, ?_⟩
    split
    · next next hn => exact hnext next hn
    · exact hle

/-- A place leads to an offset and back exactly if the text has it. -/
theorem placeOf_offsetOf_iff (t : Text) (p : Place) :
    (ofText t).placeOf ((ofText t).offsetOf p) = p ↔ (ofText t).Has p := by
  have h := ofText_wellFormed t
  rw [h.has_iff]
  constructor
  · intro heq
    have hfound := h.isPlaceOf_placeOf (offsetOf_le_size t p)
    rw [heq] at hfound
    exact ⟨_, hfound⟩
  · rintro ⟨o, ho⟩
    rw [ho.offsetOf_eq]
    exact h.placeOf_eq ho

/-- The offset of a place is not before the start of its line. -/
theorem WellFormed.start_le_offsetOf (h : table.WellFormed) {p : Place} {start : Nat}
    (hstart : table.startOf? p.line = some start) : start ≤ table.offsetOf p := by
  rw [offsetOf, hstart]
  refine Nat.le_min_of_le_of_le (Nat.le_add_right ..) ?_
  cases hnext : table.startOf? (p.line + 1) with
  | none => exact h.start_le_size hstart
  | some next => exact Nat.le_of_lt (h.start_lt hstart hnext (Nat.lt_succ_self _))

/-- The offset of a place is not behind the start of the next line. -/
theorem offsetOf_le_next {p : Place} {next : Nat}
    (hnext : table.startOf? (p.line + 1) = some next) : table.offsetOf p ≤ next := by
  obtain ⟨start, hstart⟩ := exists_startOf?_of_le hnext (Nat.le_succ _)
  rw [offsetOf, hstart, hnext]
  exact Nat.min_le_right ..

/-- A place further on has no earlier offset, whether the text has it or not. -/
theorem monotone_offsetOf (t : Text) : Monotone (ofText t).offsetOf := by
  intro p q hpq
  have h := ofText_wellFormed t
  rcases Place.le_iff.1 hpq with hline | ⟨hline, hcolumn⟩
  · cases hq : (ofText t).startOf? q.line with
    | none =>
      have hsize : (ofText t).offsetOf q = Text.size t := by
        rw [offsetOf, hq]
        rfl
      rw [hsize]
      exact offsetOf_le_size t p
    | some start =>
      obtain ⟨next, hnext⟩ := exists_startOf?_of_le hq (Nat.succ_le_of_lt hline)
      calc (ofText t).offsetOf p ≤ next := offsetOf_le_next hnext
        _ ≤ start := h.start_le hnext hq (Nat.succ_le_of_lt hline)
        _ ≤ (ofText t).offsetOf q := h.start_le_offsetOf hq
  · rw [offsetOf, offsetOf, hline]
    split
    · exact Nat.le_refl _
    · omega

/-- **The two conversions are inverse to each other and keep the order.**  For every text:

* its lines start one behind the other, at offset 0, behind each line feed and behind each
  carriage return that no line feed follows;
* the place of an offset leads back to the offset, and an offset further on has a place further on;
* a place leads to an offset and back exactly if its line is there and its column lies before the
  start of the next line, or on the last line not behind the end;
* every place has an offset inside the text, and one further on has no earlier offset. -/
theorem conversions_order_iso (t : Text) :
    let table := ofText t
    table.starts.Pairwise (· < ·) ∧
    (∀ n, n ∈ table.starts ↔ n = 0 ∨ 1 ≤ n ∧ n ≤ Text.size t ∧
      ((Text.bytes t)[n - 1]? = some feed ∨
        (Text.bytes t)[n - 1]? = some ret ∧ (Text.bytes t)[n]? ≠ some feed)) ∧
    (∀ o ≤ Text.size t, table.offsetOf (table.placeOf o) = o) ∧
    StrictMonoOn table.placeOf (Set.Iic (Text.size t)) ∧
    (∀ p, table.placeOf (table.offsetOf p) = p ↔ table.Has p) ∧
    Monotone table.offsetOf ∧
    ∀ p, table.offsetOf p ≤ Text.size t := by
  have h := ofText_wellFormed t
  exact ⟨h.increasing, mem_starts_iff t, fun o ho => (h.isPlaceOf_placeOf ho).offsetOf_eq,
    h.strictMonoOn_placeOf, placeOf_offsetOf_iff t, monotone_offsetOf t, offsetOf_le_size t⟩

/-- A carriage return before a line feed, one alone, and the end of the text behind a break: the
places are those of offsets 0 to 6. -/
example : ((List.range 7).map (ofText ['a', '\r', '\n', '\r', 'b', '\n']).placeOf) =
    [⟨0, 0⟩, ⟨0, 1⟩, ⟨0, 2⟩, ⟨1, 0⟩, ⟨2, 0⟩, ⟨2, 1⟩, ⟨3, 0⟩] := by decide

end LineTable

end ComponentLint
