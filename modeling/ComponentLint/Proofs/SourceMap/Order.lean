import ComponentLint.Proofs.LineTable.Places
import ComponentLint.Proofs.SourceMap.Following
import Mathlib.Data.List.Infix
import Mathlib.Data.List.TakeWhile

/-!
# Mapping back keeps the order

Mappings are in order if generated columns do not fall on a line and sources do not fall at all.
The segment that decides about a place is then the last one of an initial part of all segments, and
a place further on has a longer initial part.

There is one exception.  A place before the first segment of its line is taken for one behind the
last segment, so that it overtakes the places between the first and the last segment of that line.

In the document, the splices and the stretches between them come in the same order on both sides,
and no splice leads out of its body.  So what is in order inside each splice is in order
throughout.

## Main definitions

* `Mappings.InOrder m` — mappings that keep the order of places.
* `Mappings.reached m p` — the segments up to the one that decides about place `p`.
* `Mappings.chosenAt m p` — the segment that decides about place `p`.
* `Mappings.Overtakes m p q` — place `p` is taken for one behind the last segment of its line, and
  place `q` is not.
* `Splice.placeAt s offset` — the place in the generated body of an offset of the generated
  document.

## Main statements

* `Mappings.originAt_eq` — the last segment reached decides about a place.
* `Mappings.prefix_reached` — **a place further on reaches further**, unless it is overtaken.
* `Splice.bodyOffset_originAt_le` — the order inside one splice.
* `Aligned.followPast_le` — the order among splices and the stretches between them.
* `Spliced.Weave.sourceOffset_le` — **mapping back keeps the order of offsets**, unless one
  overtakes the other.
-/

namespace ComponentLint

open Text

/-! ### Mappings in order -/

/-- One origin does not come after another one in the source. -/
def Origin.NotAfter (a b : Origin) : Prop :=
  a.line < b.line ∨ a.line = b.line ∧ a.column ≤ b.column

/-- The place in the source that an origin names. -/
def Origin.place (o : Origin) : Place := ⟨o.line.toInt.toNat, o.column.toInt.toNat⟩

instance (a b : Origin) : Decidable (a.NotAfter b) := inferInstanceAs (Decidable (_ ∨ _))

namespace Mappings

/-- Mappings that keep the order of places: on each line generated columns do not fall, every
segment has a place in the source, and these places do not fall from one segment to the next. -/
structure InOrder (m : Mappings) : Prop where
  columns : ∀ line ∈ m, line.Pairwise fun s s' => s.column ≤ s'.column
  origins : ∀ s ∈ m.flatten, ∃ o ∈ s.origin, 0 ≤ o.line ∧ 0 ≤ o.column
  sources : (m.flatten.filterMap Segment.origin).Pairwise Origin.NotAfter

instance (m : Mappings) : Decidable m.InOrder :=
  decidable_of_iff (_ ∧ _ ∧ _) ⟨fun ⟨h, h', h''⟩ => ⟨h, h', h''⟩, fun h => ⟨h.1, h.2, h.3⟩⟩

/-- The segments of a line that have started at a column. -/
def started (column : Nat) (line : List Segment) : List Segment :=
  line.takeWhile fun s => s.column.toInt ≤ (column : Int)

/-- The segments of a line up to the one that covers a column.  If none has started, all of them
count. -/
def passed (column : Nat) (line : List Segment) : List Segment :=
  if (started column line).isEmpty then line else started column line

/-- The segments up to the one that decides about a place. -/
def reached (m : Mappings) (p : Place) : List Segment :=
  (m.take p.line).flatten ++ passed p.column (m.getD p.line [])

/-- The segment that decides about a place. -/
def chosenAt (m : Mappings) (p : Place) : Option Segment :=
  match m.getD p.line [] with
  | s :: rest => some (covering p.column s rest)
  | [] => (m.take p.line).flatten.getLast?

/-- Place `p` stands before the first segment of its line, and place `q` on the same line between
the first and the last segment: `p` is taken for one behind the last segment, and `q` is not. -/
def Overtakes (m : Mappings) (p q : Place) : Prop :=
  p.line = q.line ∧ ∃ first ∈ (m.getD p.line []).head?, ∃ last ∈ (m.getD p.line []).getLast?,
    p.column < first.column.toInt ∧ first.column.toInt ≤ q.column ∧ q.column < last.column.toInt

instance (m : Mappings) (p q : Place) : Decidable (m.Overtakes p q) :=
  inferInstanceAs (Decidable (_ ∧ _))

/-! ### What decides about a place -/

theorem started_cons_of_le {column : Nat} {s : Segment} (h : s.column.toInt ≤ column)
    (rest : List Segment) : started column (s :: rest) = s :: started column rest :=
  List.takeWhile_cons_of_pos (by simpa using h)

theorem started_cons_of_lt {column : Nat} {s : Segment} (h : column < s.column.toInt)
    (rest : List Segment) : started column (s :: rest) = [] :=
  List.takeWhile_cons_of_neg (by simpa using h)

theorem prefix_started (column : Nat) (line : List Segment) : started column line <+: line :=
  List.takeWhile_prefix _

/-- At a column further on, more segments have started. -/
theorem started_prefix_started {column column' : Nat} (h : column ≤ column')
    (line : List Segment) : started column line <+: started column' line := by
  have hboth : started column line = started column (started column' line) := by
    rw [started, started, started, List.takeWhile_takeWhile]
    congr 1
    funext s
    rw [Bool.eq_iff_iff]
    simp
    omega
  rw [hboth]
  exact prefix_started _ _

theorem passed_cons_of_le {column : Nat} {s : Segment} (h : s.column.toInt ≤ column)
    (rest : List Segment) : passed column (s :: rest) = s :: started column rest := by
  rw [passed, started_cons_of_le h]
  rfl

theorem passed_cons_of_lt {column : Nat} {s : Segment} (h : column < s.column.toInt)
    (rest : List Segment) : passed column (s :: rest) = s :: rest := by
  rw [passed, started_cons_of_lt h]
  rfl

theorem prefix_passed (column : Nat) (line : List Segment) : passed column line <+: line := by
  unfold passed
  split
  · exact List.prefix_refl _
  · exact prefix_started _ _

/-- On a line in order, the segment that covers a column is the last one up to it. -/
theorem getLast?_passed (column : Nat) {s : Segment} {rest : List Segment}
    (h : (s :: rest).Pairwise fun s s' => s.column ≤ s'.column) :
    (passed column (s :: rest)).getLast? = some (covering column s rest) := by
  induction rest generalizing s with
  | nil =>
    rcases Int.lt_or_le column s.column.toInt with hs | hs
    · rw [passed_cons_of_lt hs]
      rfl
    · rw [passed_cons_of_le hs]
      rfl
  | cons next rest ih =>
    obtain ⟨hfirst, hrest⟩ := List.pairwise_cons.1 h
    have hnext : s.column.toInt ≤ next.column.toInt :=
      Int32.le_iff_toInt_le.1 (hfirst next List.mem_cons_self)
    rw [covering]
    split
    · next hcovers =>
      rw [passed_cons_of_le hcovers.1, started_cons_of_lt hcovers.2]
      rfl
    · next hcovers =>
      rw [← ih hrest]
      rcases Int.lt_or_le column s.column.toInt with hs | hs
      · -- neither has started, so that the whole line counts in both cases
        rw [passed_cons_of_lt hs, passed_cons_of_lt (by omega), List.getLast?_cons_cons]
      · have hn : next.column.toInt ≤ column := by omega
        rw [passed_cons_of_le hs, passed_cons_of_le hn, started_cons_of_le hn,
          List.getLast?_cons_cons]

theorem InOrder.columns_getD {m : Mappings} (h : m.InOrder) (i : Nat) :
    (m.getD i []).Pairwise fun s s' => s.column ≤ s'.column := by
  rw [List.getD_eq_getElem?_getD]
  cases hget : m[i]? with
  | none => exact List.Pairwise.nil
  | some line => exact h.columns _ (List.mem_of_getElem? hget)

/-- On a line in order, the last segment reached decides about a place. -/
theorem chosenAt_eq {m : Mappings} {p : Place}
    (h : (m.getD p.line []).Pairwise fun s s' => s.column ≤ s'.column) :
    m.chosenAt p = (m.reached p).getLast? := by
  unfold chosenAt reached
  split
  · next s rest hline =>
    rw [hline] at h ⊢
    rw [List.getLast?_append, getLast?_passed p.column h]
    rfl
  · next hline =>
    have hpassed : passed p.column [] = [] := rfl
    rw [hline, hpassed, List.append_nil]

/-- A place comes from where the segment says that decides about it. -/
theorem originAt_eq_bind (m : Mappings) (p : Place) :
    m.originAt p = (m.chosenAt p).bind Segment.origin := by
  rw [originAt, chosenAt, List.getD_eq_getElem?_getD]
  cases m[p.line]? with
  | none => rfl
  | some line =>
    cases line with
    | nil => rfl
    | cons s rest => rfl

/-- **The last segment reached decides about a place.** -/
theorem originAt_eq {m : Mappings} (h : m.InOrder) (p : Place) :
    m.originAt p = (m.reached p).getLast?.bind Segment.origin := by
  rw [originAt_eq_bind, chosenAt_eq (h.columns_getD p.line)]

/-! ### A place further on reaches further -/

theorem prefix_flatten_take (m : Mappings) {i j : Nat} (h : i ≤ j) :
    (m.take i).flatten <+: (m.take j).flatten := by
  obtain ⟨rest, hrest⟩ := List.take_prefix_take_left h (l := m)
  rw [← hrest, List.flatten_append]
  exact List.prefix_append _ _

theorem flatten_take_succ (m : Mappings) (i : Nat) :
    (m.take (i + 1)).flatten = (m.take i).flatten ++ m.getD i [] := by
  rw [List.take_add_one, List.flatten_append, List.getD_eq_getElem?_getD]
  cases m[i]? <;> simp

theorem reached_prefix_take (m : Mappings) (p : Place) :
    m.reached p <+: (m.take (p.line + 1)).flatten := by
  rw [flatten_take_succ, reached, List.prefix_append_right_inj]
  exact prefix_passed _ _

theorem reached_prefix_flatten (m : Mappings) (p : Place) : m.reached p <+: m.flatten := by
  refine (m.reached_prefix_take p).trans ?_
  obtain ⟨rest, hrest⟩ := List.take_prefix (p.line + 1) m
  conv_rhs => rw [← hrest, List.flatten_append]
  exact List.prefix_append _ _

/-- No segment of a line in order starts behind the last one. -/
theorem column_le_getLast {line : List Segment} {x last : Segment}
    (hsorted : line.Pairwise fun s s' => s.column ≤ s'.column) (hx : x ∈ line)
    (hlast : line.getLast? = some last) : x.column.toInt ≤ last.column.toInt := by
  obtain ⟨init, rfl⟩ := List.getLast?_eq_some_iff.1 hlast
  rcases List.mem_append.1 hx with hx | hx
  · exact Int32.le_iff_toInt_le.1
      ((List.pairwise_append.1 hsorted).2.2 x hx last List.mem_cons_self)
  · rw [List.mem_singleton.1 hx]

/-- A column further on covers more of a line.  The first column must not stand before all
segments while the second one stands between them. -/
theorem passed_prefix_passed {column column' : Nat} {line : List Segment}
    (hle : column ≤ column') (hsorted : line.Pairwise fun s s' => s.column ≤ s'.column)
    (hno : ∀ first ∈ line.head?, ∀ last ∈ line.getLast?,
      ¬ (column < first.column.toInt ∧ first.column.toInt ≤ column' ∧
        column' < last.column.toInt)) :
    passed column line <+: passed column' line := by
  cases line with
  | nil => exact List.prefix_refl _
  | cons s rest =>
    rcases Int.lt_or_le column s.column.toInt with hs | hs
    · rw [passed_cons_of_lt hs]
      rcases Int.lt_or_le column' s.column.toInt with hs' | hs'
      · rw [passed_cons_of_lt hs']
      · -- the second column stands behind the last segment, and so behind all of them
        have hlast := List.getLast?_eq_some_getLast (List.cons_ne_nil s rest)
        have hbehind := hno s rfl _ hlast
        have hall : started column' (s :: rest) = s :: rest := by
          rw [started, List.takeWhile_eq_self_iff]
          intro x hx
          have hle := column_le_getLast hsorted hx hlast
          rw [decide_eq_true_iff]
          omega
        rw [passed_cons_of_le hs', ← started_cons_of_le hs', hall]
    · rw [passed_cons_of_le hs, passed_cons_of_le (by omega), List.prefix_cons_inj]
      exact started_prefix_started hle rest

/-- **A place further on reaches further**, unless it is overtaken. -/
theorem prefix_reached {m : Mappings} (h : m.InOrder) {p q : Place} (hpq : p ≤ q)
    (hno : ¬ m.Overtakes p q) : m.reached p <+: m.reached q := by
  rcases Place.le_iff.1 hpq with hline | ⟨hline, hcolumn⟩
  · refine (m.reached_prefix_take p).trans ?_
    exact (m.prefix_flatten_take (Nat.succ_le_of_lt hline)).trans (List.prefix_append _ _)
  · rw [reached, reached, ← hline, List.prefix_append_right_inj]
    apply passed_prefix_passed hcolumn (h.columns_getD p.line)
    intro first hfirst last hlast hcolumns
    exact hno ⟨hline, first, hfirst, last, hlast, hcolumns⟩

/-! ### The order of origins -/

/-- The last segments of two initial parts come in the order of the parts. -/
theorem notAfter_of_longer {m : Mappings} (h : m.InOrder) {shorter longer : List Segment}
    {s s' : Segment} {o o' : Origin} (hinitial : shorter <+: longer)
    (hlonger : longer <+: m.flatten) (hs : shorter.getLast? = some s)
    (hs' : longer.getLast? = some s') (ho : s.origin = some o) (ho' : s'.origin = some o') :
    o = o' ∨ o.NotAfter o' := by
  obtain ⟨more, rfl⟩ := hinitial
  obtain ⟨rest, hrest⟩ := hlonger
  rcases List.eq_nil_or_concat' more with rfl | ⟨init, last, rfl⟩
  · rw [List.append_nil, hs, Option.some.injEq] at hs'
    rw [← hs', ho, Option.some.injEq] at ho'
    exact Or.inl ho'
  · -- the longer part ends behind the shorter one
    obtain ⟨front, rfl⟩ := List.getLast?_eq_some_iff.1 hs
    rw [← List.append_assoc, List.getLast?_concat, Option.some.injEq] at hs'
    subst hs'
    have hpair : [s, last].Sublist m.flatten := by
      rw [← hrest]
      exact ((List.sublist_append_right front [s]).append
        (List.sublist_append_right init [last])).trans (List.sublist_append_left _ rest)
    have hsources := h.sources.sublist (hpair.filterMap Segment.origin)
    rw [List.filterMap_cons_some ho, List.filterMap_cons_some ho'] at hsources
    exact Or.inr ((List.pairwise_cons.1 hsources).1 o' List.mem_cons_self)

/-- Origins that do not come after each other name places in this order. -/
theorem place_le_place {o o' : Origin} (hline : 0 ≤ o.line) (h : o.NotAfter o') :
    o.place ≤ o'.place := by
  rw [Int32.le_iff_toInt_le, Int32.toInt_zero] at hline
  rw [Place.le_iff]
  rcases h with hlt | ⟨heq, hle⟩
  · rw [Int32.lt_iff_toInt_lt] at hlt
    left
    show o.line.toInt.toNat < o'.line.toInt.toNat
    omega
  · rw [Int32.le_iff_toInt_le] at hle
    refine Or.inr ⟨congrArg (·.toInt.toNat) heq, ?_⟩
    show o.column.toInt.toNat ≤ o'.column.toInt.toNat
    omega

end Mappings

/-! ### Inside a splice -/

namespace Splice

theorem bodyOffset_of_nonneg (s : Splice) {o : Origin} (h : 0 ≤ o.line) :
    s.bodyOffset (some o) = (LineTable.ofText s.source).offsetOf o.place := by
  have hline : ¬ o.line < 0 := by
    rw [Int32.not_lt]
    exact h
  rw [bodyOffset, if_neg hline]
  rfl

/-- Further segments lead further on in the body. -/
theorem bodyOffset_le_bodyOffset (s : Splice) {m : Mappings} (h : m.InOrder)
    {shorter longer : List Segment} (hinitial : shorter <+: longer)
    (hlonger : longer <+: m.flatten) :
    s.bodyOffset (shorter.getLast?.bind Segment.origin) ≤
      s.bodyOffset (longer.getLast?.bind Segment.origin) := by
  cases hlast : shorter.getLast? with
  | none => exact Nat.zero_le _
  | some x =>
    cases hlast' : longer.getLast? with
    | none =>
      rw [List.getLast?_eq_none_iff] at hlast'
      rw [hlast', List.prefix_nil] at hinitial
      rw [hinitial] at hlast
      cases hlast
    | some y =>
      have hy := hlonger.subset (List.mem_of_getLast? hlast')
      have hx := hlonger.subset (hinitial.subset (List.mem_of_getLast? hlast))
      obtain ⟨o, ho, hline, -⟩ := h.origins x hx
      obtain ⟨o', ho', hline', -⟩ := h.origins y hy
      rw [Option.bind_some, Option.bind_some, ho, ho', s.bodyOffset_of_nonneg hline,
        s.bodyOffset_of_nonneg hline']
      rcases Mappings.notAfter_of_longer h hinitial hlonger hlast hlast' ho ho' with rfl | hle
      · exact Nat.le_refl _
      · exact LineTable.monotone_offsetOf s.source (Mappings.place_le_place hline hle)

/-- The place in the generated body of an offset of the generated document. -/
def placeAt (s : Splice) (offset : Nat) : Place :=
  (LineTable.ofText s.generated).placeOf (offset - s.generatedStart)

/-- Offset `a` overtakes offset `b` in the generated body. -/
def Overtakes (s : Splice) (a b : Nat) : Prop :=
  ∃ m, Mappings.decode s.mappings = .ok m ∧ m.Overtakes (s.placeAt a) (s.placeAt b)

/-- No offset overtakes itself. -/
theorem not_overtakes_self (s : Splice) (a : Nat) : ¬ s.Overtakes a a := by
  rintro ⟨m, -, -, first, -, last, -, hbefore, hafter, -⟩
  omega

theorem sourceOffset_eq {s : Splice} {m : Mappings} (h : Mappings.decode s.mappings = .ok m)
    (offset : Nat) :
    s.sourceOffset offset = .ok (s.sourceStart + s.bodyOffset (m.originAt (s.placeAt offset))) := by
  rw [sourceOffset, h]
  rfl

/-- **The order inside one splice.** -/
theorem bodyOffset_originAt_le {s : Splice} {m : Mappings} (hm : Mappings.decode s.mappings = .ok m)
    (h : m.InOrder) {a b : Nat} (hab : a ≤ b) (hno : ¬ s.Overtakes a b) :
    s.bodyOffset (m.originAt (s.placeAt a)) ≤ s.bodyOffset (m.originAt (s.placeAt b)) := by
  rw [Mappings.originAt_eq h, Mappings.originAt_eq h]
  have hplaces : s.placeAt a ≤ s.placeAt b :=
    (LineTable.ofText_wellFormed s.generated).monotone_placeOf (Nat.sub_le_sub_right hab _)
  have hinitial := Mappings.prefix_reached h hplaces fun hover => hno ⟨m, hm, hover⟩
  exact s.bodyOffset_le_bodyOffset h hinitial (m.reached_prefix_flatten _)

end Splice

/-! ### Among the splices -/

namespace Aligned

variable {start generatedStart : Nat} {lead after : Text} {s : Splice}
  {parts : List (Splice × Text)} {offset : Nat}

/-- Before the first splice, an offset stays as far from the start as it is. -/
theorem followPast_before (h : Aligned start generatedStart lead ((s, after) :: parts))
    (hle : generatedStart ≤ offset) (hlt : offset < s.generatedStart) :
    Spliced.followPast offset (s :: parts.map Prod.fst) (start + (offset - generatedStart)) =
      .ok (start + (offset - generatedStart)) := by
  have hstarts : ∀ s' ∈ s :: parts.map Prod.fst, offset < s'.generatedStart := by
    intro s' hs'
    have := h.le_generatedStart hs'
    have := h.2.1
    omega
  rw [Spliced.followPast_outside fun s' hs' hin => absurd (hstarts s' hs') (Nat.not_lt.2 hin.1),
    growthBefore_eq_zero hstarts]
  congr 1
  omega

/-- Behind the first splice, the others are followed from its end. -/
theorem followPast_behind (h : Aligned start generatedStart lead ((s, after) :: parts))
    (hlt : s.generatedStop < offset) :
    Spliced.followPast offset (s :: parts.map Prod.fst) (start + (offset - generatedStart)) =
      Spliced.followPast offset (parts.map Prod.fst)
        ((s.sourceStart + size s.source : Nat) + (offset - s.generatedStop)) := by
  obtain ⟨hs, hg, -⟩ := h
  have hnot : ¬ s.contains offset = true := by
    rw [Splice.contains_iff]
    omega
  rw [Spliced.followPast, if_neg hnot, if_pos hlt]
  congr 1
  rw [Splice.growth, Splice.generatedStop]
  omega

/-- **The order among splices and the stretches between them.**  The induction goes over the
splices: two offsets on the same side of the first one, or both in it, are compared there, and all
others are kept apart by the ends of its body. -/
theorem followPast_le (h : Aligned start generatedStart lead parts) {a b : Nat}
    (hle : generatedStart ≤ a) (hab : a ≤ b)
    (hsplices : ∀ s ∈ parts.map Prod.fst, ∃ m, Mappings.decode s.mappings = .ok m ∧ m.InOrder)
    (hno : ∀ s ∈ parts.map Prod.fst, s.contains a = true → s.contains b = true →
      ¬ s.Overtakes a b) :
    ∃ x y, Spliced.followPast a (parts.map Prod.fst) (start + (a - generatedStart)) = .ok x ∧
      Spliced.followPast b (parts.map Prod.fst) (start + (b - generatedStart)) = .ok y ∧
      start ≤ x ∧ x ≤ y := by
  induction parts generalizing start generatedStart lead a with
  | nil =>
    refine ⟨_, _, rfl, rfl, ?_, ?_⟩
    · omega
    · omega
  | cons x parts ih =>
    obtain ⟨s, after⟩ := x
    rw [List.map_cons] at hsplices hno ⊢
    obtain ⟨⟨m, hm, horder⟩, hsplices⟩ := List.forall_mem_cons.1 hsplices
    obtain ⟨hnos, hno⟩ := List.forall_mem_cons.1 hno
    obtain ⟨hs, hg, hrest⟩ := id h
    -- what stands in the splice leads into its body
    have hinside : ∀ o, s.contains o = true → ∀ shifted,
        Spliced.followPast o (s :: parts.map Prod.fst) shifted =
          .ok (s.sourceStart + s.bodyOffset (m.originAt (s.placeAt o))) := by
      intro o ho shifted
      rw [Spliced.followPast, if_pos ho, Splice.sourceOffset_eq hm]
    have hbody := fun o => s.bodyOffset_le (m.originAt (s.placeAt o))
    -- what stands behind it leads behind its body
    have hbehind : ∀ o, s.generatedStop < o → o ≤ b →
        (∀ s ∈ parts.map Prod.fst, s.contains o = true → s.contains b = true →
          ¬ s.Overtakes o b) →
        ∃ x y,
          Spliced.followPast o (s :: parts.map Prod.fst) (start + (o - generatedStart)) = .ok x ∧
          Spliced.followPast b (s :: parts.map Prod.fst) (start + (b - generatedStart)) = .ok y ∧
          s.sourceStart + size s.source ≤ x ∧ x ≤ y := by
      intro o ho hob hnoo
      rw [h.followPast_behind ho, h.followPast_behind (Nat.lt_of_lt_of_le ho hob)]
      exact ih hrest (Nat.le_of_lt ho) hob hsplices hnoo
    have hself (hb : s.generatedStop < b) :
        ∃ y, Spliced.followPast b (s :: parts.map Prod.fst) (start + (b - generatedStart)) = .ok y ∧
          s.sourceStart + size s.source ≤ y := by
      obtain ⟨x, y, -, hy, hx, hxy⟩ :=
        hbehind b hb (Nat.le_refl b) fun s' _ _ _ => s'.not_overtakes_self b
      exact ⟨y, hy, Nat.le_trans hx hxy⟩
    rcases Nat.lt_or_ge a s.generatedStart with ha | ha
    · -- the first offset stays before the body, wherever the second one stands
      refine ⟨start + (a - generatedStart), ?_⟩
      rw [h.followPast_before hle ha]
      rcases Nat.lt_or_ge b s.generatedStart with hb | hb
      · rw [h.followPast_before (Nat.le_trans hle hab) hb]
        exact ⟨_, rfl, rfl, by omega, by omega⟩
      · rcases Nat.lt_or_ge s.generatedStop b with hb' | hb'
        · obtain ⟨y, hy, hstart⟩ := hself hb'
          exact ⟨y, rfl, hy, by omega, by omega⟩
        · rw [hinside b (Splice.contains_iff.2 ⟨hb, hb'⟩)]
          exact ⟨_, rfl, rfl, by omega, by omega⟩
    · rcases Nat.lt_or_ge s.generatedStop a with ha' | ha'
      · obtain ⟨x, y, hx, hy, hstart, hxy⟩ := hbehind a ha' hab hno
        exact ⟨x, y, hx, hy, by omega, hxy⟩
      · -- the first offset leads into the body; the second one does too, or leads behind it
        have hain := Splice.contains_iff.2 ⟨ha, ha'⟩
        rw [hinside a hain]
        rcases Nat.lt_or_ge s.generatedStop b with hb' | hb'
        · obtain ⟨y, hy, hstart⟩ := hself hb'
          have := hbody a
          exact ⟨_, y, rfl, hy, by omega, by omega⟩
        · have hbin := Splice.contains_iff.2 ⟨Nat.le_trans ha hab, hb'⟩
          rw [hinside b hbin]
          have hle := Splice.bodyOffset_originAt_le hm horder hab (hnos hain hbin)
          exact ⟨_, _, rfl, rfl, by omega, Nat.add_le_add_left hle _⟩

end Aligned

/-! ### In the document -/

namespace Spliced

/-- All mappings of a spliced document keep the order of places. -/
def InOrder (d : Spliced) : Prop :=
  ∀ s ∈ d.splices, ∃ m, Mappings.decode s.mappings = .ok m ∧ m.InOrder

/-- Offset `a` of the generated document overtakes offset `b`: both lie on one line of one splice,
`a` before its first segment, and `b` between its first and its last one. -/
def Overtakes (d : Spliced) (a b : Nat) : Prop :=
  ∃ s ∈ d.splices, s.contains a = true ∧ s.contains b = true ∧ s.Overtakes a b

variable {d : Spliced} {lead : Text} {parts : List (Splice × Text)}

/-- **Mapping back keeps the order of offsets**, unless one overtakes the other. -/
theorem Weave.sourceOffset_le (w : d.Weave lead parts) (h : d.InOrder) {a b : Nat} (hab : a ≤ b)
    (hno : ¬ d.Overtakes a b) :
    ∃ x y, d.sourceOffset a = .ok x ∧ d.sourceOffset b = .ok y ∧ x ≤ y := by
  rw [InOrder, w.splices_eq] at h
  have hsplices : ∀ s ∈ parts.map Prod.fst, s.contains a = true → s.contains b = true →
      ¬ s.Overtakes a b := by
    intro s hs ha hb hover
    refine hno ⟨s, ?_, ha, hb, hover⟩
    rwa [w.splices_eq]
  obtain ⟨x, y, hx, hy, -, hxy⟩ := w.aligned.followPast_le (Nat.zero_le a) hab h hsplices
  rw [Int.natCast_zero, Int.sub_zero, Int.zero_add, ← w.splices_eq] at hx hy
  exact ⟨x, y, hx, hy, hxy⟩

/-- Places in the document come in the order of the places in the generated one that lead there. -/
theorem Weave.sourcePosition_le (w : d.Weave lead parts) (h : d.InOrder) {a b : Location}
    (hab : (LineTable.ofText d.generated).offsetOfLocation a ≤
      (LineTable.ofText d.generated).offsetOfLocation b)
    (hno : ¬ d.Overtakes ((LineTable.ofText d.generated).offsetOfLocation a)
      ((LineTable.ofText d.generated).offsetOfLocation b)) :
    ∃ p q : Place, d.sourcePosition a = .ok p.toPosition ∧
      d.sourcePosition b = .ok q.toPosition ∧ p ≤ q := by
  obtain ⟨x, y, hx, hy, hxy⟩ := w.sourceOffset_le h hab hno
  rw [sourcePosition_eq_map, sourcePosition_eq_map, hx, hy]
  exact ⟨_, _, rfl, rfl, (LineTable.ofText_wellFormed d.source).monotone_placeOf hxy⟩

end Spliced

end ComponentLint
