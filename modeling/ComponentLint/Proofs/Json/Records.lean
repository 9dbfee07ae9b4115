import ComponentLint.Json.Decoder
import ComponentLint.Proofs.Json.Values

/-!
# Records that are read again

A record may be written in several ways, but the program writes it in one: as an object with its
fields in their order, some of which are left out.  A value is *stable* if what it is written as
reads as the same value, wherever the value itself was read.  A record is stable if all its fields
are: each field is found under its name, and holds what it was written as.

## Main definitions

* `Json.cells l` — the members of an object, without those that have no value.
* `Decoder.Stable d encode a` — the value `a` is read again from what it is written as.
* `Row.Keeps r name read a cell` — a field of a row is read again from `cell`.

## Main statements

* `Decoder.row_cells`, `get?_cells` — the fields of a written record are found.
* `Stable.list` — lists of stable values are stable.
* `Row.Keeps.required`, `Row.Keeps.optional`, `Row.Keeps.orNull`, `Row.Keeps.orElse` — fields of
  stable values are kept.
* `Stable.record` — **a record is stable if its fields are kept.**
-/

namespace ComponentLint.Json

variable {α : Type}

/-! ### Written records -/

/-- The members of an object, without those that have no value. -/
def cells (l : List (String × Option Json)) : Entries Json :=
  l.filterMap fun cell => cell.2.map (cell.1, ·)

theorem memberIfSome_eq (name : String) (encode : α → Json) (value : Option α) :
    memberIfSome name encode value = cells [(name, value.map encode)] := by
  cases value <;> rfl

theorem names_cells_sublist (l : List (String × Option Json)) :
    ((cells l).map Prod.fst).Sublist (l.map Prod.fst) := by
  induction l with
  | nil => exact .slnil
  | cons cell l ih =>
    obtain ⟨name, value⟩ := cell
    cases value with
    | none => exact ih.cons name
    | some j => exact ih.cons_cons name

theorem get?_cells {l : List (String × Option Json)} (h : (l.map Prod.fst).Nodup)
    (name : String) : (cells l).get? name = (l.lookup name).join := by
  induction l with
  | nil => rfl
  | cons cell l ih =>
    obtain ⟨first, value⟩ := cell
    obtain ⟨hfirst, hrest⟩ := List.nodup_cons.1 h
    have hlookup : List.lookup name ((first, value) :: l) =
        if name == first then some value else l.lookup name := by
      rw [List.lookup_cons]
      cases name == first <;> rfl
    rw [hlookup]
    cases value with
    | some j =>
      show List.lookup name ((first, j) :: cells l) = _
      rw [List.lookup_cons]
      cases name == first
      · exact ih hrest
      · rfl
    | none =>
      show (cells l).get? name = _
      split
      · next hname =>
        -- the name is not repeated further on
        rw [beq_iff_eq.1 hname]
        refine List.lookup_eq_none_iff.2 fun member hmember => bne_iff_ne.2 ?_
        rintro rfl
        exact hfirst ((names_cells_sublist l).subset (List.mem_map_of_mem hmember))
      · exact ih hrest

theorem mem_cells {l : List (String × Option Json)} {member : String × Json} :
    member ∈ cells l ↔ (member.1, some member.2) ∈ l := by
  rw [cells, List.mem_filterMap]
  constructor
  · rintro ⟨⟨name, value⟩, hmem, h⟩
    obtain ⟨j, rfl, rfl⟩ := Option.map_eq_some_iff.1 h
    exact hmem
  · intro h
    exact ⟨_, h, rfl⟩

/-- Fields that go by one name each. -/
def Field.Plain (fields : List Field) : Prop :=
  (fields.map Field.name).Nodup ∧ ∀ f ∈ fields, f.alternative = none

instance (fields : List Field) : Decidable (Field.Plain fields) :=
  inferInstanceAs (Decidable (_ ∧ _))

/-- A name of plain fields is the name of one of them. -/
theorem Field.Plain.find?_goesBy {fields : List Field} (h : Field.Plain fields) {name : String}
    (hname : name ∈ fields.map Field.name) :
    ∃ f, fields.find? (·.goesBy name) = some f ∧ f.name = name := by
  obtain ⟨f, hf, rfl⟩ := List.mem_map.1 hname
  have hsome : (fields.find? (·.goesBy f.name)).isSome :=
    List.find?_isSome.2 ⟨f, hf, by rw [Field.goesBy, beq_self_eq_true, Bool.true_or]⟩
  obtain ⟨f', hf'⟩ := Option.isSome_iff_exists.1 hsome
  have hgoes := List.find?_some hf'
  rw [Field.goesBy, h.2 f' (List.mem_of_find?_eq_some hf')] at hgoes
  exact ⟨f', hf', by simpa using hgoes⟩

/-- The fields of a written record are the members that were written. -/
theorem Decoder.row_cells {fields : List Field} (hplain : Field.Plain fields)
    {l : List (String × Option Json)} (hl : l.map Prod.fst = fields.map Field.name)
    {n inner : Nesting} (hinner : n.enter = some inner) :
    Decoder.row fields n (.object (cells l)) = some ⟨inner, cells l⟩ := by
  have hsub := names_cells_sublist l
  rw [hl] at hsub
  have hfields : (cells l).filterMap (fun member =>
      (fields.find? (·.goesBy member.1)).map fun field => (field.name, member.2)) = cells l := by
    refine Eq.trans (List.filterMap_congr fun member hmember => ?_) List.filterMap_some
    obtain ⟨f, hf, hname⟩ := hplain.find?_goesBy (hsub.subset (List.mem_map_of_mem hmember))
    rw [hf, Option.map_some, hname]
  rw [row, memberRow, hinner]
  · show (if _ then _ else none) = _
    rw [hfields, if_pos (hsub.nodup hplain.1)]
  · rintro items ⟨⟩

/-- The fields of a record are parts of the document. -/
theorem Decoder.row_parts {fields : List Field} {n : Nesting} {j : Json} {r : Row}
    (h : Decoder.row fields n j = some r) :
    n.enter = some r.inner ∧ 0 < j.depth ∧
      ∀ name c, r.cells.get? name = some c → c ∈ j.parts := by
  have hcell : ∀ (cells : Entries Json) (name : String) (c : Json), cells.get? name = some c →
      (name, c) ∈ cells := by
    intro cells name c hc
    obtain ⟨front, back, rfl, -⟩ := List.lookup_eq_some_iff.1 hc
    exact List.mem_append_right _ List.mem_cons_self
  cases j with
  | array items =>
    rw [row] at h
    obtain ⟨inner, hinner, h⟩ := Option.bind_eq_some_iff.1 h
    obtain ⟨-, h⟩ := Option.ite_none_right_eq_some.1 h
    cases h
    refine ⟨hinner, Nat.succ_pos _, fun name c hc => ?_⟩
    exact (List.of_mem_zip (hcell _ _ _ hc)).2
  | object members =>
    rw [row, memberRow] at h
    · obtain ⟨inner, hinner, h⟩ := Option.bind_eq_some_iff.1 h
      obtain ⟨-, h⟩ := Option.ite_none_right_eq_some.1 h
      cases h
      refine ⟨hinner, Nat.succ_pos _, fun name c hc => ?_⟩
      obtain ⟨member, hmember, hc⟩ := List.mem_filterMap.1 (hcell _ _ _ hc)
      obtain ⟨f, -, hf⟩ := Option.map_eq_some_iff.1 hc
      cases hf
      exact List.mem_map_of_mem hmember
    · rintro items ⟨⟩
  | _ => cases h

/-- The row of a written record holds what was written. -/
theorem Decoder.get?_of_row_cells {fields : List Field} (hplain : Field.Plain fields)
    {l : List (String × Option Json)} (hl : l.map Prod.fst = fields.map Field.name)
    {n : Nesting} {r : Row} (h : Decoder.row fields n (.object (cells l)) = some r)
    (name : String) : r.cells.get? name = (l.lookup name).join := by
  rw [row_cells hplain hl (row_parts h).1] at h
  have hcells : r.cells = cells l := congrArg Row.cells (Option.some.inj h).symm
  rw [hcells]
  exact get?_cells (hl ▸ hplain.1) name

/-! ### Stable values -/

namespace Decoder

/-- The value `a` is read again from what it is written as: wherever it was read, the written
document is a value that fits there and reads as `a`. -/
structure Stable (d : Decoder α) (encode : α → Json) (a : α) : Prop where
  reread : ∀ {n j}, d n j = some a → d n (encode a) = some a
  value : ∀ {n m j}, d m j = some a → Fits n m j → value? n (encode a) = some (encode a)

theorem stable_string (s : String) : Stable string Json.string s :=
  ⟨fun _ => rfl, fun _ _ => rfl⟩

theorem stable_bool (b : Bool) : Stable bool Json.bool b :=
  ⟨fun _ => rfl, fun _ _ => rfl⟩

theorem stable_word (k : Nat) : Stable word Json.ofNat k := by
  refine ⟨fun {n j} h => ?_, fun _ _ => rfl⟩
  rw [word, below.eq_def] at h
  split at h
  · obtain ⟨hbound, h⟩ := Option.ite_none_right_eq_some.1 h
    cases h
    rw [word, ofNat, below, if_pos (by omega)]
    rfl
  · cases h

theorem stable_value (v : Json) : Stable value id v :=
  ⟨value?_self, fun h hfits => hfits.value?_eq h⟩

theorem list_eq_some_iff {d : Decoder α} {n : Nesting} {j : Json} {as : List α} :
    list d n j = some as ↔ ∃ items inner, j = .array items ∧ n.enter = some inner ∧
      List.Forall₂ (fun item a => d inner item = some a) items as := by
  constructor
  · intro h
    cases j with
    | array items =>
      rw [list] at h
      obtain ⟨inner, hinner, h⟩ := Option.bind_eq_some_iff.1 h
      exact ⟨items, inner, rfl, hinner, mapM_eq_some_iff.1 h⟩
    | _ => cases h
  · rintro ⟨items, inner, rfl, hinner, h⟩
    rw [list, hinner]
    exact mapM_eq_some_iff.2 h

/-- Lists of stable values are stable. -/
theorem Stable.list {d : Decoder α} {encode : α → Json} {as : List α}
    (h : ∀ a ∈ as, Stable d encode a) :
    Stable (Decoder.list d) (fun as => .array (as.map encode)) as := by
  refine ⟨fun {n j} hread => ?_, fun {n m j} hread hfits => ?_⟩
  · obtain ⟨items, inner, rfl, hinner, hitems⟩ := list_eq_some_iff.1 hread
    refine list_eq_some_iff.2 ⟨_, inner, rfl, hinner, ?_⟩
    refine List.forall₂_map_left_iff.2 (List.forall₂_same.2 fun a ha => ?_)
    obtain ⟨item, -, hitem⟩ := exists_of_mem_right hitems ha
    exact (h a ha).reread hitem
  · obtain ⟨items, inner, rfl, hinner, hitems⟩ := list_eq_some_iff.1 hread
    obtain ⟨inner', hinner', hparts⟩ := hfits.parts hinner (Nat.succ_pos _)
    refine value?_array_self hinner' fun written hwritten => ?_
    obtain ⟨a, ha, rfl⟩ := List.mem_map.1 hwritten
    obtain ⟨item, hmem, hitem⟩ := exists_of_mem_right hitems ha
    exact (h a ha).value hitem (hparts item hmem)

/-- Decoders that agree below a depth read the same lists from below it. -/
theorem list_congr {d d' : Decoder α} {bound : Nat}
    (h : ∀ n c, c.depth < bound → d n c = d' n c) (n : Nesting) {j : Json} (hj : j.depth < bound) :
    Decoder.list d n j = Decoder.list d' n j := by
  cases j with
  | array items =>
    rw [Decoder.list, Decoder.list]
    refine congrArg (Option.bind n.enter) (funext fun inner => ?_)
    refine mapM_congr fun item hitem => h inner item ?_
    exact Nat.lt_trans (depth_lt_of_mem_parts (j := .array items) hitem) hj
  | _ => rfl

theorem nullable_of_ne_null (d : Decoder α) (n : Nesting) {j : Json} (h : j ≠ .null) :
    nullable d n j = (d n j).map some := by
  cases j with
  | null => exact absurd rfl h
  | _ => rfl

theorem ne_null_of_nullable {d : Decoder α} {n : Nesting} {j : Json} {a : α}
    (h : nullable d n j = some (some a)) : j ≠ .null ∧ d n j = some a := by
  have hne : j ≠ .null := by
    rintro rfl
    cases h
  rw [nullable_of_ne_null d n hne] at h
  obtain ⟨b, hb, hba⟩ := Option.map_eq_some_iff.1 h
  cases hba
  exact ⟨hne, hb⟩

end Decoder

/-! ### Fields that are kept -/

open Decoder

namespace Row

/-- What the fields of a row hold fits into nesting `n`. -/
def FitsInto (r : Row) (n : Nesting) : Prop :=
  ∀ name c, r.cells.get? name = some c → Fits n r.inner c

/-- The field that `read` gives is read again from a row that holds `cell` under its name, and the
cell fits where the field was. -/
structure Keeps (r : Row) (name : String) (read : Row → Option α) (a : α)
    (cell : Option Json) : Prop where
  reread : ∀ {cells : Entries Json}, cells.get? name = cell → read ⟨r.inner, cells⟩ = some a
  value : ∀ {n}, r.FitsInto n → ∀ v ∈ cell, value? n v = some v

variable {r : Row} {name : String} {d : Decoder α} {encode : α → Json}

theorem required_of_get?_eq_some {c : Json} (h : r.cells.get? name = some c) :
    r.required name d = d r.inner c := by
  rw [required, h]
  rfl

theorem Keeps.required {a : α} (h : r.required name d = some a) (hd : Stable d encode a) :
    r.Keeps name (·.required name d) a (some (encode a)) := by
  obtain ⟨c, hc, hread⟩ := Option.bind_eq_some_iff.1 h
  refine ⟨fun hcell => ?_, fun hfits v hv => ?_⟩
  · exact (required_of_get?_eq_some hcell).trans (hd.reread hread)
  · cases hv
    exact hd.value hread (hfits name c hc)

theorem orElse_of_get?_eq_none {default : α} (h : r.cells.get? name = none) :
    r.orElse name default d = some default := by
  rw [orElse, h]

theorem orElse_of_get?_eq_some {default : α} {c : Json} (h : r.cells.get? name = some c) :
    r.orElse name default d = d r.inner c := by
  rw [orElse, h]

theorem orElse_congr {d' : Decoder α} {default : α}
    (h : ∀ c, r.cells.get? name = some c → d r.inner c = d' r.inner c) :
    r.orElse name default d = r.orElse name default d' := by
  cases hc : r.cells.get? name with
  | none => rw [orElse_of_get?_eq_none hc, orElse_of_get?_eq_none hc]
  | some c => rw [orElse_of_get?_eq_some hc, orElse_of_get?_eq_some hc, h c hc]

theorem optional_congr {d' : Decoder α}
    (h : ∀ c, r.cells.get? name = some c → d r.inner c = d' r.inner c) :
    r.optional name d = r.optional name d' := by
  refine orElse_congr fun c hc => ?_
  cases c with
  | null => rfl
  | _ => exact congrArg (Option.map some) (h _ hc)

/-- What a field that may be missing holds: its default, or what was read. -/
theorem orElse_cases {a default : α} (h : r.orElse name default d = some a) :
    r.cells.get? name = none ∧ a = default ∨
      ∃ c, r.cells.get? name = some c ∧ d r.inner c = some a := by
  cases hc : r.cells.get? name with
  | none =>
    rw [orElse_of_get?_eq_none hc] at h
    exact .inl ⟨rfl, (Option.some.inj h).symm⟩
  | some c =>
    rw [orElse_of_get?_eq_some hc] at h
    exact .inr ⟨c, rfl, h⟩

/-- What a field that may be missing or `null` holds. -/
theorem optional_cases {a : Option α} (h : r.optional name d = some a) :
    ∀ b ∈ a, ∃ c, r.cells.get? name = some c ∧ c ≠ .null ∧ d r.inner c = some b := by
  rintro b ⟨⟩
  rcases orElse_cases h with ⟨-, h⟩ | ⟨c, hc, h⟩
  · cases h
  · exact ⟨c, hc, ne_null_of_nullable h⟩

/-- A field that is always written, though it may be missing. -/
theorem Keeps.orElse {a default : α} (h : r.orElse name default d = some a)
    (hd : Stable d encode a) (hread : d r.inner (encode default) = some default)
    (hvalue : ∀ n, r.FitsInto n → value? n (encode default) = some (encode default)) :
    r.Keeps name (·.orElse name default d) a (some (encode a)) := by
  rcases orElse_cases h with ⟨-, rfl⟩ | ⟨c, hc, hread⟩
  · -- the default was read from nowhere, but it is written all the same
    refine ⟨fun hcell => ?_, fun hfits v hv => ?_⟩
    · exact (orElse_of_get?_eq_some hcell).trans hread
    · cases hv
      exact hvalue _ hfits
  · refine ⟨fun hcell => ?_, fun hfits v hv => ?_⟩
    · exact (orElse_of_get?_eq_some hcell).trans (hd.reread hread)
    · cases hv
      exact hd.value hread (hfits name c hc)

/-- A field with its default value is left out. -/
theorem Keeps.leftOut (default : α) : r.Keeps name (·.orElse name default d) default none := by
  refine ⟨fun hcell => orElse_of_get?_eq_none hcell, fun _ v hv => ?_⟩
  cases hv

/-- A list that is left out when it is empty. -/
theorem Keeps.list {as : List α} (h : r.orElse name [] (Decoder.list d) = some as)
    (hd : ∀ a ∈ as, Stable d encode a) :
    r.Keeps name (·.orElse name [] (Decoder.list d)) as
      (if as.isEmpty then none else some (.array (as.map encode))) := by
  rcases orElse_cases h with ⟨-, rfl⟩ | ⟨c, hc, hread⟩
  · exact Keeps.leftOut []
  · have hstable := Stable.list hd
    split
    · next hempty =>
      obtain rfl := List.isEmpty_iff.1 hempty
      exact Keeps.leftOut []
    · refine ⟨fun hcell => ?_, fun hfits v hv => ?_⟩
      · exact (orElse_of_get?_eq_some hcell).trans (hstable.reread hread)
      · cases hv
        exact hstable.value hread (hfits name c hc)

/-- What is read from something else than `null` is not written as `null`. -/
def NeverNull (d : Decoder α) (encode : α → Json) (a : α) : Prop :=
  ∀ n j, j ≠ .null → d n j = some a → encode a ≠ .null

theorem optional_reread {b : α} {c : Json} (hc : c ≠ .null) (hread : d r.inner c = some b)
    (hd : Stable d encode b) (hnull : NeverNull d encode b) :
    nullable d r.inner (encode b) = some (some b) := by
  rw [nullable_of_ne_null d r.inner (hnull r.inner c hc hread), hd.reread hread]
  rfl

/-- A field that is left out when there is no value. -/
theorem Keeps.optional {a : Option α} (h : r.optional name d = some a)
    (hd : ∀ b ∈ a, Stable d encode b) (hnull : ∀ b ∈ a, NeverNull d encode b) :
    r.Keeps name (·.optional name d) a (a.map encode) := by
  cases a with
  | none => exact Keeps.leftOut none
  | some b =>
    obtain ⟨c, hc, hne, hread⟩ := optional_cases h b rfl
    refine ⟨fun hcell => ?_, fun hfits v hv => ?_⟩
    · exact (orElse_of_get?_eq_some hcell).trans
        (optional_reread hne hread (hd b rfl) (hnull b rfl))
    · cases hv
      exact (hd b rfl).value hread (hfits name c hc)

/-- A field that is written as `null` when there is no value. -/
theorem Keeps.orNull {a : Option α} (h : r.optional name d = some a)
    (hd : ∀ b ∈ a, Stable d encode b) (hnull : ∀ b ∈ a, NeverNull d encode b) :
    r.Keeps name (·.optional name d) a (some (Json.orNull encode a)) := by
  cases a with
  | none =>
    refine ⟨fun hcell => (orElse_of_get?_eq_some hcell).trans rfl, fun _ v hv => ?_⟩
    cases hv
    rfl
  | some b =>
    have hkeeps := Keeps.optional h hd hnull
    exact ⟨hkeeps.reread, hkeeps.value⟩

end Row

/-- **A record is stable if its fields are kept.**  `Holds` says what the fields of the record
are read as. -/
theorem Decoder.Stable.record {d : Decoder α} {encode : α → Json} {a : α} {fields : List Field}
    {l : List (String × Option Json)} {Holds : Row → Prop}
    (hd : ∀ {n j}, d n j = some a ↔ ∃ r, Decoder.row fields n j = some r ∧ Holds r)
    (hencode : encode a = .object (cells l)) (hplain : Field.Plain fields)
    (hl : l.map Prod.fst = fields.map Field.name)
    (hkeeps : ∀ r, Holds r →
      ((∀ name, (cells l).get? name = (l.lookup name).join) → Holds ⟨r.inner, cells l⟩) ∧
      ∀ n, r.FitsInto n → ∀ cell ∈ l, ∀ v ∈ cell.2, value? n v = some v) :
    Stable d encode a := by
  have hnames : (l.map Prod.fst).Nodup := hl ▸ hplain.1
  refine ⟨fun {n j} h => ?_, fun {n m j} h hfits => ?_⟩
  · obtain ⟨r, hr, hholds⟩ := hd.1 h
    rw [hencode]
    exact hd.2 ⟨_, row_cells hplain hl (row_parts hr).1, (hkeeps r hholds).1 (get?_cells hnames)⟩
  · obtain ⟨r, hr, hholds⟩ := hd.1 h
    obtain ⟨hinner, hdepth, hparts⟩ := row_parts hr
    obtain ⟨inner, hinner', hfits⟩ := hfits.parts hinner hdepth
    rw [hencode]
    refine value?_object_self hinner' ((names_cells_sublist l).nodup hnames) ?_
    intro member hmember
    exact (hkeeps r hholds).2 inner (fun name c hc => hfits c (hparts name c hc)) _
      (mem_cells.1 hmember) _ rfl

end ComponentLint.Json
