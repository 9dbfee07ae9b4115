import ComponentLint.Json.Basic
import ComponentLint.Proofs.Entries
import ComponentLint.Proofs.Lists

/-!
# Free-form values

A document taken as a free-form value loses its repeated names and nothing else.  So a value stays
as it is when it is taken for a value once more, in the same nesting or in a wider one.

## Main definitions

* `Json.parts j` — the parts of an array or object.
* `Json.IsValue j` — a document that is a free-form value as it stands.
* `Json.Fits n m j` — what is read from `j` with nesting `m` fits into nesting `n`.

## Main statements

* `Json.induction` — induction on documents.
* `Json.value?_self` — **taking a document for a value twice is the same as once.**
* `Json.value?_none` — a wider nesting gives the same value.
-/

namespace ComponentLint

namespace Json

/-! ### Induction on documents -/

/-- **Induction on documents**: what holds for an array or object if it holds for its parts, and
for everything that has no parts, holds for all documents. -/
theorem induction {motive : Json → Prop} (leaf : ∀ j, j.depth = 0 → motive j)
    (array : ∀ items, (∀ j ∈ items, motive j) → motive (.array items))
    (object : ∀ members : List (String × Json), (∀ m ∈ members, motive m.2) →
      motive (.object members)) : ∀ j, motive j
  | .null => leaf .null rfl
  | .bool b => leaf (.bool b) rfl
  | .number x => leaf (.number x) rfl
  | .string s => leaf (.string s) rfl
  | .unreadable => leaf .unreadable rfl
  | .array items => array items fun j hj =>
    have : sizeOf j < sizeOf items := List.sizeOf_lt_of_mem hj
    induction leaf array object j
  | .object members => object members fun m hm =>
    have : sizeOf m < sizeOf members := List.sizeOf_lt_of_mem hm
    have : sizeOf m.2 < sizeOf m := by
      obtain ⟨name, j⟩ := m
      rw [Prod.mk.sizeOf_spec]
      show sizeOf j < _
      omega
    induction leaf array object m.2

/-- The items of an array, and what the members of an object hold. -/
def parts : Json → List Json
  | .array items => items
  | .object members => members.map Prod.snd
  | _ => []

theorem depth_le_itemsDepth {items : List Json} {j : Json} (h : j ∈ items) :
    j.depth ≤ itemsDepth items := by
  induction items with
  | nil => cases h
  | cons first items ih =>
    rw [itemsDepth]
    rcases List.mem_cons.1 h with rfl | h
    · exact Nat.le_max_left ..
    · exact Nat.le_trans (ih h) (Nat.le_max_right ..)

theorem membersDepth_eq (members : List (String × Json)) :
    membersDepth members = itemsDepth (members.map Prod.snd) := by
  induction members with
  | nil => rfl
  | cons m members ih => rw [membersDepth, List.map_cons, itemsDepth, ih]

/-- The parts of a document are not nested as deep. -/
theorem depth_lt_of_mem_parts {j part : Json} (h : part ∈ j.parts) : part.depth < j.depth := by
  cases j with
  | array items =>
    rw [depth]
    exact Nat.lt_succ_of_le (depth_le_itemsDepth h)
  | object members =>
    rw [depth, membersDepth_eq]
    exact Nat.lt_succ_of_le (depth_le_itemsDepth h)
  | _ => cases h

/-! ### Values -/

theorem values?_eq (n : Nesting) (items : List Json) : values? n items = items.mapM (value? n) := by
  induction items with
  | nil => rfl
  | cons j items ih => rw [values?, List.mapM_cons, ih]

theorem memberValues?_eq (n : Nesting) (members : List (String × Json)) :
    memberValues? n members = members.mapM fun m => (value? n m.2).map (m.1, ·) := by
  induction members with
  | nil => rfl
  | cons m members ih =>
    rw [memberValues?, List.mapM_cons, ih]
    cases value? n m.2 <;> rfl

/-- The members of an object are values under the same names. -/
theorem memberValues?_eq_some_iff {n : Nesting} {members values : List (String × Json)} :
    memberValues? n members = some values ↔
      List.Forall₂ (fun m v => v.1 = m.1 ∧ value? n m.2 = some v.2) members values := by
  rw [memberValues?_eq, mapM_eq_some_iff]
  constructor <;> refine fun h => h.imp fun m v hv => ?_
  · obtain ⟨j, hj, rfl⟩ := Option.map_eq_some_iff.1 hv
    exact ⟨rfl, hj⟩
  · obtain ⟨name, j⟩ := v
    obtain ⟨rfl, hj⟩ := hv
    rw [hj]
    rfl

theorem value?_array_eq_some_iff {n : Nesting} {items : List Json} {v : Json} :
    value? n (.array items) = some v ↔ ∃ inner values, n.enter = some inner ∧
      List.Forall₂ (fun j v => value? inner j = some v) items values ∧ v = .array values := by
  rw [value?]
  simp only [values?_eq, Option.bind_eq_bind, Option.bind_eq_some_iff, mapM_eq_some_iff]
  constructor
  · rintro ⟨inner, hinner, values, hvalues, h⟩
    exact ⟨inner, values, hinner, hvalues, (Option.some.inj h).symm⟩
  · rintro ⟨inner, values, hinner, hvalues, rfl⟩
    exact ⟨inner, hinner, values, hvalues, rfl⟩

theorem value?_object_eq_some_iff {n : Nesting} {members : List (String × Json)} {v : Json} :
    value? n (.object members) = some v ↔ ∃ inner values, n.enter = some inner ∧
      List.Forall₂ (fun m v => v.1 = m.1 ∧ value? inner m.2 = some v.2) members values ∧
      v = .object (Entries.ofList values) := by
  rw [value?]
  simp only [Option.bind_eq_bind, Option.bind_eq_some_iff, memberValues?_eq_some_iff]
  constructor
  · rintro ⟨inner, hinner, values, hvalues, h⟩
    exact ⟨inner, values, hinner, hvalues, (Option.some.inj h).symm⟩
  · rintro ⟨inner, values, hinner, hvalues, rfl⟩
    exact ⟨inner, hinner, values, hvalues, rfl⟩

/-- What has no parts is taken as it is, in every nesting. -/
theorem value?_of_depth_eq_zero {n : Nesting} {j v : Json} (hdepth : j.depth = 0)
    (h : value? n j = some v) : v = j ∧ ∀ m, value? m j = some j := by
  cases j with
  | unreadable => cases h
  | array | object => cases hdepth
  | _ =>
    cases h
    exact ⟨rfl, fun _ => rfl⟩

/-- An object without repeated names is a value if all its members are. -/
theorem value?_object_self {n inner : Nesting} {members : List (String × Json)}
    (hinner : n.enter = some inner) (hnames : (members.map Prod.fst).Nodup)
    (h : ∀ m ∈ members, value? inner m.2 = some m.2) :
    value? n (.object members) = some (.object members) := by
  refine value?_object_eq_some_iff.2 ⟨inner, members, hinner, ?_, ?_⟩
  · exact List.forall₂_same.2 fun m hm => ⟨rfl, h m hm⟩
  · rw [Entries.ofList_eq_self hnames]

theorem value?_array_self {n inner : Nesting} {items : List Json} (hinner : n.enter = some inner)
    (h : ∀ j ∈ items, value? inner j = some j) :
    value? n (.array items) = some (.array items) :=
  value?_array_eq_some_iff.2 ⟨inner, items, hinner, List.forall₂_same.2 h, rfl⟩

/-- **Taking a document for a value twice is the same as once.** -/
theorem value?_self {n : Nesting} {j v : Json} (h : value? n j = some v) :
    value? n v = some v := by
  induction j using Json.induction generalizing n v with
  | leaf j hdepth =>
    obtain ⟨rfl, hself⟩ := value?_of_depth_eq_zero hdepth h
    exact hself n
  | array items ih =>
    obtain ⟨inner, values, hinner, hvalues, rfl⟩ := value?_array_eq_some_iff.1 h
    refine value?_array_self hinner fun v hv => ?_
    obtain ⟨j, hj, hjv⟩ := exists_of_mem_right hvalues hv
    exact ih j hj hjv
  | object members ih =>
    obtain ⟨inner, values, hinner, hvalues, rfl⟩ := value?_object_eq_some_iff.1 h
    -- repeated names were dropped the first time
    refine value?_object_self hinner (Entries.nodup_ofList values) fun v hv => ?_
    obtain ⟨m, hm, -, hmv⟩ := exists_of_mem_right hvalues (Entries.mem_of_mem_ofList hv)
    exact ih m hm hmv

/-- A wider nesting gives the same value. -/
theorem value?_none {n : Nesting} {j v : Json} (h : value? n j = some v) :
    value? none j = some v := by
  induction j using Json.induction generalizing n v with
  | leaf j hdepth =>
    obtain ⟨rfl, hself⟩ := value?_of_depth_eq_zero hdepth h
    exact hself none
  | array items ih =>
    obtain ⟨inner, values, -, hvalues, rfl⟩ := value?_array_eq_some_iff.1 h
    refine value?_array_eq_some_iff.2 ⟨none, values, rfl, ?_, rfl⟩
    exact forall₂_imp_of_mem hvalues fun j hj v hv => ih j hj hv
  | object members ih =>
    obtain ⟨inner, values, -, hvalues, rfl⟩ := value?_object_eq_some_iff.1 h
    refine value?_object_eq_some_iff.2 ⟨none, values, rfl, ?_, rfl⟩
    exact forall₂_imp_of_mem hvalues fun m hm v hv => ⟨hv.1, ih m hm hv.2⟩

/-! ### What fits into a nesting -/

/-- What is read from `j` with nesting `m` fits into nesting `n`: the two are the same, or all of
`j` is readable with nesting `n`. -/
def Fits (n m : Nesting) (j : Json) : Prop := m = n ∨ (j.value? n).isSome

/-- A value that was read fits. -/
theorem Fits.value?_eq {n m : Nesting} {j v : Json} (hfits : Fits n m j)
    (h : value? m j = some v) : value? n v = some v := by
  rcases hfits with rfl | hn
  · exact value?_self h
  · -- both readings agree with the one in the widest nesting
    obtain ⟨w, hw⟩ := Option.isSome_iff_exists.1 hn
    obtain rfl : v = w := Option.some.inj ((value?_none h).symm.trans (value?_none hw))
    exact value?_self hw

/-- If an array or object fits, so do its parts. -/
theorem Fits.parts {n m inner : Nesting} {j : Json} (hfits : Fits n m j)
    (hinner : m.enter = some inner) (hdepth : 0 < j.depth) :
    ∃ inner', n.enter = some inner' ∧ ∀ part ∈ j.parts, Fits inner' inner part := by
  rcases hfits with rfl | hn
  · exact ⟨inner, hinner, fun _ _ => .inl rfl⟩
  · obtain ⟨v, hv⟩ := Option.isSome_iff_exists.1 hn
    cases j with
    | array items =>
      obtain ⟨inner', values, hinner', hvalues, -⟩ := value?_array_eq_some_iff.1 hv
      refine ⟨inner', hinner', fun part hpart => .inr ?_⟩
      obtain ⟨w, -, hw⟩ := exists_of_mem_right hvalues.flip hpart
      exact Option.isSome_iff_exists.2 ⟨w, hw⟩
    | object members =>
      obtain ⟨inner', values, hinner', hvalues, -⟩ := value?_object_eq_some_iff.1 hv
      refine ⟨inner', hinner', fun part hpart => .inr ?_⟩
      obtain ⟨member, hmember, rfl⟩ := List.mem_map.1 hpart
      obtain ⟨w, -, -, hw⟩ := exists_of_mem_right hvalues.flip hmember
      exact Option.isSome_iff_exists.2 ⟨w.2, hw⟩
    | _ => cases hdepth

/-! ### Documents that are values -/

/-- A document that is a free-form value as it stands: all its parts are readable, and no name is
repeated in an object. -/
def IsValue (j : Json) : Prop := j.value? none = some j

/-- The parts of a value are values. -/
theorem IsValue.of_mem_parts {j part : Json} (h : j.IsValue) (hpart : part ∈ j.parts) :
    part.IsValue := by
  cases j with
  | array items =>
    obtain ⟨inner, values, hinner, hvalues, heq⟩ := value?_array_eq_some_iff.1 h
    cases hinner
    cases heq
    exact List.forall₂_same.1 hvalues part hpart
  | object members =>
    obtain ⟨inner, values, hinner, hvalues, heq⟩ := value?_object_eq_some_iff.1 h
    cases hinner
    have hmembers : members = Entries.ofList values := Json.object.inj heq
    have hnames : values.map Prod.fst = members.map Prod.fst := by
      rw [← List.forall₂_eq_eq_eq, List.forall₂_map_left_iff, List.forall₂_map_right_iff]
      exact hvalues.flip.imp fun _ _ hv => hv.1
    -- no name is repeated, so that the members are what was read
    have hnodup : (values.map Prod.fst).Nodup := by
      rw [hnames, hmembers]
      exact Entries.nodup_ofList values
    rw [Entries.ofList_eq_self hnodup] at hmembers
    subst hmembers
    obtain ⟨m, hm, rfl⟩ := List.mem_map.1 hpart
    exact (List.forall₂_same.1 hvalues m hm).2
  | _ => cases hpart

end Json

end ComponentLint
