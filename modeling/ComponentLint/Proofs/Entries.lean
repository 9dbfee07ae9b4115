import ComponentLint.Entries
import Mathlib.Data.List.Nodup

/-!
# Entries under distinct names

A map keeps its entries in the order in which their names came up first.  So maps are the lists of
entries in which no name is repeated, and in such a list an entry is found under its name.

## Main statements

* `Entries.get?_eq_some_iff` — without repeated names, an entry is found under its name.
* `Entries.nodup_ofList`, `Entries.ofList_eq_self` — **maps are the lists without repeated names.**
-/

namespace ComponentLint

namespace Entries

variable {α : Type}

theorem has_iff {e : Entries α} {name : String} : e.has name = true ↔ name ∈ e.map Prod.fst := by
  rw [has, List.any_eq_true, List.mem_map]
  refine exists_congr fun entry => and_congr_right fun _ => ?_
  exact beq_iff_eq

/-- Without repeated names, the value under a name is the one that is listed with it. -/
theorem get?_eq_some_iff {e : Entries α} (h : (e.map Prod.fst).Nodup) {name : String} {value : α} :
    e.get? name = some value ↔ (name, value) ∈ e := by
  rw [get?, List.lookup_eq_some_iff]
  constructor
  · intro hfound
    obtain ⟨before, after, rfl, -⟩ := hfound
    simp
  · intro hmem
    obtain ⟨before, after, rfl⟩ := List.append_of_mem hmem
    refine ⟨before, after, rfl, ?_⟩
    intro entry hentry
    rw [List.map_append, List.map_cons, List.nodup_append] at h
    have hne := h.2.2 entry.1 (List.mem_map_of_mem hentry) name List.mem_cons_self
    simpa using hne.symm

/-- Putting a value keeps the names, or adds the name at the end. -/
theorem names_put (e : Entries α) (name : String) (value : α) :
    (e.put name value).map Prod.fst =
      if e.has name then e.map Prod.fst else e.map Prod.fst ++ [name] := by
  unfold put
  split
  · rw [List.map_map]
    refine List.map_congr_left fun entry _ => ?_
    rw [Function.comp_apply]
    split
    · next hname => exact (beq_iff_eq.1 hname).symm
    · rfl
  · rw [List.map_append]
    rfl

theorem nodup_put {e : Entries α} (h : (e.map Prod.fst).Nodup) (name : String) (value : α) :
    ((e.put name value).map Prod.fst).Nodup := by
  rw [names_put]
  split
  · exact h
  · next hname =>
    refine List.nodup_append.2 ⟨h, List.nodup_singleton name, ?_⟩
    rintro a ha b hb rfl
    rw [List.mem_singleton.1 hb] at ha
    exact hname (has_iff.2 ha)

theorem mem_put {e : Entries α} {name : String} {value : α} {entry : String × α}
    (h : entry ∈ e.put name value) : entry = (name, value) ∨ entry ∈ e := by
  unfold put at h
  split at h
  · obtain ⟨old, hold, rfl⟩ := List.mem_map.1 h
    split
    · exact .inl rfl
    · exact .inr hold
  · rcases List.mem_append.1 h with h | h
    · exact .inr h
    · exact .inl (List.mem_singleton.1 h)

theorem nodup_putAll {e : Entries α} (h : (e.map Prod.fst).Nodup) (l : List (String × α)) :
    ((e.putAll l).map Prod.fst).Nodup := by
  induction l generalizing e with
  | nil => exact h
  | cons entry l ih => exact ih (nodup_put h entry.1 entry.2)

theorem mem_putAll {e : Entries α} {l : List (String × α)} {entry : String × α}
    (h : entry ∈ e.putAll l) : entry ∈ e ∨ entry ∈ l := by
  induction l generalizing e with
  | nil => exact .inl h
  | cons first l ih =>
    rcases ih h with h | h
    · rcases mem_put h with rfl | h
      · exact .inr List.mem_cons_self
      · exact .inl h
    · exact .inr (List.mem_cons_of_mem _ h)

/-- Pairs with new names are added at the end. -/
theorem putAll_eq_append {e : Entries α} {l : List (String × α)}
    (h : ((e ++ l).map Prod.fst).Nodup) : e.putAll l = e ++ l := by
  induction l generalizing e with
  | nil => exact (List.append_nil e).symm
  | cons entry l ih =>
    have hnew : ¬ e.has entry.1 := by
      rw [has_iff]
      intro hmem
      rw [List.map_append, List.map_cons, List.nodup_append] at h
      exact h.2.2 entry.1 hmem entry.1 List.mem_cons_self rfl
    have hput : e.put entry.1 entry.2 = e ++ [entry] := by rw [put, if_neg hnew]
    rw [List.append_cons] at h ⊢
    rw [putAll, List.foldl_cons, hput]
    exact ih h

/-- A map has no repeated name. -/
theorem nodup_ofList (l : List (String × α)) : ((ofList l).map Prod.fst).Nodup :=
  nodup_putAll (e := []) List.nodup_nil l

theorem mem_of_mem_ofList {l : List (String × α)} {entry : String × α} (h : entry ∈ ofList l) :
    entry ∈ l :=
  (mem_putAll h).resolve_left List.not_mem_nil

/-- A list without repeated names is a map as it stands. -/
theorem ofList_eq_self {l : List (String × α)} (h : (l.map Prod.fst).Nodup) : ofList l = l :=
  putAll_eq_append h

end Entries

end ComponentLint
