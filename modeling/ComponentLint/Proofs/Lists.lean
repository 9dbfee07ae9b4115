import Mathlib.Data.List.Forall2

/-!
# Lists taken item by item

What is read, written or computed for a list is often read, written or computed for each of its
items, and fails if it fails for one of them.  Then the items and the results stand in a relation,
item by item, and a result comes from an item.

## Main statements

* `exists_of_mem_right`, `forall₂_imp_of_mem`, `forall₂_filter_of_map_eq_filterMap` — lists that are
  related item by item.
* `mapM_eq_some_iff`, `mapM_congr` — lists that are read item by item.
* `bind_eq_ok_iff`, `forall₂_of_mapM`, `exists_of_mem_mapM` — the results of a run over a list.
-/

namespace ComponentLint

/-! ### Lists that are related item by item -/

section Related

variable {α β : Type} {R S : α → β → Prop} {l : List α} {l' : List β}

theorem exists_of_mem_right {b : β} (h : List.Forall₂ R l l') (hb : b ∈ l') : ∃ a ∈ l, R a b := by
  induction h with
  | nil => cases hb
  | cons hab _ ih =>
    rcases List.mem_cons.1 hb with rfl | hb
    · exact ⟨_, List.mem_cons_self, hab⟩
    · obtain ⟨a, ha, hR⟩ := ih hb
      exact ⟨a, List.mem_cons_of_mem _ ha, hR⟩

theorem forall₂_imp_of_mem (h : List.Forall₂ R l l') (himp : ∀ a ∈ l, ∀ b, R a b → S a b) :
    List.Forall₂ S l l' := by
  induction h with
  | nil => exact .nil
  | cons hab _ ih =>
    exact .cons (himp _ List.mem_cons_self _ hab)
      (ih fun a ha => himp a (List.mem_cons_of_mem _ ha))

/-- Items that have an image, beside what has the same image. -/
theorem forall₂_filter_of_map_eq_filterMap {γ : Type} {f : α → Option γ} {g : β → γ}
    (h : l'.map g = l.filterMap f) :
    List.Forall₂ (fun a b => f a = some (g b)) (l.filter fun a => (f a).isSome) l' := by
  induction l generalizing l' with
  | nil =>
    obtain rfl := List.map_eq_nil_iff.1 h
    exact .nil
  | cons a l ih =>
    cases ha : f a with
    | none =>
      rw [List.filterMap_cons_none ha] at h
      rw [List.filter_cons_of_neg (by simp [ha])]
      exact ih h
    | some c =>
      rw [List.filterMap_cons_some ha] at h
      obtain ⟨b, r, rfl, hb, hr⟩ := List.map_eq_cons_iff.1 h
      rw [List.filter_cons_of_pos (by simp [ha])]
      exact .cons (by rw [ha, hb]) (ih hr)

end Related

/-! ### Readers -/

section Readers

variable {α β : Type} {f g : α → Option β} {l : List α} {l' : List β}

/-- A list is read item by item. -/
theorem mapM_eq_some_iff :
    l.mapM f = some l' ↔ List.Forall₂ (fun a b => f a = some b) l l' := by
  induction l generalizing l' with
  | nil =>
    rw [List.mapM_nil, List.forall₂_nil_left_iff]
    exact ⟨fun h => (Option.some.inj h).symm, fun h => congrArg some h.symm⟩
  | cons a l ih =>
    rw [List.mapM_cons, List.forall₂_cons_left_iff]
    constructor
    · intro h
      obtain ⟨b, hb, h⟩ := Option.bind_eq_some_iff.1 h
      obtain ⟨rest, hrest, h⟩ := Option.bind_eq_some_iff.1 h
      exact ⟨b, rest, hb, ih.1 hrest, (Option.some.inj h).symm⟩
    · rintro ⟨b, rest, hb, hrest, rfl⟩
      rw [hb, ih.2 hrest]
      rfl

theorem mapM_congr (h : ∀ a ∈ l, f a = g a) : l.mapM f = l.mapM g := by
  induction l with
  | nil => rfl
  | cons a l ih =>
    rw [List.mapM_cons, List.mapM_cons, h a List.mem_cons_self,
      ih fun b hb => h b (List.mem_cons_of_mem _ hb)]

end Readers

/-! ### Runs that may fail -/

section Runs

variable {ε α β : Type} {f : α → Except ε β} {l : List α} {results : List β}

/-- A result that is found in two steps is there if both steps have one. -/
theorem bind_eq_ok_iff {r : Except ε α} {b : β} :
    r >>= f = .ok b ↔ ∃ a, r = .ok a ∧ f a = .ok b := by
  cases r <;> simp [bind, Except.bind]

/-- The results of a run over a list, one for each element. -/
theorem forall₂_of_mapM (h : l.mapM f = .ok results) :
    List.Forall₂ (fun a b => f a = .ok b) l results := by
  induction l generalizing results with
  | nil =>
    cases h
    exact .nil
  | cons a l ih =>
    rw [List.mapM_cons] at h
    obtain ⟨first, hfirst, h⟩ := bind_eq_ok_iff.1 h
    obtain ⟨rest, hrest, h⟩ := bind_eq_ok_iff.1 h
    cases h
    exact .cons hfirst (ih hrest)

/-- The results of a run over a list come from its elements. -/
theorem exists_of_mem_mapM (h : l.mapM f = .ok results) {b : β} (hb : b ∈ results) :
    ∃ a ∈ l, f a = .ok b := by
  obtain ⟨a, ha, hfa⟩ := exists_of_mem_right (forall₂_of_mapM h) hb
  exact ⟨a, ha, hfa⟩

end Runs

end ComponentLint
