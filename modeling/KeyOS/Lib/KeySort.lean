import Mathlib

/-!
# Lists in ascending order of a key

No two elements of an ascending list share a key, so a sort by the key finds the list again from any
arrangement of it.
-/

namespace KeySort

variable {α κ : Type} [LinearOrder κ] {key : α → κ} {xs ys : List α}

/-- The list is sorted by the key, which no two of its elements share. -/
def Ascending (key : α → κ) (xs : List α) : Prop := xs.Pairwise fun a b => key a < key b

/-- The stable sort by a key -/
def sortBy (key : α → κ) (xs : List α) : List α := xs.insertionSort fun a b => key a ≤ key b

theorem sortBy_perm (key : α → κ) (xs : List α) : (sortBy key xs).Perm xs :=
  List.perm_insertionSort _ xs

@[simp] theorem mem_sortBy {x : α} : x ∈ sortBy key xs ↔ x ∈ xs := (sortBy_perm key xs).mem_iff

theorem sortBy_pairwise (key : α → κ) (xs : List α) :
    (sortBy key xs).Pairwise fun a b => key a ≤ key b := by
  have : Std.Total fun a b : α => key a ≤ key b := ⟨fun a b => le_total (key a) (key b)⟩
  have : IsTrans α fun a b => key a ≤ key b := ⟨fun _ _ _ => le_trans⟩
  exact List.pairwise_insertionSort _ xs

theorem Ascending.nodup (h : Ascending key xs) : (xs.map key).Nodup :=
  List.pairwise_map.2 (h.imp ne_of_lt)

theorem ascending_iff_nodup (hsorted : xs.Pairwise fun a b => key a ≤ key b) :
    Ascending key xs ↔ (xs.map key).Nodup := by
  refine ⟨Ascending.nodup, ?_⟩
  intro hnodup
  refine hsorted.imp₂ ?_ (List.pairwise_map.1 hnodup)
  intro a b hle hne
  exact lt_of_le_of_ne hle hne

theorem ascending_sortBy (h : (xs.map key).Nodup) : Ascending key (sortBy key xs) := by
  refine (ascending_iff_nodup (sortBy_pairwise key xs)).2 ?_
  exact ((sortBy_perm key xs).map key).nodup_iff.2 h

/-- Sorting finds an ascending list again. -/
theorem sortBy_eq (h : Ascending key ys) (hperm : xs.Perm ys) : sortBy key xs = ys := by
  have hxs : Ascending key (sortBy key xs) :=
    ascending_sortBy ((hperm.map key).nodup_iff.2 h.nodup)
  refine ((sortBy_perm key xs).trans hperm).eq_of_pairwise ?_ hxs h
  intro a b _ _ hab hba
  exact absurd hab (lt_asymm hba)

theorem sortBy_self (h : Ascending key xs) : sortBy key xs = xs := sortBy_eq h (.refl xs)

/-- The order that a list comes in makes no difference to the sort. -/
theorem sortBy_congr (hperm : xs.Perm ys) (hnodup : (ys.map key).Nodup) :
    sortBy key xs = sortBy key ys :=
  sortBy_eq (ascending_sortBy hnodup) (hperm.trans (sortBy_perm key ys).symm)

theorem Ascending.filter (h : Ascending key xs) (p : α → Bool) : Ascending key (xs.filter p) :=
  List.Pairwise.sublist List.filter_sublist h

/-- An ascending list below a bound, and from it on. -/
theorem Ascending.filter_append (h : Ascending key xs) (k : κ) :
    xs.filter (fun x => decide (key x < k)) ++ xs.filter (fun x => !decide (key x < k)) = xs := by
  induction xs with
  | nil => rfl
  | cons x xs ih =>
    obtain ⟨hx, hxs⟩ := List.pairwise_cons.1 h
    by_cases hlt : key x < k
    · simp [hlt, ih hxs]
    · have hall : ∀ y ∈ xs, ¬key y < k := fun y hy hyk => hlt ((hx y hy).trans hyk)
      have hnone : xs.filter (fun y => decide (key y < k)) = [] := by
        simpa [List.filter_eq_nil_iff] using hall
      have hrest := ih hxs
      rw [hnone, List.nil_append] at hrest
      simp [hlt, hnone, hrest]

end KeySort
