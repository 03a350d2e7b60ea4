import Mathlib

/-!
# Positions in a history

A history is a list of events that grows at its end, so that a position names the same event in
every later history.
-/

namespace History

variable {α : Type} {P Q : α → Prop} {es new : List α} {a b : α} {i j k : Nat}

/-- The event at the position. -/
abbrev At (es : List α) (i : Nat) (a : α) : Prop := es[i]? = some a

/-- No event strictly between the two positions satisfies `P`. -/
def Quiet (P : α → Prop) (es : List α) (i j : Nat) : Prop :=
  ∀ k e, i < k → k < j → At es k e → ¬ P e

/-- The event at the position satisfies `P` and no later one does. -/
def Last (P : α → Prop) (es : List α) (i : Nat) (a : α) : Prop :=
  At es i a ∧ Quiet P es i es.length

theorem lt_of_at (h : At es i a) : i < es.length := (List.getElem?_eq_some_iff.1 h).1

theorem not_at_nil : ¬ At ([] : List α) i a := fun h => Nat.not_lt_zero i (lt_of_at h)

theorem at_append (h : At es i a) : At (es ++ new) i a := by
  rw [At, List.getElem?_append_left (lt_of_at h), h]

theorem at_length : At (es ++ a :: new) es.length a := by
  rw [At, List.getElem?_append_right (Nat.le_refl _), Nat.sub_self, List.getElem?_cons_zero]

theorem at_append_iff (hi : i < es.length) : At (es ++ new) i a ↔ At es i a := by
  rw [At, At, List.getElem?_append_left hi]

/-- An event of the longer history is an old one or one of those added. -/
theorem at_or_new (h : At (es ++ new) i a) : At es i a ∨ es.length ≤ i ∧ a ∈ new := by
  rcases Nat.lt_or_ge i es.length with hlt | hge
  · exact .inl ((at_append_iff hlt).1 h)
  · rw [At, List.getElem?_append_right hge] at h
    exact .inr ⟨hge, List.mem_of_getElem? h⟩

theorem at_of_mem (h : a ∈ new) : ∃ j, es.length ≤ j ∧ At (es ++ new) j a := by
  obtain ⟨j, hj⟩ := List.mem_iff_getElem?.1 h
  refine ⟨es.length + j, Nat.le_add_right _ _, ?_⟩
  rw [At, List.getElem?_append_right (Nat.le_add_right _ _), Nat.add_sub_cancel_left, hj]

theorem Quiet.append (h : Quiet P es i j) (hj : j ≤ es.length) : Quiet P (es ++ new) i j :=
  fun k e hik hkj hk => h k e hik hkj ((at_append_iff (Nat.lt_of_lt_of_le hkj hj)).1 hk)

theorem Quiet.extend (h : Quiet P es i es.length) (hnew : ∀ e ∈ new, ¬ P e) :
    Quiet P (es ++ new) i (es ++ new).length := by
  intro k e hik hk hat
  rcases at_or_new hat with hold | ⟨-, hmem⟩
  · exact h k e hik (lt_of_at hold) hold
  · exact hnew e hmem

theorem Last.unique (h : Last P es i a) (h' : Last P es j b) (ha : P a) (hb : P b) :
    i = j ∧ a = b := by
  have heq : i = j := by
    rcases Nat.lt_trichotomy i j with hlt | heq | hgt
    · exact absurd hb (h.2 j b hlt (lt_of_at h'.1) h'.1)
    · exact heq
    · exact absurd ha (h'.2 i a hgt (lt_of_at h.1) h.1)
  subst heq
  exact ⟨rfl, Option.some.inj (h.1.symm.trans h'.1)⟩

theorem Last.extend (h : Last P es i a) (hnew : ∀ e ∈ new, ¬ P e) : Last P (es ++ new) i a :=
  ⟨at_append h.1, h.2.extend hnew⟩

/-- The event added first is the last of its kind when the others added are not of the kind. -/
theorem Last.added (hnew : ∀ e ∈ new, ¬ P e) : Last P (es ++ a :: new) es.length a := by
  refine ⟨at_length, fun k e hk _ hat => ?_⟩
  rw [At, List.getElem?_append_right (Nat.le_of_lt hk)] at hat
  obtain ⟨m, hm⟩ : ∃ m, k - es.length = m + 1 := ⟨k - es.length - 1, by omega⟩
  rw [hm, List.getElem?_cons_succ] at hat
  exact hnew e (List.mem_of_getElem? hat)

end History
