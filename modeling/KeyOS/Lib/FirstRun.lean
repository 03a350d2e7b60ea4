import Mathlib

/-!
# The first run of a length

A scan that looks at numbered elements in order and counts how many good ones it saw last.
The first time the count reaches `needed`, the run that it counted is the lowest one.

`Scanned` is the invariant of the scan, and `occupied`, `extend` and `found` say what becomes
of it when the scan passes elements, one or many at a time.
-/

namespace FirstRun

variable {good : Nat → Prop} {first stop needed page len k v : Nat}

/-- `needed` good elements from `v` on, inside `[first, stop)`. -/
structure IsRun (good : Nat → Prop) (first stop needed v : Nat) : Prop where
  le : first ≤ v
  inside : v + needed ≤ stop
  each : ∀ u, v ≤ u → u < v + needed → good u

/-- The lowest of the runs. -/
def IsLowest (good : Nat → Prop) (first stop needed v : Nat) : Prop :=
  IsRun good first stop needed v ∧ ∀ u, IsRun good first stop needed u → v ≤ u

/-- The scan saw `[first, page)`, which has no run, and counted the `len` good elements at
its end. -/
structure Scanned (good : Nat → Prop) (first needed page len : Nat) : Prop where
  counted : first + len ≤ page
  short : len < needed
  each : ∀ u, page - len ≤ u → u < page → good u
  longest : page - len = first ∨ ¬ good (page - len - 1)
  none : ∀ v, ¬ IsRun good first page needed v

namespace Scanned

theorem start (h : 0 < needed) : Scanned good first needed first 0 where
  counted := Nat.le_refl _
  short := h
  each := fun u hle hlt => absurd hlt (Nat.not_lt.2 hle)
  longest := .inl rfl
  none := fun v hv => by
    have := hv.le
    have := hv.inside
    omega

/-- A run that starts before the counted elements would have ended before. -/
theorem le_of_isRun (h : Scanned good first needed page len)
    (hv : IsRun good first stop needed v) : page - len ≤ v := by
  rcases Nat.lt_or_ge v (page - len) with hlt | hge
  · exfalso
    have hfirst := hv.le
    rcases Nat.lt_or_ge page (v + needed) with hover | hunder
    · rcases h.longest with heq | hbad
      · omega
      · exact hbad (hv.each _ (by omega) (by omega))
    · exact h.none v ⟨hfirst, hunder, hv.each⟩
  · exact hge

/-- Elements that are not good end the run. -/
theorem occupied (h : Scanned good first needed page len) (hk : 0 < k)
    (hbad : ∀ u, page ≤ u → u < page + k → ¬ good u) : Scanned good first needed (page + k) 0 where
  counted := by
    have := h.counted
    omega
  short := Nat.lt_of_le_of_lt (Nat.zero_le _) h.short
  each := fun u hle hlt => absurd hlt (Nat.not_lt.2 hle)
  longest := .inr (hbad _ (by omega) (by omega))
  none := fun v hv => by
    have hle := h.le_of_isRun hv
    have hshort := h.short
    have hcounted := h.counted
    rcases Nat.lt_or_ge page (v + needed) with hover | hunder
    · exact hbad (v + needed - 1) (by omega) (by have := hv.inside; omega)
        (hv.each _ (by omega) (by omega))
    · exact h.none v ⟨hv.le, hunder, hv.each⟩

/-- Good elements that do not complete a run. -/
theorem extend (h : Scanned good first needed page len) (hshort : len + k < needed)
    (hgood : ∀ u, page ≤ u → u < page + k → good u) :
    Scanned good first needed (page + k) (len + k) where
  counted := by
    have := h.counted
    omega
  short := hshort
  each := fun u hle hlt => by
    rcases Nat.lt_or_ge u page with hold | hnew
    · exact h.each u (by omega) hold
    · exact hgood u hnew hlt
  longest := by
    have heq : page + k - (len + k) = page - len := by omega
    rw [heq]
    exact h.longest
  none := fun v hv => by
    have hle := h.le_of_isRun hv
    have hcounted := h.counted
    have := hv.inside
    omega

/-- Good elements that complete a run. -/
theorem found (h : Scanned good first needed page len) (hfull : needed ≤ len + k)
    (hgood : ∀ u, page ≤ u → u < page + k → good u) (hstop : page + k ≤ stop) :
    IsLowest good first stop needed (page - len) := by
  have hcounted := h.counted
  refine ⟨⟨by omega, by omega, fun u hle hlt => ?_⟩, fun u hu => h.le_of_isRun hu⟩
  rcases Nat.lt_or_ge u page with hold | hnew
  · exact h.each u hle hold
  · exact hgood u hnew (by omega)

end Scanned

end FirstRun
