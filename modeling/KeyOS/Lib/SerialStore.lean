import Mathlib

/-!
# Serial updates of a store

A list of updates, in the order in which they were asked for, is done in another order.
`Holds` says that the store has, at every place, what the updates done there leave
behind in the order of the list. It is kept as long as two updates of one place are done
in that order.
-/

namespace SerialStore

variable {κ β : Type}

/-- What an update leaves at each place that it writes to. -/
abbrev Update (κ β : Type) : Type := κ → Option β

namespace Update

def apply (u : Update κ β) (f : κ → β) : κ → β := fun a => (u a).getD (f a)

/-- The update that changes nothing. -/
def none : Update κ β := fun _ => Option.none

theorem apply_of_none {u : Update κ β} {a : κ} (h : u a = Option.none) (f : κ → β) :
    u.apply f a = f a := by
  rw [apply, h, Option.getD_none]

theorem apply_of_some {u : Update κ β} {a : κ} {v : β} (h : u a = some v) (f : κ → β) :
    u.apply f a = v := by
  rw [apply, h, Option.getD_some]

end Update

/-- The updates one after the other. -/
def serial (us : List (Update κ β)) (base : κ → β) : κ → β := us.foldl (fun f u => u.apply f) base

/-- Update `i` writes to the place. -/
def Writes (us : List (Update κ β)) (i : Nat) (a : κ) : Prop := ∃ u v, us[i]? = some u ∧ u a = some v

/-- Wherever the updates done are those before `n`, the store is as after these. -/
def Holds (us : List (Update κ β)) (done : Nat → Prop) (base f : κ → β) : Prop :=
  ∀ a n, (∀ i < n, Writes us i a → done i) → (∀ i, n ≤ i → Writes us i a → ¬ done i) →
    f a = serial (us.take n) base a

variable {us : List (Update κ β)} {done done' : Nat → Prop} {base f : κ → β} {u : Update κ β}
  {j n : Nat} {a : κ} {v : β}

theorem serial_take_succ (hu : us[n]? = some u) :
    serial (us.take (n + 1)) base = u.apply (serial (us.take n) base) := by
  rw [serial, List.take_add_one, hu, List.foldl_append]
  rfl

theorem serial_take_of_not_writes (h : ¬ Writes us n a) :
    serial (us.take (n + 1)) base a = serial (us.take n) base a := by
  cases hu : us[n]? with
  | none => rw [List.take_add_one, hu, Option.toList_none, List.append_nil]
  | some u =>
    rw [serial_take_succ hu]
    refine Update.apply_of_none ?_ _
    cases hv : u a with
    | none => rfl
    | some v => exact absurd ⟨u, v, hu, hv⟩ h

/-- The last update of a place decides. -/
theorem serial_take_of_last (hu : us[j]? = some u) (hv : u a = some v) (hlt : j < n)
    (hlast : ∀ i, j < i → i < n → ¬ Writes us i a) : serial (us.take n) base a = v := by
  induction n with
  | zero => exact absurd hlt (Nat.not_lt_zero j)
  | succ n ih =>
    rcases Nat.lt_succ_iff_lt_or_eq.1 hlt with hlt | rfl
    · rw [serial_take_of_not_writes (hlast n hlt n.lt_succ_self)]
      exact ih hlt fun i hji hin => hlast i hji (Nat.lt_trans hin n.lt_succ_self)
    · rw [serial_take_succ hu, Update.apply_of_some hv]

/-! ## 1. Rules -/

theorem holds_init (hnone : ∀ i, ¬ done i) : Holds us done base base := by
  intro a n hbefore hafter
  clear hafter
  induction n with
  | zero => rfl
  | succ n ih =>
    rw [serial_take_of_not_writes fun hw => hnone n (hbefore n n.lt_succ_self hw)]
    exact ih fun i hi => hbefore i (Nat.lt_trans hi n.lt_succ_self)

/-- What a reader of the place sees, when the updates before it are done and no other. -/
theorem Holds.read (h : Holds us done base f) (hbefore : ∀ i < n, Writes us i a → done i)
    (hafter : ∀ i, n ≤ i → Writes us i a → ¬ done i) : f a = serial (us.take n) base a :=
  h a n hbefore hafter

theorem Holds.final (h : Holds us done base f) (hdone : ∀ i < us.length, done i) :
    f = serial us base := by
  funext a
  have hlength : ∀ i, Writes us i a → i < us.length := fun i ⟨u, _, hu, _⟩ =>
    (List.getElem?_eq_some_iff.1 hu).1
  rw [h a us.length (fun i hi _ => hdone i hi) fun i hi hw => absurd (hlength i hw) (Nat.not_lt.2 hi),
    List.take_length]

/-- What is done changes only for updates that write nowhere. -/
theorem Holds.congr (h : Holds us done base f) (hdone : ∀ i a, Writes us i a → (done' i ↔ done i)) :
    Holds us done' base f := fun a n hbefore hafter =>
  h a n (fun i hi hw => (hdone i a hw).1 (hbefore i hi hw))
    fun i hi hw hd => hafter i hi hw ((hdone i a hw).2 hd)

/-- At each of its places, an update is done before those after it. -/
theorem Holds.finish (h : Holds us done base f) (hu : us[j]? = some u)
    (hafter : ∀ a, Writes us j a → ∀ i, j < i → Writes us i a → ¬ done i) :
    Holds us (fun i => i = j ∨ done i) base (u.apply f) := by
  intro a n hn hn'
  cases hv : u a with
  | none =>
    have hnot : ∀ i, Writes us i a → i ≠ j := by
      rintro i ⟨u', v, hu', hv'⟩ rfl
      cases hu.symm.trans hu'
      rw [hv] at hv'
      cases hv'
    rw [Update.apply_of_none hv]
    exact h a n (fun i hi hw => (hn i hi hw).resolve_left (hnot i hw))
      fun i hi hw hd => hn' i hi hw (.inr hd)
  | some v =>
    have hw : Writes us j a := ⟨u, v, hu, hv⟩
    have hlt : j < n := Nat.lt_of_not_le fun hle => hn' j hle hw (.inl rfl)
    rw [Update.apply_of_some hv]
    refine (serial_take_of_last hu hv hlt fun i hji hin hwi => ?_).symm
    exact hafter a hw i hji hwi ((hn i hin hwi).resolve_left (Nat.ne_of_gt hji))

end SerialStore
