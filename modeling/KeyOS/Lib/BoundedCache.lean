import Mathlib

/-!
# Caches of bounded size

A cache gives up an entry for a new one when it is full. Which one that is, is left to the cache:
what is stated here is what the entries are after each operation. The cache that gives up the entry
that was not used for the longest time is one of them.
-/

/-- The operations of a cache with values `V`, kept as a `C`, and what they do to its entries -/
structure BoundedCache (C V : Type) where
  empty : C
  get : C → Nat → Option V
  /-- Adds an entry, and returns the one that was given up for it. -/
  push : C → Nat → V → C × Option (Nat × V)
  /-- Uses an entry, and edits it. -/
  touch : C → Nat → V → C
  /-- Edits an entry without using it, as the iteration over all entries does. -/
  replace : C → Nat → V → C
  pop : C → Nat → C
  /-- The order of the iteration -/
  keys : C → List Nat
  get_empty : ∀ k, get empty k = none
  get_push_none : ∀ {c k v}, get c k = none → (push c k v).2 = none →
    ∀ j, get (push c k v).1 j = if j = k then some v else get c j
  get_push_some : ∀ {c k v i u}, get c k = none → (push c k v).2 = some (i, u) →
    get c i = some u ∧ ∀ j, get (push c k v).1 j =
      if j = k then some v else if j = i then none else get c j
  get_touch : ∀ {c k v u}, get c k = some u → ∀ j,
    get (touch c k v) j = if j = k then some v else get c j
  get_replace : ∀ {c k v u}, get c k = some u → ∀ j,
    get (replace c k v) j = if j = k then some v else get c j
  get_pop : ∀ c k j, get (pop c k) j = if j = k then none else get c j
  mem_keys : ∀ {c k}, (get c k).isSome = true → k ∈ keys c

namespace BoundedCache

/-! ## The least recently used entry goes -/

/-- The entries, the one used last in front -/
structure Recent (V : Type) where
  entries : List (Nat × V)
  nodup : (entries.map Prod.fst).Nodup

namespace Recent

variable {V : Type} {c : Recent V} {k : Nat} {v : V}

def get (c : Recent V) (k : Nat) : Option V := c.entries.lookup k

def without (c : Recent V) (k : Nat) : List (Nat × V) := c.entries.filter (·.1 ≠ k)

theorem without_nodup (c : Recent V) (k : Nat) : ((c.without k).map Prod.fst).Nodup :=
  c.nodup.sublist (List.filter_sublist.map _)

theorem not_mem_without (c : Recent V) (k : Nat) : k ∉ (c.without k).map Prod.fst := by
  intro h
  obtain ⟨e, he, hk⟩ := List.mem_map.1 h
  simpa [hk] using (List.mem_filter.1 he).2

def pop (c : Recent V) (k : Nat) : Recent V := ⟨c.without k, c.without_nodup k⟩

def touch (c : Recent V) (k : Nat) (v : V) : Recent V :=
  ⟨(k, v) :: c.without k, List.nodup_cons.2 ⟨c.not_mem_without k, c.without_nodup k⟩⟩

def replace (c : Recent V) (k : Nat) (v : V) : Recent V where
  entries := c.entries.map fun e => if e.1 = k then (k, v) else e
  nodup := by
    have hkeys : (c.entries.map fun e => if e.1 = k then (k, v) else e).map Prod.fst =
        c.entries.map Prod.fst := by
      rw [List.map_map]
      refine List.map_congr_left fun e _ => ?_
      by_cases h : e.1 = k
      · simp [h]
      · simp [h]
    rw [hkeys]
    exact c.nodup

/-- A full cache gives up its last entry. -/
def push (cap : Nat) (c : Recent V) (k : Nat) (v : V) : Recent V × Option (Nat × V) :=
  match c.get k with
  | some u => (c.touch k v, some (k, u))
  | none =>
    if c.entries.length < cap then (c.touch k v, none)
    else
      match c.entries.getLast? with
      | none => (c.touch k v, none)
      | some last => ((c.pop last.1).touch k v, some last)

theorem lookup_cons (e : Nat × V) (l : List (Nat × V)) (j : Nat) :
    (e :: l).lookup j = if j = e.1 then some e.2 else l.lookup j := by
  rw [List.lookup_cons]
  by_cases h : j = e.1
  · simp [h]
  · have hne : (j == e.1) = false := by simpa using h
    rw [if_neg h, hne]

theorem lookup_map_ne (l : List (Nat × V)) {k j : Nat} (v : V) (hj : j ≠ k) :
    (l.map fun e => if e.1 = k then (k, v) else e).lookup j = l.lookup j := by
  induction l with
  | nil => rfl
  | cons e l ih =>
    rw [List.map_cons, lookup_cons, lookup_cons, ih]
    by_cases hk : e.1 = k
    · simp [hk, hj]
    · simp [hk]

theorem lookup_map_self (l : List (Nat × V)) {k : Nat} {u : V} (v : V) (h : l.lookup k = some u) :
    (l.map fun e => if e.1 = k then (k, v) else e).lookup k = some v := by
  induction l with
  | nil => cases h
  | cons e l ih =>
    rw [lookup_cons] at h
    rw [List.map_cons, lookup_cons]
    by_cases hk : e.1 = k
    · simp [hk]
    · rw [if_neg (Ne.symm hk)] at h
      simp [hk, Ne.symm hk, ih h]

theorem lookup_filter (l : List (Nat × V)) (k j : Nat) :
    (l.filter (·.1 ≠ k)).lookup j = if j = k then none else l.lookup j := by
  induction l with
  | nil => simp
  | cons e l ih =>
    by_cases hk : e.1 = k
    · rw [List.filter_cons_of_neg (by simpa using hk), ih, lookup_cons]
      by_cases hj : j = k
      · simp [hj]
      · simp [hj, hk]
    · rw [List.filter_cons_of_pos (by simpa using hk), lookup_cons, lookup_cons, ih]
      by_cases hj : j = k
      · subst hj
        simp [Ne.symm hk]
      · simp [hj]

theorem get_touch (c : Recent V) (k j : Nat) (v : V) :
    (c.touch k v).get j = if j = k then some v else c.get j := by
  rw [get, touch, lookup_cons, without, lookup_filter, get]
  by_cases hj : j = k
  · simp [hj]
  · simp [hj]

theorem get_pop (c : Recent V) (k j : Nat) :
    (c.pop k).get j = if j = k then none else c.get j := lookup_filter _ _ _

theorem get_of_mem (c : Recent V) {i : Nat} {u : V} (h : (i, u) ∈ c.entries) :
    c.get i = some u := by
  obtain ⟨entries, hnodup⟩ := c
  rw [get]
  induction entries with
  | nil => cases h
  | cons e l ih =>
    rw [List.map_cons, List.nodup_cons] at hnodup
    rw [lookup_cons]
    rcases List.mem_cons.1 h with rfl | h
    · simp
    · have hne : i ≠ e.1 := fun heq => hnodup.1 (heq ▸ List.mem_map_of_mem h)
      simpa [hne] using ih hnodup.2 h

/-- The cache of `cap` entries that gives up the least recently used one -/
def cache (cap : Nat) (V : Type) : BoundedCache (Recent V) V where
  empty := ⟨[], List.nodup_nil⟩
  get := get
  push := push cap
  touch := touch
  replace := replace
  pop := pop
  keys c := c.entries.map Prod.fst
  get_empty _ := rfl
  get_push_none := by
    intro c k v hnone hpush j
    unfold push at hpush ⊢
    rw [hnone] at hpush ⊢
    dsimp only at hpush ⊢
    split at hpush
    · next hroom => rw [if_pos hroom, get_touch]
    · next hroom =>
      rw [if_neg hroom]
      split at hpush
      · exact get_touch _ _ _ _
      · cases hpush
  get_push_some := by
    intro c k v i u hnone hpush
    unfold push at hpush ⊢
    rw [hnone] at hpush ⊢
    dsimp only at hpush ⊢
    split at hpush
    · cases hpush
    · next hroom =>
      rw [if_neg hroom]
      split at hpush
      · cases hpush
      · next last hlast =>
        cases hpush
        refine ⟨c.get_of_mem (List.mem_of_getLast? hlast), fun j => ?_⟩
        rw [get_touch, get_pop]
  get_touch _ j := get_touch _ _ _ _
  get_replace := by
    intro c k v u h j
    split
    · next heq =>
      subst heq
      exact lookup_map_self _ v h
    · next hne => exact lookup_map_ne _ v hne
  get_pop := get_pop
  mem_keys := by
    intro c k h
    obtain ⟨v, hv⟩ := Option.isSome_iff_exists.1 h
    obtain ⟨l₁, l₂, heq, -⟩ := List.lookup_eq_some_iff.1 hv
    rw [heq]
    simp

end Recent

end BoundedCache
