import Mathlib

/-!
# Arrays of bits and owners

An array that is only read and written by index is a function of the index. The
searches return an index relative to the start of the slice that they look at.
-/

namespace Bitmap

variable {α : Type}

/-- `xs[start..start + len].fill(v)` -/
def fill (f : Nat → α) (start len : Nat) (v : α) : Nat → α :=
  fun i => if start ≤ i ∧ i < start + len then v else f i

/-- `bits[start..stop].first_one()` -/
def firstOne (bits : Nat → Bool) (start stop : Nat) : Option Nat :=
  (List.range (stop - start)).find? fun k => bits (start + k)

/-- `bits[start..stop].leading_ones()` -/
def leadingOnes (bits : Nat → Bool) (start stop : Nat) : Nat :=
  ((List.range (stop - start)).takeWhile fun k => bits (start + k)).length

/-- `bits[start..start + len].all()` -/
def allOnes (bits : Nat → Bool) (start len : Nat) : Bool :=
  (List.range len).all fun k => bits (start + k)

/-- `bits[..stop].iter_ones().rev()` -/
def onesDown (bits : Nat → Bool) (stop : Nat) : List Nat :=
  ((List.range stop).filter bits).reverse

/-! ## 1. Filling -/

section Fill

variable {f : Nat → α} {start len i : Nat} {v : α}

theorem fill_of_mem (h : start ≤ i ∧ i < start + len) : fill f start len v i = v := if_pos h

theorem fill_of_notMem (h : ¬ (start ≤ i ∧ i < start + len)) : fill f start len v i = f i :=
  if_neg h

/-- Filling one place is an update. -/
theorem fill_one : fill f start 1 v = Function.update f start v := by
  funext i
  rcases eq_or_ne i start with rfl | h
  · rw [Function.update_self, fill_of_mem ⟨le_rfl, Nat.lt_succ_self i⟩]
  · rw [Function.update_of_ne h, fill_of_notMem]
    rintro ⟨h₁, h₂⟩
    exact h (le_antisymm (Nat.le_of_lt_succ h₂) h₁)

end Fill

/-! ## 2. Searching -/

section Search

variable {bits : Nat → Bool} {start stop len k : Nat}

theorem firstOne_eq_some (h : firstOne bits start stop = some k) :
    start + k < stop ∧ bits (start + k) = true := by
  have hmem := List.mem_of_find?_eq_some h
  have hbit := List.find?_some h
  rw [List.mem_range] at hmem
  exact ⟨Nat.add_lt_of_lt_sub' hmem, hbit⟩

theorem leadingOnes_le (bits : Nat → Bool) (start stop : Nat) :
    leadingOnes bits start stop ≤ stop - start := by
  have := (List.takeWhile_sublist (l := List.range (stop - start))
    fun k => bits (start + k)).length_le
  rwa [List.length_range] at this

theorem leadingOnes_spec (hk : k < leadingOnes bits start stop) : bits (start + k) = true := by
  have hget : ((List.range (stop - start)).takeWhile fun k => bits (start + k))[k] = k := by
    have hpre := List.takeWhile_prefix (l := List.range (stop - start))
      fun k => bits (start + k)
    rw [hpre.getElem hk, List.getElem_range]
  have hmem := List.getElem_mem hk
  have hall := List.all_takeWhile (p := fun k => bits (start + k)) (l := List.range (stop - start))
  have := List.all_eq_true.1 hall _ hmem
  rwa [hget] at this

theorem leadingOnes_pos (h : start < stop) (hbit : bits start = true) :
    0 < leadingOnes bits start stop := by
  unfold leadingOnes
  obtain ⟨n, hn⟩ := Nat.exists_eq_succ_of_ne_zero (Nat.sub_ne_zero_of_lt h)
  rw [hn, List.range_succ_eq_map, List.takeWhile_cons, Nat.add_zero, if_pos hbit]
  exact Nat.succ_pos _

theorem allOnes_spec (h : allOnes bits start len = true) {i : Nat}
    (hi : start ≤ i ∧ i < start + len) : bits i = true := by
  have := List.all_eq_true.1 h (i - start) (List.mem_range.2 (by omega))
  rwa [Nat.add_sub_cancel' hi.1] at this

theorem mem_onesDown {i : Nat} : i ∈ onesDown bits stop ↔ i < stop ∧ bits i = true := by
  rw [onesDown, List.mem_reverse, List.mem_filter, List.mem_range]

end Search

/-! ## 3. Counting the places without an owner -/

section Count

variable {f : Nat → Option α} {n start len i : Nat} {v : α}

def vacant (n : Nat) (f : Nat → Option α) : Finset Nat :=
  (Finset.range n).filter fun i => (f i).isNone

theorem mem_vacant : i ∈ vacant n f ↔ i < n ∧ f i = none := by
  rw [vacant, Finset.mem_filter, Finset.mem_range, Option.isNone_iff_eq_none]

theorem vacant_card_le (n : Nat) (f : Nat → Option α) : (vacant n f).card ≤ n :=
  (Finset.card_filter_le _ _).trans_eq (Finset.card_range n)

/-- Filling vacant places with an owner takes them out of the count. -/
theorem vacant_fill_some (hn : start + len ≤ n)
    (hf : ∀ i, start ≤ i ∧ i < start + len → f i = none) (v : α) :
    (vacant n (fill f start len (some v))).card + len = (vacant n f).card := by
  have hsplit : vacant n f =
      vacant n (fill f start len (some v)) ∪ Finset.Ico start (start + len) := by
    ext i
    rw [Finset.mem_union, mem_vacant, mem_vacant, Finset.mem_Ico]
    by_cases hi : start ≤ i ∧ i < start + len
    · rw [fill_of_mem hi]
      exact ⟨fun _ => .inr hi, fun _ => ⟨hi.2.trans_le hn, hf i hi⟩⟩
    · rw [fill_of_notMem hi]
      exact ⟨.inl, fun h => h.resolve_right hi⟩
  have hdisj : Disjoint (vacant n (fill f start len (some v)))
      (Finset.Ico start (start + len)) := by
    rw [Finset.disjoint_left]
    intro i hi hmem
    rw [mem_vacant, fill_of_mem (Finset.mem_Ico.1 hmem)] at hi
    cases hi.2
  rw [hsplit, Finset.card_union_of_disjoint hdisj, Nat.card_Ico, Nat.add_sub_cancel_left]

/-- Freeing an owned place adds it to the count. -/
theorem vacant_update_none (hi : i < n) (hf : f i = some v) :
    (vacant n (Function.update f i none)).card = (vacant n f).card + 1 := by
  have hinsert : vacant n (Function.update f i none) = insert i (vacant n f) := by
    ext j
    rw [Finset.mem_insert, mem_vacant, mem_vacant]
    rcases eq_or_ne j i with rfl | hj
    · rw [Function.update_self]
      exact ⟨fun _ => .inl rfl, fun _ => ⟨hi, rfl⟩⟩
    · rw [Function.update_of_ne hj]
      exact ⟨.inr, fun h => h.resolve_left hj⟩
  rw [hinsert, Finset.card_insert_of_notMem]
  rw [mem_vacant, hf]
  exact fun h => absurd h.2 nofun

/-- Giving an owned place to another owner changes nothing. -/
theorem vacant_update_some {w : α} (hf : f i = some w) (v : α) :
    vacant n (Function.update f i (some v)) = vacant n f := by
  ext j
  rw [mem_vacant, mem_vacant]
  rcases eq_or_ne j i with rfl | hj
  · rw [Function.update_self, hf]
    exact ⟨fun h => absurd h.2 nofun, fun h => absurd h.2 nofun⟩
  · rw [Function.update_of_ne hj]

/-- The count of the vacant places as the code counts them. -/
theorem vacant_card_eq_countP (n : Nat) (f : Nat → Option α) :
    (vacant n f).card = (List.range n).countP fun i => (f i).isNone := by
  rw [vacant, Finset.range_eq_Ico]
  induction n with
  | zero => rfl
  | succ n ih =>
    rw [List.range_succ, List.countP_append, ← ih, ← Finset.range_eq_Ico, ← Finset.range_eq_Ico,
      Finset.range_add_one, Finset.filter_insert]
    split
    · next h =>
      rw [Finset.card_insert_of_notMem fun hmem =>
        absurd (Finset.mem_range.1 (Finset.mem_filter.1 hmem).1) (lt_irrefl n)]
      simp only [List.countP_singleton, h, if_true]
    · next h => simp only [List.countP_singleton, h, Bool.false_eq_true, if_false, Nat.add_zero]

end Count

end Bitmap
