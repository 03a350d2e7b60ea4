import Mathlib

/-!
# Slices

The slice of a list at a position, and the list with a slice replaced. What is replaced is read
back, and every slice that does not overlap it is as it was.
-/

namespace Slices

variable {α : Type} {xs ys : List α} {pos len n k : Nat}

def slice (xs : List α) (pos len : Nat) : List α := (xs.drop pos).take len

def splice (xs : List α) (pos : Nat) (ys : List α) : List α :=
  xs.take pos ++ ys ++ xs.drop (pos + ys.length)

@[simp] theorem slice_zero : slice xs pos 0 = [] := rfl

theorem length_slice (h : pos + len ≤ xs.length) : (slice xs pos len).length = len := by
  rw [slice, List.length_take, List.length_drop]
  omega

theorem slice_append (m n : Nat) :
    slice xs pos (m + n) = slice xs pos m ++ slice xs (pos + m) n := by
  rw [slice, List.take_add, List.drop_drop, slice, slice]

/-- A slice of a slice. -/
theorem slice_slice (h : n + k ≤ len) : slice (slice xs pos len) n k = slice xs (pos + n) k := by
  rw [slice, slice, slice, List.drop_take, List.take_take, List.drop_drop, Nat.min_eq_left (by omega)]

theorem slice_take (h : pos + len ≤ n) : slice (xs.take n) pos len = slice xs pos len := by
  rw [slice, slice, List.drop_take, List.take_take, Nat.min_eq_left (by omega)]

theorem length_splice (h : pos + ys.length ≤ xs.length) :
    (splice xs pos ys).length = xs.length := by
  rw [splice, List.length_append, List.length_append, List.length_take, List.length_drop]
  omega

theorem take_splice (h : pos ≤ xs.length) (hn : n ≤ pos) :
    (splice xs pos ys).take n = xs.take n := by
  have hlen : n ≤ (xs.take pos).length := by
    rw [List.length_take]
    omega
  rw [splice, List.append_assoc, List.take_append_of_le_length hlen, List.take_take,
    Nat.min_eq_left hn]

theorem drop_splice (h : pos ≤ xs.length) :
    (splice xs pos ys).drop pos = ys ++ xs.drop (pos + ys.length) := by
  have hlen : (xs.take pos).length = pos := by
    rw [List.length_take]
    omega
  rw [splice, List.append_assoc, List.drop_left' hlen]

/-- What is written is read back. -/
theorem slice_splice (h : pos ≤ xs.length) : slice (splice xs pos ys) pos ys.length = ys := by
  rw [slice, drop_splice h, List.take_left' rfl]

theorem slice_splice_before (h : pos ≤ xs.length) (hle : n + len ≤ pos) :
    slice (splice xs pos ys) n len = slice xs n len := by
  rw [← @slice_take _ (splice xs pos ys) _ _ _ (Nat.le_refl (n + len)), take_splice h hle,
    slice_take (Nat.le_refl _)]

theorem slice_splice_after (h : pos ≤ xs.length) (hle : pos + ys.length ≤ n) :
    slice (splice xs pos ys) n len = slice xs n len := by
  have hsplit : n = pos + (ys.length + (n - (pos + ys.length))) := by omega
  rw [slice, slice, hsplit, ← List.drop_drop, drop_splice h, ← List.drop_drop, List.drop_left,
    List.drop_drop, Nat.add_assoc]

/-- A slice that does not overlap is as it was. -/
theorem slice_splice_apart (h : pos ≤ xs.length) (hle : n + len ≤ pos ∨ pos + ys.length ≤ n) :
    slice (splice xs pos ys) n len = slice xs n len :=
  hle.elim (slice_splice_before h) (slice_splice_after h)

theorem head?_slice (i n : Nat) : (slice xs i (n + 1)).head? = xs[i]? := by
  rw [slice, List.head?_take, if_neg (Nat.succ_ne_zero n), List.head?_drop]

theorem getElem?_splice_apart (h : pos ≤ xs.length) {i : Nat} (hi : i < pos ∨ pos + ys.length ≤ i) :
    (splice xs pos ys)[i]? = xs[i]? := by
  rw [← head?_slice i 0, ← head?_slice i 0, slice_splice_apart h hi]

theorem splice_nil : splice xs pos [] = xs := by
  rw [splice, List.append_nil, List.length_nil, Nat.add_zero, List.take_append_drop]

/-- Two slices, one after the other. -/
theorem splice_append {zs : List α} (h : pos ≤ xs.length) :
    splice (splice xs pos ys) (pos + ys.length) zs = splice xs pos (ys ++ zs) := by
  have hlen : (xs.take pos ++ ys).length = pos + ys.length := by
    rw [List.length_append, List.length_take, Nat.min_eq_left h]
  have htake : (splice xs pos ys).take (pos + ys.length) = xs.take pos ++ ys := by
    rw [splice, ← hlen, List.take_left]
  have hdrop : (splice xs pos ys).drop (pos + ys.length) = xs.drop (pos + ys.length) := by
    rw [splice, ← hlen, List.drop_left]
  unfold splice at htake hdrop ⊢
  rw [htake, ← List.drop_drop, hdrop, List.drop_drop, List.length_append, List.append_assoc,
    List.append_assoc, List.append_assoc, List.append_assoc, Nat.add_assoc]

theorem take_splice_zero : (splice xs 0 ys).take ys.length = ys := by
  rw [splice, List.take_zero, List.nil_append, List.take_left]

end Slices
