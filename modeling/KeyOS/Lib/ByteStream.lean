import Mathlib

/-!
# Numbers as bytes, and exact reads

Little- and big-endian encodings of a given width, and a read that takes a given number of
bytes from the front of a string or fails.
-/

namespace ByteStream

/-! ## 1. Numbers -/

/-- The lowest `k` bytes of `n`, the low end first. -/
def le : Nat → Nat → List UInt8
  | 0, _ => []
  | k + 1, n => UInt8.ofNat n :: le k (n / 256)

def ofLe : List UInt8 → Nat
  | [] => 0
  | b :: bytes => b.toNat + 256 * ofLe bytes

/-- The lowest `k` bytes of `n`, the high end first. -/
def be (k n : Nat) : List UInt8 := (le k n).reverse

def ofBe (bytes : List UInt8) : Nat := ofLe bytes.reverse

@[simp] theorem length_le (k n : Nat) : (le k n).length = k := by
  induction k generalizing n with
  | zero => rfl
  | succ k ih => rw [le, List.length_cons, ih]

@[simp] theorem length_be (k n : Nat) : (be k n).length = k := by
  rw [be, List.length_reverse, length_le]

theorem ofLe_le {k n : Nat} (h : n < 256 ^ k) : ofLe (le k n) = n := by
  induction k generalizing n with
  | zero =>
    have hn : n = 0 := by omega
    rw [hn]
    rfl
  | succ k ih =>
    have hrest : n / 256 < 256 ^ k := by
      rw [Nat.pow_succ] at h
      omega
    rw [le, ofLe, ih hrest, UInt8.toNat_ofNat']
    omega

theorem le_ofLe (bytes : List UInt8) : le bytes.length (ofLe bytes) = bytes := by
  induction bytes with
  | nil => rfl
  | cons b bytes ih =>
    have hdiv : (b.toNat + 256 * ofLe bytes) / 256 = ofLe bytes := by
      have hb := b.toNat_lt
      omega
    have hlow : UInt8.ofNat (b.toNat + 256 * ofLe bytes) = b := by
      refine UInt8.toNat_inj.1 ?_
      rw [UInt8.toNat_ofNat', Nat.add_mul_mod_self_left, Nat.mod_eq_of_lt b.toNat_lt]
    rw [List.length_cons, ofLe, le, hdiv, ih, hlow]

theorem ofLe_lt (bytes : List UInt8) : ofLe bytes < 256 ^ bytes.length := by
  induction bytes with
  | nil => exact Nat.one_pos
  | cons b bytes ih =>
    have hb := b.toNat_lt
    rw [ofLe, List.length_cons, Nat.pow_succ]
    omega

theorem ofBe_be {k n : Nat} (h : n < 256 ^ k) : ofBe (be k n) = n := by
  rw [ofBe, be, List.reverse_reverse, ofLe_le h]

theorem le_short {k n : Nat} (j : Nat) (h : n < 256 ^ k) :
    le (k + j) n = le k n ++ List.replicate j 0 := by
  induction k generalizing n with
  | zero =>
    obtain rfl : n = 0 := Nat.lt_one_iff.1 h
    rw [Nat.zero_add]
    induction j with
    | zero => rfl
    | succ j ih => exact congrArg (0 :: ·) ih
  | succ k ih =>
    rw [Nat.succ_add, le, le, ih (by rw [Nat.pow_succ] at h; omega)]
    rfl

/-- A number that fits fewer bytes. -/
theorem be_short {k n : Nat} (j : Nat) (h : n < 256 ^ k) :
    be (k + j) n = List.replicate j 0 ++ be k n := by
  rw [be, le_short j h, List.reverse_append, List.reverse_replicate, be]

theorem be_inj {k m n : Nat} (hm : m < 256 ^ k) (hn : n < 256 ^ k) (h : be k m = be k n) :
    m = n := by
  rw [← ofLe_le hm, ← ofLe_le hn, List.reverse_injective h]

/-! ## 2. Exact reads -/

/-- `read_exact`: the first `n` bytes and the rest. -/
def readExact (n : Nat) (input : List UInt8) : Option (List UInt8 × List UInt8) :=
  if n ≤ input.length then some (input.take n, input.drop n) else none

theorem readExact_append {a : List UInt8} {n : Nat} (h : a.length = n) (rest : List UInt8) :
    readExact n (a ++ rest) = some (a, rest) := by
  unfold readExact
  rw [if_pos (by rw [List.length_append]; omega), ← h, List.take_left, List.drop_left]

theorem of_readExact {n : Nat} {input a rest : List UInt8}
    (h : readExact n input = some (a, rest)) : input = a ++ rest ∧ a.length = n := by
  unfold readExact at h
  split at h
  · next hle =>
    cases h
    exact ⟨(List.take_append_drop n input).symm, List.length_take_of_le hle⟩
  · cases h

end ByteStream
