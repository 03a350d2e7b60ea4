import KeyOS.Lib.BlockModes

/-!
# Hash functions on blocks

A compression function is folded over the blocks of a text. The text is first padded to whole
blocks: a bit, zeros, and the number of its bits. The words of a chaining state go into bytes and
come back.
-/

namespace BlockHash

open BlockModes

variable {S : Type} {compress : S → Bytes → S} {n field : Nat} {s : S} {xs ys : Bytes}

/-! ## 1. Blocks -/

/-- The state after the blocks of a text. -/
def absorb (compress : S → Bytes → S) (n : Nat) (s : S) (text : Bytes) : S :=
  (blocks n text).foldl compress s

@[simp] theorem absorb_nil : absorb compress n s [] = s := by
  simp [absorb]

/-- A text in two pieces, the first of whole blocks. -/
theorem absorb_append (hn : 0 < n) (h : n ∣ xs.length) :
    absorb compress n s (xs ++ ys) = absorb compress n (absorb compress n s xs) ys := by
  rw [absorb, blocks_append hn h, List.foldl_append, absorb, absorb]

/-! ## 2. Padding -/

/-- The zeros that fill up the last block of `len` bytes, with the first byte of the padding and the
field of the length. -/
def zeros (n field len : Nat) : Nat := (n - (len + 1 + field) % n) % n

/-- What is put behind a text of `len` bytes. -/
def padding (n field len : Nat) : Bytes :=
  0x80 :: List.replicate (zeros n field len) 0 ++ ByteStream.be field (8 * len)

@[simp] theorem length_padding (n field len : Nat) :
    (padding n field len).length = 1 + zeros n field len + field := by
  simp [padding]
  omega

/-- A padded text is whole blocks. -/
theorem dvd_padded (hn : 0 < n) (len : Nat) : n ∣ len + (padding n field len).length := by
  have hmod : (len + 1 + field) % n < n := Nat.mod_lt _ hn
  have hsplit := Nat.div_add_mod (len + 1 + field) n
  have hlength : len + (padding n field len).length = len + 1 + field + zeros n field len := by
    rw [length_padding]
    omega
  rw [hlength, zeros]
  rcases Nat.eq_zero_or_pos ((len + 1 + field) % n) with hzero | hpos
  · rw [hzero, Nat.sub_zero, Nat.mod_self, Nat.add_zero]
    exact Nat.dvd_of_mod_eq_zero hzero
  · rw [Nat.mod_eq_of_lt (by omega : n - (len + 1 + field) % n < n)]
    refine ⟨(len + 1 + field) / n + 1, ?_⟩
    rw [Nat.mul_succ]
    omega

/-- The zeros depend on the bytes in the last block alone. -/
theorem zeros_add {k len : Nat} (h : n ∣ k) : zeros n field (k + len) = zeros n field len := by
  obtain ⟨j, rfl⟩ := h
  rw [zeros, zeros, Nat.add_assoc, Nat.add_assoc, Nat.mul_add_mod, Nat.add_assoc]

/-! ## 3. Digests -/

/-- The state after a padded text. -/
def finish (compress : S → Bytes → S) (n field : Nat) (s : S) (text : Bytes) : S :=
  absorb compress n s (text ++ padding n field text.length)

/-! ## 4. Words -/

section Words

variable {k : Nat} {rest : Bytes}

/-- A piece of `k` bytes, by its number. -/
def wordAt (k : Nat) (bytes : Bytes) (i : Nat) : Nat := ByteStream.ofBe ((bytes.drop (k * i)).take k)

theorem wordAt_zero {x : Nat} (h : x < 256 ^ k) : wordAt k (ByteStream.be k x ++ rest) 0 = x := by
  rw [wordAt, Nat.mul_zero, List.drop_zero, List.take_left' (ByteStream.length_be k x),
    ByteStream.ofBe_be h]

theorem wordAt_succ {x i : Nat} :
    wordAt k (ByteStream.be k x ++ rest) (i + 1) = wordAt k rest i := by
  rw [wordAt, wordAt, Nat.mul_succ, Nat.add_comm, ← List.drop_drop,
    List.drop_left' (ByteStream.length_be k x)]

end Words

end BlockHash
