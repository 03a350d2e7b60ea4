import Mathlib

/-!
# Decimal numerals

A numeral filled up with zeros, the leading digits of a numeral, and digits in groups of three.
-/

namespace Decimal

variable {sep : Char} {ds : List Char} {width n k : Nat}

/-! ## 1. Values -/

def Digits (ds : List Char) : Prop := ∀ c ∈ ds, c.isDigit = true

def value (ds : List Char) : Nat := Nat.ofDigitChars 10 ds 0

/-- The numeral of a number with zeros before it, at least `width` digits in all -/
def padded (width n : Nat) : List Char :=
  List.replicate (width - (Nat.toDigits 10 n).length) '0' ++ Nat.toDigits 10 n

theorem digits_toDigits (n : Nat) : Digits (Nat.toDigits 10 n) := fun _ hc =>
  Nat.isDigit_of_mem_toDigits (by decide) (by decide) hc

theorem Digits.append {es : List Char} (hd : Digits ds) (he : Digits es) : Digits (ds ++ es) := by
  intro c hc
  exact (List.mem_append.1 hc).elim (hd c) (he c)

theorem Digits.take (h : Digits ds) (k : Nat) : Digits (ds.take k) := fun c hc =>
  h c (List.mem_of_mem_take hc)

theorem Digits.not_mem {c : Char} (h : Digits ds) (hc : c.isDigit = false) : c ∉ ds := by
  intro hmem
  simp [h c hmem] at hc

theorem digits_padded (width n : Nat) : Digits (padded width n) := by
  refine Digits.append ?_ (digits_toDigits n)
  intro c hc
  rw [List.eq_of_mem_replicate hc]
  rfl

theorem length_padded (hwidth : 0 < width) (h : n < 10 ^ width) :
    (padded width n).length = width := by
  have hle : (Nat.toDigits 10 n).length ≤ width := (Nat.length_toDigits_le_iff (by decide) hwidth).2 h
  simp [padded, hle]

@[simp] theorem value_toDigits (n : Nat) : value (Nat.toDigits 10 n) = n := by
  simp [value]

@[simp] theorem value_padded (width n : Nat) : value (padded width n) = n := by
  simp [value, padded, Nat.ofDigitChars_append]

theorem value_append (ds es : List Char) : value (ds ++ es) = 10 ^ es.length * value ds + value es := by
  rw [value, Nat.ofDigitChars_append, Nat.ofDigitChars_eq_ofDigitChars_zero, value, value]

theorem toNat_of_isDigit {c : Char} (h : c.isDigit = true) : c.toNat - '0'.toNat < 10 := by
  rw [Char.isDigit, Bool.and_eq_true, decide_eq_true_iff, decide_eq_true_iff] at h
  have hle : c.toNat ≤ 57 := h.2
  show c.toNat - 48 < 10
  omega

theorem value_lt (h : Digits ds) : value ds < 10 ^ ds.length := by
  induction ds with
  | nil => simp [value]
  | cons c cs ih =>
    have hc : value [c] < 10 := by
      simpa [value, Nat.ofDigitChars_cons] using toNat_of_isDigit (h c (by simp))
    have hcs := ih fun d hd => h d (by simp [hd])
    rw [← List.singleton_append, value_append, List.length_append, List.length_singleton,
      Nat.add_comm 1, Nat.pow_succ]
    have hmul : 10 ^ cs.length * (value [c] + 1) ≤ 10 ^ cs.length * 10 := Nat.mul_le_mul_left _ hc
    rw [Nat.mul_add, Nat.mul_one] at hmul
    exact Nat.lt_of_lt_of_le (Nat.add_lt_add_left hcs _) hmul

/-- The first digits of a numeral are its value with the other places cut off. -/
theorem value_take (h : Digits ds) (k : Nat) :
    value (ds.take k) = value ds / 10 ^ (ds.length - k) := by
  have hsplit : value ds = 10 ^ (ds.length - k) * value (ds.take k) + value (ds.drop k) := by
    rw [← List.length_drop, ← value_append, List.take_append_drop]
  have hlt : value (ds.drop k) < 10 ^ (ds.length - k) := by
    rw [← List.length_drop]
    exact value_lt fun c hc => h c (List.mem_of_mem_drop hc)
  rw [hsplit, Nat.mul_add_div (Nat.pow_pos (by decide)), Nat.div_eq_of_lt hlt, Nat.add_zero]

/-- A numeral starts with a digit that is not zero. -/
theorem value_take_toDigits_pos (hn : 0 < n) (hk : 0 < k) :
    0 < value ((Nat.toDigits 10 n).take k) := by
  rw [value_take (digits_toDigits n), value_toDigits]
  refine Nat.div_pos ?_ (Nat.pow_pos (by decide))
  by_cases hlen : (Nat.toDigits 10 n).length ≤ 1
  · simpa [Nat.sub_eq_zero_of_le (Nat.le_trans hlen hk)] using Nat.succ_le_of_lt hn
  · have hlarge : 10 ^ ((Nat.toDigits 10 n).length - 1) ≤ n := by
      refine Nat.not_lt.1 fun hlt => ?_
      have hle := (Nat.length_toDigits_le_iff (by decide) (by omega)).2 hlt
      omega
    exact Nat.le_trans (Nat.pow_le_pow_right (by decide) (by omega)) hlarge

theorem exists_of_value_pos (h : 0 < value ds) : ∃ c ∈ ds, c ≠ '0' := by
  by_contra hall
  have hzero : ds = List.replicate ds.length '0' :=
    List.eq_replicate_of_mem fun c hc => by_contra fun hne => hall ⟨c, hc, hne⟩
  rw [hzero] at h
  simp [value] at h

/-! ## 2. Groups of three -/

/-- A separator after every digit with a multiple of three digits behind it -/
def grouped (sep : Char) : List Char → List Char
  | [] => []
  | c :: rest =>
    if 0 < rest.length ∧ rest.length % 3 = 0 then c :: sep :: grouped sep rest
    else c :: grouped sep rest

/-- Separators split the text from the right into threes, the first group taking what is left. -/
def InThrees (sep : Char) (s : List Char) : Prop :=
  ∃ (first : List Char) (rest : List (List Char)), s = first ++ rest.flatMap (sep :: ·) ∧
    (0 < first.length ∧ first.length ≤ 3 ∧ sep ∉ first) ∧ ∀ g ∈ rest, g.length = 3 ∧ sep ∉ g

theorem filter_grouped (h : sep ∉ ds) : (grouped sep ds).filter (· ≠ sep) = ds := by
  induction ds with
  | nil => rfl
  | cons c rest ih =>
    rw [List.mem_cons, not_or] at h
    have hc : c ≠ sep := fun heq => h.1 heq.symm
    unfold grouped
    split
    · simpa [hc] using ih h.2
    · simpa [hc] using ih h.2

/-- The first group holds as many digits as are left over by the threes. -/
theorem grouped_groups (h : sep ∉ ds) (hne : ds ≠ []) :
    ∃ (first : List Char) (rest : List (List Char)), grouped sep ds = first ++ rest.flatMap (sep :: ·) ∧
      (0 < first.length ∧ first.length ≤ 3 ∧ sep ∉ first) ∧
      (∀ g ∈ rest, g.length = 3 ∧ sep ∉ g) ∧ first.length % 3 = ds.length % 3 := by
  induction ds with
  | nil => exact absurd rfl hne
  | cons c tail ih =>
    rw [List.mem_cons, not_or] at h
    cases tail with
    | nil => exact ⟨[c], [], rfl, ⟨by simp, by simp, by simpa using h.1⟩, by simp, rfl⟩
    | cons d tail =>
      obtain ⟨first, rest, heq, ⟨hpos, hle, hnot⟩, hrest, hmod⟩ := ih h.2 (by simp)
      rw [grouped, heq]
      split
      next hfull =>
        have hthree : first.length = 3 := by omega
        refine ⟨[c], first :: rest, by simp, ⟨by simp, by simp, by simpa using h.1⟩, ?_, ?_⟩
        · intro g hg
          rcases List.mem_cons.1 hg with rfl | hg
          · exact ⟨hthree, hnot⟩
          · exact hrest g hg
        · have hlen : (c :: d :: tail).length = (d :: tail).length + 1 := rfl
          rw [hlen, Nat.add_mod, hfull.2]
          rfl
      next hfull =>
        have hshort : first.length < 3 := by
          have hmore : (d :: tail).length % 3 ≠ 0 := fun hmul => hfull ⟨by simp, hmul⟩
          omega
        refine ⟨c :: first, rest, by simp, ⟨by simp, hshort, ?_⟩, hrest, ?_⟩
        · simpa using ⟨h.1, hnot⟩
        · have hlen : (c :: d :: tail).length = (d :: tail).length + 1 := rfl
          rw [List.length_cons, hlen, Nat.add_mod, hmod, ← Nat.add_mod]

theorem inThrees_grouped (h : sep ∉ ds) (hne : ds ≠ []) : InThrees sep (grouped sep ds) := by
  obtain ⟨first, rest, heq, hfirst, hrest, -⟩ := grouped_groups h hne
  exact ⟨first, rest, heq, hfirst, hrest⟩

end Decimal
