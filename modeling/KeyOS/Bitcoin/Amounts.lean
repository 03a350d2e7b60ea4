import KeyOS.Lib.Decimal

/-!
# Amounts on the screen

How the signing screen writes a number of satoshis, with separators of the locale, as satoshis or
as bitcoin. An amount in bitcoin has nine digits at most, which its integer part and its fraction
share: the fraction is what is left out first, and from a billion bitcoin on the integer part too.
-/

namespace Bitcoin

open Decimal

/-! ## 1. The formatting functions -/

def MAX_DISPLAY_DIGITS : Nat := 9

/-- `Amount::ONE_BTC`, in satoshis -/
def ONE_BTC : Nat := 100000000

inductive DisplayAmount where
  | auto
  | btc
  | sats
  deriving DecidableEq, Repr

/-- The separator of the thousands and the one of the fraction -/
def getLocaleSeparators (locale : List Char) : Char × Char :=
  if ['e', 'n'].isPrefixOf locale then (',', '.') else ('.', ',')

/-- The loop over the digits with their positions -/
def pushSeparated (sep : Char) (len : Nat) : List (Char × Nat) → List Char → List Char
  | [], result => result
  | (ch, i) :: rest, result =>
    let result := result ++ [ch]
    let remaining := len - i - 1
    pushSeparated sep len rest
      (if 0 < remaining ∧ remaining % 3 = 0 then result ++ [sep] else result)

def formatSatsWithSeparators (sats : Nat) (locale : List Char) : List Char :=
  let (thousandsSep, _) := getLocaleSeparators locale
  let satsStr := Nat.toDigits 10 sats
  pushSeparated thousandsSep satsStr.length satsStr.zipIdx []

/-- The loop over the digits of the integer part. It stops when the screen is full. -/
def pushInteger (sep : Char) (btcLen : Nat) :
    List (Char × Nat) → List Char × Nat → List Char × Nat
  | [], (result, digitCount) => (result, digitCount)
  | (ch, i) :: rest, (result, digitCount) =>
    if MAX_DISPLAY_DIGITS ≤ digitCount then (result, digitCount)
    else
      let result := result ++ [ch]
      let digitCount := digitCount + 1
      let remainingDigits := btcLen - i - 1
      pushInteger sep btcLen rest
        (if 0 < remainingDigits ∧ remainingDigits % 3 = 0 ∧ digitCount < MAX_DISPLAY_DIGITS then
          result ++ [sep]
        else result, digitCount)

/-- The loop over the digits of the fraction -/
def pushFraction : List Char → List Char × Nat → List Char × Nat
  | [], (result, digitCount) => (result, digitCount)
  | ch :: rest, (result, digitCount) =>
    if MAX_DISPLAY_DIGITS ≤ digitCount then (result, digitCount)
    else pushFraction rest (result ++ [ch], digitCount + 1)

def formatBtcAmount (sats : Nat) (locale : List Char) : List Char :=
  let (thousandsSep, decimalSep) := getLocaleSeparators locale
  let btcPart := sats / ONE_BTC
  let satPart := sats % ONE_BTC
  let (result, digitCount) :=
    if 0 < btcPart then
      let btcStr := Nat.toDigits 10 btcPart
      pushInteger thousandsSep btcStr.length btcStr.zipIdx ([], 0)
    else (['0'], 1)
  if digitCount < MAX_DISPLAY_DIGITS ∧ 0 < satPart then
    (pushFraction (padded 8 satPart) (result ++ [decimalSep], digitCount)).1
  else result

def formatBtc (sats : Nat) (displayAmount : DisplayAmount) (locale : List Char) : List Char :=
  match displayAmount with
  | .auto => if ONE_BTC < sats then formatBtcAmount sats locale else formatSatsWithSeparators sats locale
  | .btc => formatBtcAmount sats locale
  | .sats => formatSatsWithSeparators sats locale

/-! ## 2. What a reader makes of an amount -/

/-- The text without the separators of the thousands -/
def unseparated (locale s : List Char) : List Char := s.filter (· ≠ (getLocaleSeparators locale).1)

/-- The text before the separator of the fraction -/
def integerPart (locale s : List Char) : List Char :=
  s.takeWhile (· ≠ (getLocaleSeparators locale).2)

/-- A decimal, as the number its digits make up and how many of them stand after the separator -/
def readDecimal (locale s : List Char) : Option (Nat × Nat) :=
  let whole := integerPart locale s
  let fraction := (s.drop whole.length).drop 1
  if whole ≠ [] ∧ (whole ++ fraction).all Char.isDigit = true then
    some (value (whole ++ fraction), fraction.length)
  else none

/-- `shown` units of the last digit are the amount, rounded toward zero. -/
def RoundedDown (sats shown places : Nat) : Prop :=
  shown * ONE_BTC ≤ sats * 10 ^ places ∧ sats * 10 ^ places < (shown + 1) * ONE_BTC

/-- What the screen shows of an amount says what the amount is. -/
structure AmountShown (sats : Nat) (locale : List Char) : Prop where
  /-- Without the separators it is the numeral of the amount. -/
  sats_numeral : unseparated locale (formatSatsWithSeparators sats locale) = Nat.toDigits 10 sats
  /-- In bitcoin it is the amount, less what would be smaller than the last digit. -/
  btc_rounded : ∃ shown places,
    readDecimal locale (unseparated locale (formatBtcAmount sats locale)) = some (shown, places) ∧
      RoundedDown sats shown places
  /-- The integer part is there with all its digits. -/
  btc_whole : unseparated locale (integerPart locale (formatBtcAmount sats locale)) =
    Nat.toDigits 10 (sats / ONE_BTC)
  sats_grouped : InThrees (getLocaleSeparators locale).1 (formatSatsWithSeparators sats locale)
  btc_grouped :
    InThrees (getLocaleSeparators locale).1 (integerPart locale (formatBtcAmount sats locale))
  /-- No amount looks like nothing. -/
  not_zero : 0 < sats → ∀ displayAmount,
    ∃ c ∈ formatBtc sats displayAmount locale, c.isDigit = true ∧ c ≠ '0'

/-! ## 3. The loops -/

variable {sats : Nat} {locale : List Char}

theorem getLocaleSeparators_spec (locale : List Char) :
    (getLocaleSeparators locale).1.isDigit = false ∧ (getLocaleSeparators locale).2.isDigit = false ∧
      (getLocaleSeparators locale).1 ≠ (getLocaleSeparators locale).2 := by
  unfold getLocaleSeparators
  split
  · decide
  · decide

theorem pushSeparated_eq (sep : Char) (ds result : List Char) (i : Nat) :
    pushSeparated sep (i + ds.length) (ds.zipIdx i) result = result ++ grouped sep ds := by
  induction ds generalizing i result with
  | nil => simp [pushSeparated, grouped]
  | cons c rest ih =>
    have hlen : i + (c :: rest).length = i + 1 + rest.length := by
      rw [List.length_cons, Nat.add_assoc, Nat.add_comm 1]
    have hremaining : i + 1 + rest.length - i - 1 = rest.length := by omega
    rw [List.zipIdx_cons, hlen, pushSeparated, hremaining, ih, grouped]
    split
    · simp
    · simp

/-- An integer part that fits on the screen is grouped as any other. -/
theorem pushInteger_fits (sep : Char) (ds result : List Char) (i digitCount : Nat)
    (h : digitCount + ds.length ≤ MAX_DISPLAY_DIGITS) :
    pushInteger sep (i + ds.length) (ds.zipIdx i) (result, digitCount) =
      (result ++ grouped sep ds, digitCount + ds.length) := by
  induction ds generalizing i result digitCount with
  | nil => simp [pushInteger, grouped]
  | cons c rest ih =>
    have hlen : i + (c :: rest).length = i + 1 + rest.length := by
      rw [List.length_cons, Nat.add_assoc, Nat.add_comm 1]
    have hremaining : i + 1 + rest.length - i - 1 = rest.length := by omega
    rw [List.length_cons] at h
    have hroom : ¬ MAX_DISPLAY_DIGITS ≤ digitCount := by omega
    rw [List.zipIdx_cons, hlen, pushInteger, if_neg hroom]
    dsimp only
    rw [hremaining, ih _ _ _ (by omega), grouped]
    have hmore : 0 < rest.length → digitCount + 1 < MAX_DISPLAY_DIGITS := by omega
    split
    next hsep =>
      rw [if_pos ⟨hsep.1, hsep.2.1⟩]
      simp [Nat.add_assoc, Nat.add_comm 1]
    next hsep =>
      rw [if_neg fun hfull => hsep ⟨hfull.1, hfull.2, hmore hfull.1⟩]
      simp [Nat.add_assoc, Nat.add_comm 1]

/-- As many digits are pushed as there is room for. -/
theorem pushInteger_spec (sep : Char) (len : Nat) (ds : List Char) (hsep : sep ∉ ds)
    (result : List Char) (i digitCount : Nat) (h : digitCount ≤ MAX_DISPLAY_DIGITS) :
    ∃ pushed, (pushInteger sep len (ds.zipIdx i) (result, digitCount)).1 = result ++ pushed ∧
      pushed.filter (· ≠ sep) = ds.take (MAX_DISPLAY_DIGITS - digitCount) ∧
      (pushInteger sep len (ds.zipIdx i) (result, digitCount)).2 =
        digitCount + min ds.length (MAX_DISPLAY_DIGITS - digitCount) := by
  induction ds generalizing i result digitCount with
  | nil => exact ⟨[], by simp [pushInteger], by simp, by simp [pushInteger]⟩
  | cons c rest ih =>
    rw [List.mem_cons, not_or] at hsep
    have hc : c ≠ sep := fun heq => hsep.1 heq.symm
    rw [List.zipIdx_cons, pushInteger]
    split
    next hfull =>
      have heq : MAX_DISPLAY_DIGITS - digitCount = 0 := Nat.sub_eq_zero_of_le hfull
      exact ⟨[], by simp, by simp [heq], by simp [heq]⟩
    next hroom =>
      dsimp only
      have hle : digitCount + 1 ≤ MAX_DISPLAY_DIGITS := Nat.lt_of_not_le hroom
      have hleft : MAX_DISPLAY_DIGITS - digitCount = MAX_DISPLAY_DIGITS - (digitCount + 1) + 1 := by
        omega
      split
      next =>
        obtain ⟨pushed, hres, hfilter, hcount⟩ := ih hsep.2 (result ++ [c] ++ [sep]) (i + 1) _ hle
        refine ⟨c :: sep :: pushed, ?_, ?_, ?_⟩
        · rw [hres]
          simp
        · simpa [hc, hleft] using hfilter
        · rw [hcount, hleft, List.length_cons, Nat.add_min_add_right, Nat.add_assoc, Nat.add_comm 1]
      next =>
        obtain ⟨pushed, hres, hfilter, hcount⟩ := ih hsep.2 (result ++ [c]) (i + 1) _ hle
        refine ⟨c :: pushed, ?_, ?_, ?_⟩
        · rw [hres]
          simp
        · simpa [hc, hleft] using hfilter
        · rw [hcount, hleft, List.length_cons, Nat.add_min_add_right, Nat.add_assoc, Nat.add_comm 1]

theorem pushFraction_eq (ds result : List Char) (digitCount : Nat) :
    (pushFraction ds (result, digitCount)).1 =
      result ++ ds.take (MAX_DISPLAY_DIGITS - digitCount) := by
  induction ds generalizing result digitCount with
  | nil => simp [pushFraction]
  | cons c rest ih =>
    rw [pushFraction]
    split
    next hfull => simp [Nat.sub_eq_zero_of_le hfull]
    next hroom =>
      have hleft : MAX_DISPLAY_DIGITS - digitCount = MAX_DISPLAY_DIGITS - (digitCount + 1) + 1 := by
        omega
      rw [ih, hleft]
      simp

/-! ## 4. The amount in satoshis -/

theorem formatSatsWithSeparators_eq (sats : Nat) (locale : List Char) :
    formatSatsWithSeparators sats locale =
      grouped (getLocaleSeparators locale).1 (Nat.toDigits 10 sats) := by
  have h := pushSeparated_eq (getLocaleSeparators locale).1 (Nat.toDigits 10 sats) [] 0
  rw [Nat.zero_add, List.nil_append] at h
  exact h

/-! ## 5. The amount in bitcoin -/

theorem not_mem_toDigits (locale : List Char) (n : Nat) :
    (getLocaleSeparators locale).1 ∉ Nat.toDigits 10 n ∧
      (getLocaleSeparators locale).2 ∉ Nat.toDigits 10 n :=
  ⟨(digits_toDigits n).not_mem (getLocaleSeparators_spec locale).1,
    (digits_toDigits n).not_mem (getLocaleSeparators_spec locale).2.1⟩

/-- The fraction, with its separator -/
def fractionShown (sats : Nat) (locale : List Char) : List Char :=
  let digitCount := (Nat.toDigits 10 (sats / ONE_BTC)).length
  if digitCount < MAX_DISPLAY_DIGITS ∧ 0 < sats % ONE_BTC then
    (getLocaleSeparators locale).2 ::
      (padded 8 (sats % ONE_BTC)).take (MAX_DISPLAY_DIGITS - digitCount)
  else []

theorem length_toDigits_le_iff :
    (Nat.toDigits 10 (sats / ONE_BTC)).length ≤ MAX_DISPLAY_DIGITS ↔ sats < 10 ^ 17 := by
  rw [MAX_DISPLAY_DIGITS, Nat.length_toDigits_le_iff (by decide) (by decide),
    Nat.div_lt_iff_lt_mul (by decide)]
  rfl

theorem formatBtcAmount_fits (h : sats < 10 ^ 17) (locale : List Char) :
    formatBtcAmount sats locale =
      grouped (getLocaleSeparators locale).1 (Nat.toDigits 10 (sats / ONE_BTC)) ++
        fractionShown sats locale := by
  have hlen := length_toDigits_le_iff.2 h
  have hinteger : (if 0 < sats / ONE_BTC then
      pushInteger (getLocaleSeparators locale).1 (Nat.toDigits 10 (sats / ONE_BTC)).length
        (Nat.toDigits 10 (sats / ONE_BTC)).zipIdx ([], 0)
      else (['0'], 1)) =
      (grouped (getLocaleSeparators locale).1 (Nat.toDigits 10 (sats / ONE_BTC)),
        (Nat.toDigits 10 (sats / ONE_BTC)).length) := by
    split
    next =>
      have hpush := pushInteger_fits (getLocaleSeparators locale).1
        (Nat.toDigits 10 (sats / ONE_BTC)) [] 0 0 (by simpa using hlen)
      rw [Nat.zero_add, List.nil_append] at hpush
      exact hpush
    next hzero =>
      rw [Nat.eq_zero_of_not_pos hzero]
      rfl
  unfold formatBtcAmount
  dsimp only
  rw [hinteger, fractionShown]
  dsimp only
  split
  · rw [pushFraction_eq, List.append_assoc, List.singleton_append]
  · rw [List.append_nil]

/-- An amount too large for the screen has no fraction, and nine digits of the integer part. -/
theorem formatBtcAmount_full (h : 10 ^ 17 ≤ sats) (locale : List Char) :
    unseparated locale (formatBtcAmount sats locale) =
      (Nat.toDigits 10 (sats / ONE_BTC)).take MAX_DISPLAY_DIGITS := by
  have hlen : ¬ (Nat.toDigits 10 (sats / ONE_BTC)).length ≤ MAX_DISPLAY_DIGITS := by
    rw [length_toDigits_le_iff]
    exact Nat.not_lt.2 h
  have hpos : 0 < sats / ONE_BTC := Nat.div_pos (Nat.le_trans (by decide) h) (by decide)
  obtain ⟨pushed, hres, hfilter, hcount⟩ := pushInteger_spec (getLocaleSeparators locale).1
    (Nat.toDigits 10 (sats / ONE_BTC)).length _ (not_mem_toDigits locale (sats / ONE_BTC)).1 [] 0 0
    (Nat.zero_le _)
  rw [List.nil_append] at hres
  rw [Nat.zero_add, Nat.sub_zero, Nat.min_eq_right (Nat.le_of_not_le hlen)] at hcount
  have hamount : formatBtcAmount sats locale = pushed := by
    unfold formatBtcAmount
    dsimp only
    rw [if_pos hpos, hcount, if_neg (by simp), hres]
  rw [hamount]
  exact hfilter

/-! ## 6. Reading it back -/

theorem integerPart_append {whole rest : List Char} (h : (getLocaleSeparators locale).2 ∉ whole) :
    integerPart locale (whole ++ (getLocaleSeparators locale).2 :: rest) = whole := by
  have hwhole : ∀ c ∈ whole, decide (c ≠ (getLocaleSeparators locale).2) = true := by
    intro c hc
    exact decide_eq_true fun heq => h (heq ▸ hc)
  rw [integerPart, List.takeWhile_append_of_pos hwhole, List.takeWhile_cons, if_neg (by simp),
    List.append_nil]

theorem integerPart_self {whole : List Char} (h : (getLocaleSeparators locale).2 ∉ whole) :
    integerPart locale whole = whole := by
  have hwhole : ∀ c ∈ whole, decide (c ≠ (getLocaleSeparators locale).2) = true := by
    intro c hc
    exact decide_eq_true fun heq => h (heq ▸ hc)
  have happend : (whole ++ []).takeWhile (· ≠ (getLocaleSeparators locale).2) = whole ++ [] :=
    List.takeWhile_append_of_pos hwhole
  rwa [List.append_nil] at happend

theorem mem_grouped {sep c : Char} {ds : List Char} (h : c ∈ grouped sep ds) : c = sep ∨ c ∈ ds := by
  induction ds with
  | nil => simp [grouped] at h
  | cons d rest ih =>
    unfold grouped at h
    split at h
    · rcases List.mem_cons.1 h with rfl | h
      · simp
      · rcases List.mem_cons.1 h with rfl | h
        · simp
        · exact (ih h).imp id (List.mem_cons_of_mem _)
    · rcases List.mem_cons.1 h with rfl | h
      · simp
      · exact (ih h).imp id (List.mem_cons_of_mem _)

theorem integerPart_formatBtcAmount (h : sats < 10 ^ 17) (locale : List Char) :
    integerPart locale (formatBtcAmount sats locale) =
      grouped (getLocaleSeparators locale).1 (Nat.toDigits 10 (sats / ONE_BTC)) := by
  have hnot : (getLocaleSeparators locale).2 ∉
      grouped (getLocaleSeparators locale).1 (Nat.toDigits 10 (sats / ONE_BTC)) := by
    intro hmem
    rcases mem_grouped hmem with heq | hmem
    · exact (getLocaleSeparators_spec locale).2.2 heq.symm
    · exact (not_mem_toDigits locale _).2 hmem
  rw [formatBtcAmount_fits h, fractionShown]
  split
  · exact integerPart_append hnot
  · rw [List.append_nil, integerPart_self hnot]

theorem unseparated_digits {ds : List Char} (h : Digits ds) (locale : List Char) :
    unseparated locale ds = ds := by
  refine List.filter_eq_self.2 ?_
  intro c hc
  exact decide_eq_true fun heq => h.not_mem (getLocaleSeparators_spec locale).1 (heq ▸ hc)

theorem unseparated_grouped {ds : List Char} (h : Digits ds) (locale : List Char) :
    unseparated locale (grouped (getLocaleSeparators locale).1 ds) = ds :=
  filter_grouped (h.not_mem (getLocaleSeparators_spec locale).1)

theorem readDecimal_whole {whole : List Char} (h : Digits whole) (hne : whole ≠ []) :
    readDecimal locale whole = some (value whole, 0) := by
  have hall : whole.all Char.isDigit = true := List.all_eq_true.2 h
  unfold readDecimal
  rw [integerPart_self (h.not_mem (getLocaleSeparators_spec locale).2.1)]
  simp [hne, hall]

theorem readDecimal_fraction {whole fraction : List Char} (hw : Digits whole) (hf : Digits fraction)
    (hne : whole ≠ []) :
    readDecimal locale (whole ++ (getLocaleSeparators locale).2 :: fraction) =
      some (value (whole ++ fraction), fraction.length) := by
  have hall : (whole ++ fraction).all Char.isDigit = true := List.all_eq_true.2 (hw.append hf)
  unfold readDecimal
  rw [integerPart_append (hw.not_mem (getLocaleSeparators_spec locale).2.1)]
  dsimp only
  rw [List.drop_left, List.drop_succ_cons, List.drop_zero, if_pos ⟨hne, hall⟩]

theorem roundedDown_whole (hfraction : sats % ONE_BTC < ONE_BTC) :
    RoundedDown sats (sats / ONE_BTC) 0 := by
  have hsplit := Nat.div_add_mod sats ONE_BTC
  constructor
  · rw [Nat.pow_zero, Nat.mul_one]
    exact Nat.div_mul_le_self _ _
  · rw [Nat.pow_zero, Nat.mul_one, Nat.add_mul, Nat.one_mul, Nat.mul_comm]
    omega

/-- Cutting places off the fraction rounds the amount down. -/
theorem roundedDown_fraction {places : Nat} (hplaces : places ≤ 8) :
    RoundedDown sats
      (10 ^ places * (sats / ONE_BTC) + sats % ONE_BTC / 10 ^ (8 - places)) places := by
  have hone : ONE_BTC = 10 ^ places * 10 ^ (8 - places) := by
    rw [← Nat.pow_add, Nat.add_sub_cancel' hplaces]
    rfl
  have hpos : 0 < 10 ^ (8 - places) := Nat.pow_pos (by decide)
  have hsplit : sats * 10 ^ places =
      10 ^ places * (sats / ONE_BTC) * ONE_BTC + sats % ONE_BTC * 10 ^ places := by
    conv => lhs; rw [← Nat.div_add_mod sats ONE_BTC]
    rw [Nat.add_mul, Nat.mul_comm ONE_BTC, Nat.mul_right_comm, Nat.mul_comm (sats / ONE_BTC)]
  have hcut : ∀ k, k * ONE_BTC = k * 10 ^ (8 - places) * 10 ^ places := by
    intro k
    rw [hone, Nat.mul_comm (10 ^ places), Nat.mul_assoc]
  constructor
  · rw [hsplit, Nat.add_mul, hcut (_ / _)]
    exact Nat.add_le_add_left (Nat.mul_le_mul_right _ (Nat.div_mul_le_self _ _)) _
  · rw [hsplit, Nat.add_assoc, Nat.add_mul, hcut (_ / _ + 1)]
    refine Nat.add_lt_add_left (Nat.mul_lt_mul_of_pos_right ?_ (Nat.pow_pos (by decide))) _
    rw [Nat.mul_comm]
    exact Nat.lt_mul_div_succ _ hpos

theorem read_formatBtcAmount (h : sats < 10 ^ 17) (locale : List Char) :
    ∃ shown places,
      readDecimal locale (unseparated locale (formatBtcAmount sats locale)) = some (shown, places) ∧
        RoundedDown sats shown places := by
  have hdigits := digits_toDigits (sats / ONE_BTC)
  have hne : Nat.toDigits 10 (sats / ONE_BTC) ≠ [] := Nat.toDigits_ne_nil
  have hdiff := (getLocaleSeparators_spec locale).2.2
  have hsplit : unseparated locale (formatBtcAmount sats locale) =
      Nat.toDigits 10 (sats / ONE_BTC) ++ unseparated locale (fractionShown sats locale) := by
    rw [formatBtcAmount_fits h, unseparated, List.filter_append]
    exact congrArg (· ++ _) (unseparated_grouped hdigits locale)
  rw [hsplit, fractionShown]
  split
  next hroom =>
    have hlt : sats % ONE_BTC < 10 ^ 8 := Nat.mod_lt _ (by decide)
    have hlen := length_padded (by decide) hlt
    obtain ⟨places, hplaces, htake⟩ : ∃ places ≤ 8,
        (padded 8 (sats % ONE_BTC)).take
          (MAX_DISPLAY_DIGITS - (Nat.toDigits 10 (sats / ONE_BTC)).length) =
        (padded 8 (sats % ONE_BTC)).take places :=
      ⟨min _ 8, Nat.min_le_right _ _, by conv => lhs; rw [List.take_eq_take_min, hlen]⟩
    have hcut : Digits ((padded 8 (sats % ONE_BTC)).take places) := (digits_padded _ _).take _
    rw [htake, unseparated, List.filter_cons_of_pos (by simpa using hdiff.symm),
      ← unseparated, unseparated_digits hcut, readDecimal_fraction hdigits hcut hne, value_append,
      value_take (digits_padded _ _), value_padded, value_toDigits, List.length_take, hlen,
      Nat.min_eq_left hplaces]
    exact ⟨_, _, rfl, roundedDown_fraction hplaces⟩
  next hroom =>
    rw [unseparated, List.filter_nil, List.append_nil, readDecimal_whole hdigits hne, value_toDigits]
    exact ⟨_, _, rfl, roundedDown_whole (Nat.mod_lt _ (by decide))⟩

/-! ## 7. No amount looks like nothing -/

theorem exists_nonzero {ds : List Char} (h : Digits ds) (hpos : 0 < value ds) :
    ∃ c ∈ ds, c.isDigit = true ∧ c ≠ '0' := by
  obtain ⟨c, hc, hne⟩ := exists_of_value_pos hpos
  exact ⟨c, hc, h c hc, hne⟩

theorem formatSatsWithSeparators_not_zero (hpos : 0 < sats) (locale : List Char) :
    ∃ c ∈ formatSatsWithSeparators sats locale, c.isDigit = true ∧ c ≠ '0' := by
  obtain ⟨c, hc, hdigit⟩ := exists_nonzero (digits_toDigits sats) (by simpa using hpos)
  rw [formatSatsWithSeparators_eq]
  have hmem : c ∈ unseparated locale (grouped (getLocaleSeparators locale).1 (Nat.toDigits 10 sats)) := by
    rwa [unseparated_grouped (digits_toDigits sats)]
  exact ⟨c, (List.mem_filter.1 hmem).1, hdigit⟩

/-- Less than one bitcoin has eight places, and those are all there. -/
theorem fractionShown_small (hpos : 0 < sats) (h : sats < ONE_BTC) (locale : List Char) :
    fractionShown sats locale = (getLocaleSeparators locale).2 :: padded 8 sats := by
  have hlen : (padded 8 sats).length = 8 := length_padded (by decide) h
  rw [fractionShown, Nat.div_eq_of_lt h, Nat.mod_eq_of_lt h]
  rw [if_pos ⟨by decide, hpos⟩, List.take_of_length_le (by rw [hlen]; decide)]

theorem formatBtcAmount_not_zero (hpos : 0 < sats) (locale : List Char) :
    ∃ c ∈ formatBtcAmount sats locale, c.isDigit = true ∧ c ≠ '0' := by
  by_cases hsmall : sats < ONE_BTC
  · obtain ⟨c, hc, hdigit⟩ := exists_nonzero (digits_padded 8 sats) (by simpa using hpos)
    rw [formatBtcAmount_fits (Nat.lt_trans hsmall (by decide)), fractionShown_small hpos hsmall]
    exact ⟨c, by simp [hc], hdigit⟩
  · have hwhole : 0 < sats / ONE_BTC := Nat.div_pos (Nat.not_lt.1 hsmall) (by decide)
    obtain ⟨c, hc, hdigit⟩ := exists_nonzero ((digits_toDigits (sats / ONE_BTC)).take MAX_DISPLAY_DIGITS)
      (value_take_toDigits_pos hwhole (by decide))
    refine ⟨c, ?_, hdigit⟩
    by_cases hfits : sats < 10 ^ 17
    · rw [List.take_of_length_le (length_toDigits_le_iff.2 hfits),
        ← unseparated_grouped (digits_toDigits _) locale] at hc
      rw [formatBtcAmount_fits hfits]
      exact List.mem_append_left _ (List.mem_filter.1 hc).1
    · rw [← formatBtcAmount_full (Nat.not_lt.1 hfits)] at hc
      exact (List.mem_filter.1 hc).1

theorem formatBtc_not_zero (hpos : 0 < sats) (displayAmount : DisplayAmount) (locale : List Char) :
    ∃ c ∈ formatBtc sats displayAmount locale, c.isDigit = true ∧ c ≠ '0' := by
  cases displayAmount with
  | auto =>
    unfold formatBtc
    dsimp only
    split
    · exact formatBtcAmount_not_zero hpos locale
    · exact formatSatsWithSeparators_not_zero hpos locale
  | btc => exact formatBtcAmount_not_zero hpos locale
  | sats => exact formatSatsWithSeparators_not_zero hpos locale

/-! ## 8. The amount shown -/

/-- What is shown is the amount, for every amount whose integer part fits on the screen. -/
theorem amountShown_iff (sats : Nat) (locale : List Char) :
    AmountShown sats locale ↔ sats < 10 ^ 17 := by
  constructor
  · intro h
    by_contra hlarge
    have hcut : (unseparated locale (integerPart locale (formatBtcAmount sats locale))).length ≤
        MAX_DISPLAY_DIGITS := by
      have hstart : integerPart locale (formatBtcAmount sats locale) <+: formatBtcAmount sats locale :=
        List.takeWhile_prefix _
      refine Nat.le_trans (hstart.filter _).length_le ?_
      show (unseparated locale (formatBtcAmount sats locale)).length ≤ _
      rw [formatBtcAmount_full (Nat.not_lt.1 hlarge), List.length_take]
      exact Nat.min_le_left _ _
    rw [h.btc_whole] at hcut
    exact hlarge (length_toDigits_le_iff.1 hcut)
  · intro h
    refine ⟨?_, read_formatBtcAmount h locale, ?_, ?_, ?_, fun hpos display =>
      formatBtc_not_zero hpos display locale⟩
    · rw [formatSatsWithSeparators_eq, unseparated_grouped (digits_toDigits sats)]
    · rw [integerPart_formatBtcAmount h, unseparated_grouped (digits_toDigits _)]
    · rw [formatSatsWithSeparators_eq]
      exact inThrees_grouped (not_mem_toDigits locale sats).1 Nat.toDigits_ne_nil
    · rw [integerPart_formatBtcAmount h]
      exact inThrees_grouped (not_mem_toDigits locale _).1 Nat.toDigits_ne_nil

/-- A billion bitcoin loses its last digit, and looks like a hundred million. -/
theorem billion_cut :
    formatBtcAmount 100000000000000000 "en".toList = "1,000,000,00".toList ∧
      ¬ AmountShown 100000000000000000 "en".toList := by
  refine ⟨by decide +kernel, fun h => ?_⟩
  exact absurd h.btc_whole (by decide +kernel)

end Bitcoin
