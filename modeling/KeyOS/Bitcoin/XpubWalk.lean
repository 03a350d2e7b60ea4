import KeyOS.Bitcoin.GlobalXpubs

/-!
# The walk over the global map

What a rewriting of the versions does to the bytes, and to the keys. It ends after as many rounds as
there are bytes at most, without a panic, and what it changes are bytes of versions of the map, also
where it fails (`rewriteLoop_spec`).
-/

namespace Bitcoin.Xpubs

open Exec Slices

variable {σ : Type} {psbt psbt' : List UInt8} {c c' i k n v start vstart : Nat}

/-! ## 1. Sizes in a text -/

/-- The number after a marker for larger ones -/
def wide (marker : UInt8) (rest : List UInt8) : Nat :=
  ByteStream.ofLe (rest.take (widths marker).1)

/-- The number at the front, and how many bytes it takes -/
def sizeOf : List UInt8 → Option (Nat × Nat)
  | [] => none
  | marker :: rest =>
    if marker ≤ 0xfc then some (marker.toNat, 1)
    else if rest.length < (widths marker).1 ∨ wide marker rest < (widths marker).2 ∨
        2 ^ 32 ≤ wide marker rest then none
    else some (wide marker rest, 1 + (widths marker).1)

/-- The number at a place, and the place after it -/
def sizeAt (psbt : List UInt8) (c : Nat) : Option (Nat × Nat) :=
  (sizeOf (psbt.drop c)).map fun p => (p.1, c + p.2)

theorem sizeOf_cons_eq_some {marker : UInt8} {rest : List UInt8} {h : Nat} :
    sizeOf (marker :: rest) = some (n, h) ↔
      (marker ≤ 0xfc ∧ n = marker.toNat ∧ h = 1) ∨
      (¬ marker ≤ 0xfc ∧ (widths marker).1 ≤ rest.length ∧ (widths marker).2 ≤ wide marker rest ∧
        wide marker rest < 2 ^ 32 ∧ n = wide marker rest ∧ h = 1 + (widths marker).1) := by
  rw [sizeOf]
  split
  · next hsmall =>
    simp only [Option.some.injEq, Prod.mk.injEq, hsmall, not_true, true_and, false_and, or_false]
    exact ⟨fun h => ⟨h.1.symm, h.2.symm⟩, fun h => ⟨h.1.symm, h.2.symm⟩⟩
  · next hlarge =>
    split
    · next hbad =>
      refine ⟨nofun, ?_⟩
      rintro (⟨hsmall, -⟩ | ⟨-, hlen, hmin, hmax, -⟩)
      · exact absurd hsmall hlarge
      · omega
    · next hgood =>
      simp only [Option.some.injEq, Prod.mk.injEq]
      constructor
      · rintro ⟨rfl, rfl⟩
        exact .inr ⟨hlarge, by omega, by omega, by omega, rfl, rfl⟩
      · rintro (⟨hsmall, -⟩ | ⟨-, -, -, -, rfl, rfl⟩)
        · exact absurd hsmall hlarge
        · exact ⟨rfl, rfl⟩

theorem sizeOf_length {s : List UInt8} {h : Nat} (hs : sizeOf s = some (n, h)) :
    0 < h ∧ h ≤ s.length := by
  cases s with
  | nil => cases hs
  | cons marker rest =>
    rw [List.length_cons]
    rcases sizeOf_cons_eq_some.1 hs with ⟨-, -, rfl⟩ | ⟨-, hlen, -, -, -, rfl⟩ <;> omega

/-- Only the bytes of the number matter. -/
theorem sizeOf_congr {s t : List UInt8} {h : Nat} (hs : sizeOf s = some (n, h))
    (heq : t.take h = s.take h) : sizeOf t = some (n, h) := by
  obtain ⟨hpos, hle⟩ := sizeOf_length hs
  have hlen : h ≤ t.length := by
    have := congrArg List.length heq
    rw [List.length_take, List.length_take] at this
    omega
  obtain ⟨h, rfl⟩ := Nat.exists_eq_succ_of_ne_zero (Nat.ne_of_gt hpos)
  cases s with
  | nil => cases hs
  | cons marker rest =>
    cases t with
    | nil => exact absurd hlen (Nat.not_succ_le_zero h)
    | cons marker' rest' =>
      rw [List.take_succ_cons, List.take_succ_cons, List.cons.injEq] at heq
      obtain ⟨rfl, heq⟩ := heq
      rw [sizeOf_cons_eq_some] at hs ⊢
      refine hs.imp id ?_
      rintro ⟨hlarge, -, hmin, hmax, rfl, hw⟩
      obtain rfl : h = (widths marker').1 := by omega
      have hwide : wide marker' rest' = wide marker' rest := congrArg ByteStream.ofLe heq
      rw [hwide]
      exact ⟨hlarge, Nat.le_of_succ_le_succ hlen, hmin, hmax, rfl, hw⟩

theorem sizeAt_pos (h : sizeAt psbt c = some (n, start)) : c < start ∧ start ≤ psbt.length := by
  unfold sizeAt at h
  obtain ⟨⟨m, w⟩, hs, heq⟩ := Option.map_eq_some_iff.1 h
  cases heq
  have := sizeOf_length hs
  rw [List.length_drop] at this
  omega

/-- The texts agree at every place in a range. -/
def Agree (psbt psbt' : List UInt8) (first last : Nat) : Prop :=
  ∀ i, first ≤ i → i < last → psbt'[i]? = psbt[i]?

theorem Agree.slice {first len : Nat} (h : Agree psbt psbt' first (first + len)) :
    slice psbt' first len = slice psbt first len := by
  refine List.ext_getElem? fun i => ?_
  unfold Slices.slice
  rw [List.getElem?_take, List.getElem?_take]
  split
  · next hi =>
    rw [List.getElem?_drop, List.getElem?_drop]
    exact h _ (Nat.le_add_right _ _) (by omega)
  · rfl

theorem sizeAt_congr (hs : sizeAt psbt c = some (n, start)) (h : Agree psbt psbt' c start) :
    sizeAt psbt' c = some (n, start) := by
  unfold sizeAt at hs ⊢
  obtain ⟨⟨m, w⟩, hsize, heq⟩ := Option.map_eq_some_iff.1 hs
  cases heq
  rw [sizeOf_congr hsize h.slice]
  rfl

theorem asUsize_some {x : Nat} (h : x < 2 ^ 32) : asUsize x = some x := if_pos h

theorem getRange_some {bytes : List UInt8} {first last : Nat} (h : first ≤ last)
    (hlast : last ≤ bytes.length) :
    getRange bytes first last = some (slice bytes first (last - first)) := if_pos ⟨h, hlast⟩

theorem drop_eq_cons {marker : UInt8} {rest : List UInt8} (h : psbt.drop c = marker :: rest) :
    psbt[c]? = some marker ∧ psbt.drop (c + 1) = rest ∧ rest.length = psbt.length - (c + 1) ∧
      c < psbt.length := by
  have hget : psbt[c]? = some marker := by
    have hfirst : (psbt.drop c)[0]? = psbt[c]? := List.getElem?_drop
    rw [h] at hfirst
    exact hfirst.symm
  have hdrop : psbt.drop (c + 1) = rest := by
    rw [← List.drop_drop, h]
    rfl
  refine ⟨hget, hdrop, by rw [← hdrop, List.length_drop], ?_⟩
  exact (List.getElem?_eq_some_iff.1 hget).1

@[simp] theorem setCursor_run (cursor : Nat) (s : Rewriting σ) :
    setCursor cursor s = (.ok (), { s with cursor }) := rfl

/-- The part of the reading that follows the marker -/
theorem readCompactSize_marker {s : Rewriting σ} (hlen : s.psbt.length < 2 ^ 32) {marker : UInt8}
    {rest : List UInt8} (h : s.psbt.drop s.cursor = marker :: rest) :
    readCompactSize s =
      (if marker ≤ 0xfc then (Pure.pure marker.toNat : RewriteM σ Nat)
      else do
        let last ← Prog.okOr .compactSizeOverflow (asUsize (s.cursor + 1 + (widths marker).1))
        let encoded ← Prog.okOr .truncatedCompactSize (getRange s.psbt (s.cursor + 1) last)
        setCursor last
        Prog.onlyIf (ByteStream.ofLe encoded < (widths marker).2)
          (Prog.throw .nonCanonicalCompactSize)
        Prog.okOr .compactSizeDoesNotFit (asUsize (ByteStream.ofLe encoded)))
      { s with cursor := s.cursor + 1 } := by
  obtain ⟨hget, -, -, hlt⟩ := drop_eq_cons h
  unfold readCompactSize
  rw [Prog.bind_ok _ (Prog.get_run s), hget, Prog.bind_ok _ (Prog.okOr_some_run _ _ s),
    asUsize_some (by omega), Prog.bind_ok _ (Prog.expect_some_run _ _ s),
    Prog.bind_ok _ (setCursor_run _ s)]

theorem readCompactSize_some {s : Rewriting σ} (hlen : s.psbt.length < 2 ^ 32)
    (h : sizeAt s.psbt s.cursor = some (n, start)) :
    readCompactSize s = (.ok n, { s with cursor := start }) := by
  unfold sizeAt at h
  obtain ⟨⟨m, w⟩, hsize, heq⟩ := Option.map_eq_some_iff.1 h
  cases heq
  cases hdrop : s.psbt.drop s.cursor with
  | nil =>
    rw [hdrop] at hsize
    cases hsize
  | cons marker rest =>
    obtain ⟨-, hrest, hlength, hlt⟩ := drop_eq_cons hdrop
    rw [hdrop] at hsize
    rw [readCompactSize_marker hlen hdrop]
    rcases sizeOf_cons_eq_some.1 hsize with ⟨hsmall, rfl, rfl⟩ | ⟨hlarge, hw, hmin, hmax, rfl, rfl⟩
    · rw [if_pos hsmall]
      rfl
    · have hrange : getRange s.psbt (s.cursor + 1) (s.cursor + 1 + (widths marker).1) =
          some (rest.take (widths marker).1) := by
        rw [getRange_some (Nat.le_add_right _ _) (by omega), slice, hrest, Nat.add_sub_cancel_left]
      have hmin' : ¬ ByteStream.ofLe (rest.take (widths marker).1) < (widths marker).2 :=
        Nat.not_lt.2 hmin
      have hwide : ByteStream.ofLe (rest.take (widths marker).1) = wide marker rest := rfl
      rw [if_neg hlarge, asUsize_some (by omega), Prog.bind_ok _ (Prog.okOr_some_run _ _ _), hrange,
        Prog.bind_ok _ (Prog.okOr_some_run _ _ _), Prog.bind_ok _ (setCursor_run _ _),
        Prog.bind_ok _ (Prog.onlyIf_false_run hmin' _ _), hwide, asUsize_some hmax, Nat.add_assoc]
      rfl

theorem readCompactSize_none {s : Rewriting σ} (hlen : s.psbt.length < 2 ^ 32)
    (h : sizeAt s.psbt s.cursor = none) :
    ∃ e t, readCompactSize s = (.err e, t) ∧ t.psbt = s.psbt := by
  have hsize : sizeOf (s.psbt.drop s.cursor) = none := by
    unfold sizeAt at h
    exact Option.map_eq_none_iff.1 h
  cases hdrop : s.psbt.drop s.cursor with
  | nil =>
    have hget : s.psbt[s.cursor]? = none := by
      rw [List.getElem?_eq_none_iff]
      exact List.drop_eq_nil_iff.1 hdrop
    refine ⟨.missingCompactSize, s, ?_, rfl⟩
    unfold readCompactSize
    rw [Prog.bind_ok _ (Prog.get_run s), hget]
    rfl
  | cons marker rest =>
    obtain ⟨-, hrest, hlength, hlt⟩ := drop_eq_cons hdrop
    rw [hdrop] at hsize
    rw [readCompactSize_marker hlen hdrop]
    by_cases hsmall : marker ≤ 0xfc
    · rw [sizeOf, if_pos hsmall] at hsize
      cases hsize
    rw [if_neg hsmall]
    by_cases hover : s.cursor + 1 + (widths marker).1 < 2 ^ 32
    swap
    · refine ⟨.compactSizeOverflow, { s with cursor := s.cursor + 1 }, ?_, rfl⟩
      rw [asUsize, if_neg hover]
      rfl
    rw [asUsize_some hover, Prog.bind_ok _ (Prog.okOr_some_run _ _ _)]
    by_cases hw : (widths marker).1 ≤ rest.length
    swap
    · refine ⟨.truncatedCompactSize, { s with cursor := s.cursor + 1 }, ?_, rfl⟩
      rw [getRange, if_neg (by omega)]
      rfl
    have hrange : getRange s.psbt (s.cursor + 1) (s.cursor + 1 + (widths marker).1) =
        some (rest.take (widths marker).1) := by
      rw [getRange_some (Nat.le_add_right _ _) (by omega), slice, hrest, Nat.add_sub_cancel_left]
    rw [hrange, Prog.bind_ok _ (Prog.okOr_some_run _ _ _), Prog.bind_ok _ (setCursor_run _ _)]
    by_cases hmin : ByteStream.ofLe (rest.take (widths marker).1) < (widths marker).2
    · exact ⟨.nonCanonicalCompactSize, { s with cursor := s.cursor + 1 + (widths marker).1 },
        Prog.bind_err _ (Prog.onlyIf_true_run hmin (Prog.throw Error.nonCanonicalCompactSize) _), rfl⟩
    rw [Prog.bind_ok _ (Prog.onlyIf_false_run hmin _ _)]
    refine ⟨.compactSizeDoesNotFit, { s with cursor := s.cursor + 1 + (widths marker).1 }, ?_, rfl⟩
    have hwide : ByteStream.ofLe (rest.take (widths marker).1) = wide marker rest := rfl
    have hmax : ¬ wide marker rest < 2 ^ 32 := fun hmax => by
      rw [sizeOf, if_neg hsmall, if_neg (by omega)] at hsize
      cases hsize
    rw [hwide, asUsize, if_neg hmax]
    rfl

/-! ## 2. The map -/

abbrev Key := List UInt8

/-- The map of keys and values that begins at a place -/
inductive GlobalMap (psbt : List UInt8) : Nat → List Key → Prop where
  | finished {c start : Nat} (h : sizeAt psbt c = some (0, start)) : GlobalMap psbt c []
  | record {c k start v vstart : Nat} {keys : List Key} (hk : sizeAt psbt c = some (k, start))
      (hpos : 0 < k) (hv : sizeAt psbt (start + k) = some (v, vstart))
      (hend : vstart + v ≤ psbt.length) (rest : GlobalMap psbt (vstart + v) keys) :
      GlobalMap psbt c (slice psbt start k :: keys)

/-- The keys of a map, read in a number of rounds -/
def keysFrom (psbt : List UInt8) : Nat → Nat → Option (List Key)
  | 0, _ => none
  | rounds + 1, c => do
    let (k, start) ← sizeAt psbt c
    if k = 0 then some []
    else do
      let (v, vstart) ← sizeAt psbt (start + k)
      if vstart + v ≤ psbt.length then
        (keysFrom psbt rounds (vstart + v)).map (slice psbt start k :: ·)
      else none

theorem GlobalMap.of_keysFrom {rounds : Nat} {keys : List Key}
    (h : keysFrom psbt rounds c = some keys) : GlobalMap psbt c keys := by
  induction rounds generalizing c keys with
  | zero => cases h
  | succ rounds ih =>
    unfold keysFrom at h
    obtain ⟨⟨k, start⟩, hk, h⟩ := Option.bind_eq_some_iff.1 h
    dsimp only at h
    split at h
    · next hzero =>
      cases h
      exact .finished (hzero ▸ hk)
    · next hpos =>
      obtain ⟨⟨v, vstart⟩, hv, h⟩ := Option.bind_eq_some_iff.1 h
      dsimp only at h
      split at h
      · next hend =>
        obtain ⟨rest, hrest, rfl⟩ := Option.map_eq_some_iff.1 h
        exact .record hk (Nat.pos_of_ne_zero hpos) hv hend (ih hrest)
      · cases h

/-- The places of the bytes of versions, in the map that begins at a place -/
inductive VersionByte (psbt : List UInt8) (i : Nat) : Nat → Prop where
  | here {c start : Nat} (hk : sizeAt psbt c = some (SERIALIZED_XPUB_LEN + 1, start))
      (hend : start + SERIALIZED_XPUB_LEN + 1 ≤ psbt.length)
      (hkind : psbt[start]? = some GLOBAL_XPUB_KEY_TYPE) (hfirst : start + 1 ≤ i)
      (hlast : i < start + 5) : VersionByte psbt i c
  | later {c k start v vstart : Nat} (hk : sizeAt psbt c = some (k, start)) (hpos : 0 < k)
      (hv : sizeAt psbt (start + k) = some (v, vstart)) (hend : vstart + v ≤ psbt.length)
      (rest : VersionByte psbt i (vstart + v)) : VersionByte psbt i c

/-- The version and the data of a key that is an extended public key -/
def xpubOf (key : Key) : Option (Version × KeyData) :=
  if key.head? = some GLOBAL_XPUB_KEY_TYPE then do
    let version ← tryInto 4 (slice key 1 4)
    let keyData ← tryInto SERIALIZED_XPUB_DATA_LEN (key.drop 5)
    some (version, keyData)
  else none

def xpubKey (version : Version) (keyData : KeyData) : Key :=
  GLOBAL_XPUB_KEY_TYPE :: (version.1 ++ keyData.1)

theorem tryInto_val {m : Nat} (b : Bytes m) : tryInto m b.1 = some b := by
  unfold tryInto
  rw [dif_pos b.2]

theorem tryInto_eq_some {m : Nat} {l : List UInt8} {b : Bytes m} (h : tryInto m l = some b) :
    l = b.1 := by
  unfold tryInto at h
  split at h
  · cases h
    rfl
  · cases h

@[simp] theorem xpubOf_xpubKey (version : Version) (keyData : KeyData) :
    xpubOf (xpubKey version keyData) = some (version, keyData) := by
  have hversion : slice (xpubKey version keyData) 1 4 = version.1 := by
    simp [slice, xpubKey, version.2]
  have hdata : (xpubKey version keyData).drop 5 = keyData.1 := by
    simp [xpubKey, version.2]
  have hkind : (xpubKey version keyData).head? = some GLOBAL_XPUB_KEY_TYPE := rfl
  unfold xpubOf
  rw [if_pos hkind, hversion, hdata, tryInto_val, tryInto_val]
  rfl

theorem of_xpubOf {key : Key} {version : Version} {keyData : KeyData}
    (h : xpubOf key = some (version, keyData)) : key = xpubKey version keyData := by
  unfold xpubOf at h
  split at h
  · next hkind =>
    obtain ⟨version', hversion, h⟩ := Option.bind_eq_some_iff.1 h
    obtain ⟨keyData', hdata, h⟩ := Option.bind_eq_some_iff.1 h
    cases h
    cases key with
    | nil => cases hkind
    | cons kind key =>
      rw [List.head?_cons] at hkind
      rw [xpubKey, ← tryInto_eq_some hversion, ← tryInto_eq_some hdata, Option.some.inj hkind]
      simp only [slice, List.drop_succ_cons, List.drop_zero, List.take_append_drop]
  · cases h

/-- What a replacement makes of a key -/
def replaceKey (replacement : Replacement σ) (key : Key) (acc : σ) : Key × σ :=
  match xpubOf key with
  | none => (key, acc)
  | some (version, keyData) =>
    match replacement version keyData acc with
    | (some version, acc) => (xpubKey version keyData, acc)
    | (none, acc) => (key, acc)

/-- What it makes of the keys of a map, one after the other -/
def replaceKeys (replacement : Replacement σ) : List Key → σ → List Key × σ
  | [], acc => ([], acc)
  | key :: keys, acc =>
    let first := replaceKey replacement key acc
    let rest := replaceKeys replacement keys first.2
    (first.1 :: rest.1, rest.2)

theorem VersionByte.le (h : VersionByte psbt i c) : c ≤ i := by
  induction h with
  | here hk hend hkind hfirst hlast =>
    have := sizeAt_pos hk
    omega
  | later hk hpos hv hend rest ih =>
    have := sizeAt_pos hk
    have := sizeAt_pos hv
    omega

/-- What begins at a place depends on what is from there on. -/
theorem Agree.sizeAt (h : Agree psbt psbt' c psbt.length) (hlen : psbt'.length = psbt.length)
    (hle : c ≤ c') : sizeAt psbt' c' = sizeAt psbt c' := by
  have hdrop : psbt'.drop c' = psbt.drop c' := by
    refine List.ext_getElem? fun i => ?_
    rw [List.getElem?_drop, List.getElem?_drop]
    by_cases hi : c' + i < psbt.length
    · exact h _ (by omega) hi
    · rw [List.getElem?_eq_none (by omega), List.getElem?_eq_none (by omega)]
  unfold Xpubs.sizeAt
  rw [hdrop]

theorem VersionByte.of_agree (hv : VersionByte psbt' i c')
    (h : Agree psbt psbt' c psbt.length) (hlen : psbt'.length = psbt.length) (hle : c ≤ c') :
    VersionByte psbt i c' := by
  induction hv with
  | here hk hend hkind hfirst hlast =>
    rw [h.sizeAt hlen hle] at hk
    have hpos := sizeAt_pos hk
    refine .here hk (hlen ▸ hend) ?_ hfirst hlast
    rw [← h _ (by omega) (by omega)]
    exact hkind
  | later hk hpos hv hend rest ih =>
    have hpos' := sizeAt_pos hk
    have hpos'' := sizeAt_pos hv
    rw [h.sizeAt hlen hle] at hk
    rw [h.sizeAt hlen (by omega)] at hv
    exact .later hk hpos hv (hlen ▸ hend) (ih (by omega))

theorem GlobalMap.of_agree {keys : List Key} (hm : GlobalMap psbt' c' keys)
    (h : Agree psbt psbt' c psbt.length) (hlen : psbt'.length = psbt.length) (hle : c ≤ c') :
    GlobalMap psbt c' keys := by
  induction hm with
  | finished hk =>
    rw [h.sizeAt hlen hle] at hk
    exact .finished hk
  | @record c₁ k start v vstart keys hk hpos hv hend rest ih =>
    have hpos' := sizeAt_pos hk
    have hpos'' := sizeAt_pos hv
    rw [h.sizeAt hlen hle] at hk
    rw [h.sizeAt hlen (by omega)] at hv
    have hkey : slice psbt' start k = slice psbt start k := Agree.slice fun i hfirst hlast =>
      h i (by omega) (by omega)
    rw [hkey]
    exact .record hk hpos hv (hlen ▸ hend) (ih (by omega))

/-! ## 3. One key -/

theorem xpubKey_length (version : Version) (keyData : KeyData) :
    (xpubKey version keyData).length = SERIALIZED_XPUB_LEN + 1 := by
  rw [xpubKey, List.length_cons, List.length_append, version.2, keyData.2]
  rfl

/-- The state once a key has been looked at, and perhaps replaced -/
structure KeyDone (replacement : Replacement σ) (s : Rewriting σ) (start k : Nat)
    (s' : Rewriting σ) : Prop where
  cursor_eq : s'.cursor = s.cursor
  length_eq : s'.psbt.length = s.psbt.length
  key_eq : slice s'.psbt start k = (replaceKey replacement (slice s.psbt start k) s.acc).1
  acc_eq : s'.acc = (replaceKey replacement (slice s.psbt start k) s.acc).2
  kept (i : Nat) : ¬ (k = SERIALIZED_XPUB_LEN + 1 ∧ s.psbt[start]? = some GLOBAL_XPUB_KEY_TYPE ∧
    start + 1 ≤ i ∧ i < start + 5) → s'.psbt[i]? = s.psbt[i]?

theorem KeyDone.untouched {replacement : Replacement σ} {s : Rewriting σ}
    (h : xpubOf (slice s.psbt start k) = none) : KeyDone replacement s start k s := by
  have hkey : replaceKey replacement (slice s.psbt start k) s.acc = (slice s.psbt start k, s.acc) := by
    unfold replaceKey
    rw [h]
  exact ⟨rfl, rfl, by rw [hkey], by rw [hkey], fun _ _ => rfl⟩

/-- A key of the type and length of an extended public key is cut into its parts. -/
theorem slice_xpub (hend : start + SERIALIZED_XPUB_LEN + 1 ≤ psbt.length)
    (hkind : psbt[start]? = some GLOBAL_XPUB_KEY_TYPE) {version : Version} {keyData : KeyData}
    (hversion : slice psbt (start + 1) 4 = version.1)
    (hdata : slice psbt (start + 5) SERIALIZED_XPUB_DATA_LEN = keyData.1) :
    slice psbt start (SERIALIZED_XPUB_LEN + 1) = xpubKey version keyData := by
  have hlen : SERIALIZED_XPUB_LEN + 1 = 1 + (4 + SERIALIZED_XPUB_DATA_LEN) := rfl
  have hhead : slice psbt start 1 = [GLOBAL_XPUB_KEY_TYPE] := by
    have hone : (slice psbt start 1).length = 1 := length_slice (by omega)
    have hfirst : (slice psbt start 1).head? = some GLOBAL_XPUB_KEY_TYPE :=
      (head?_slice start 0).trans hkind
    match slice psbt start 1, hone, hfirst with
    | [b], _, hb => rw [Option.some.inj hb]
  rw [hlen, slice_append, slice_append, hhead, hversion, Nat.add_assoc, hdata]
  rfl

theorem rewriteKey_spec (replacement : Replacement σ) (s : Rewriting σ)
    (hend : start + SERIALIZED_XPUB_LEN + 1 ≤ s.psbt.length)
    (hkind : s.psbt[start]? = some GLOBAL_XPUB_KEY_TYPE) :
    ∃ s', rewriteKey replacement start (start + (SERIALIZED_XPUB_LEN + 1)) s = (.ok (), s') ∧
      KeyDone replacement s start (SERIALIZED_XPUB_LEN + 1) s' := by
  let version : Version := ⟨slice s.psbt (start + 1) 4, length_slice (by
    unfold SERIALIZED_XPUB_LEN at hend; omega)⟩
  let keyData : KeyData := ⟨slice s.psbt (start + 5) SERIALIZED_XPUB_DATA_LEN, length_slice (by
    unfold SERIALIZED_XPUB_LEN at hend; unfold SERIALIZED_XPUB_DATA_LEN; omega)⟩
  have hkey : slice s.psbt start (SERIALIZED_XPUB_LEN + 1) = xpubKey version keyData :=
    slice_xpub hend hkind rfl rfl
  have hrange : getRange s.psbt (start + 1) (start + 5) = some version.1 := by
    rw [getRange_some (by omega) (by unfold SERIALIZED_XPUB_LEN at hend; omega),
      show start + 5 - (start + 1) = 4 by omega]
  have hrange' : getRange s.psbt (start + 5) (start + (SERIALIZED_XPUB_LEN + 1)) =
      some keyData.1 := by
    rw [getRange_some (by unfold SERIALIZED_XPUB_LEN; omega) (by omega),
      show start + (SERIALIZED_XPUB_LEN + 1) - (start + 5) = SERIALIZED_XPUB_DATA_LEN by
        unfold SERIALIZED_XPUB_LEN SERIALIZED_XPUB_DATA_LEN; omega]
  have hreplace : replaceKey replacement (xpubKey version keyData) s.acc =
      match replacement version keyData s.acc with
      | (some version, acc) => (xpubKey version keyData, acc)
      | (none, acc) => (xpubKey version keyData, acc) := by
    unfold replaceKey
    rw [xpubOf_xpubKey]
  unfold rewriteKey
  rw [Prog.bind_ok _ (Prog.get_run s), hrange, Prog.bind_ok _ (Prog.expect_some_run _ _ s),
    tryInto_val, Prog.bind_ok _ (Prog.expect_some_run _ _ s), hrange',
    Prog.bind_ok _ (Prog.expect_some_run _ _ s), tryInto_val,
    Prog.bind_ok _ (Prog.expect_some_run _ _ s)]
  rcases hr : replacement version keyData s.acc with ⟨replaced, acc⟩
  rw [hr] at hreplace
  cases replaced with
  | none =>
    refine ⟨{ s with acc }, rfl, rfl, rfl, ?_, ?_, fun _ _ => rfl⟩
    · rw [hkey, hreplace]
    · rw [hkey, hreplace]
  | some version' =>
    have hpos : start + 1 ≤ s.psbt.length := by omega
    have hfits : start + 1 + version'.1.length ≤ s.psbt.length := by
      rw [version'.2]
      unfold SERIALIZED_XPUB_LEN at hend
      omega
    refine ⟨{ s with psbt := splice s.psbt (start + 1) version'.1, acc }, rfl, rfl,
      length_splice hfits, ?_, ?_, fun i hi => ?_⟩
    · rw [hkey, hreplace]
      refine slice_xpub ((length_splice hfits).symm ▸ hend) ?_ ?_ ?_
      · rw [getElem?_splice_apart hpos (.inl (Nat.lt_succ_self start))]
        exact hkind
      · have hread : slice (splice s.psbt (start + 1) version'.1) (start + 1) version'.1.length =
            version'.1 := slice_splice hpos
        rwa [version'.2] at hread
      · exact slice_splice_after hpos (Nat.le_of_eq (by rw [version'.2, Nat.add_assoc]))
    · rw [hkey, hreplace]
    · refine getElem?_splice_apart hpos ?_
      rw [version'.2]
      by_contra hin
      exact hi ⟨rfl, hkind, by omega, by omega⟩

/-! ## 4. The loop -/

/-- Nothing but bytes of versions of the map differs, and no byte comes or goes. -/
structure VersionsOnly (psbt : List UInt8) (c : Nat) (psbt' : List UInt8) : Prop where
  length_eq : psbt'.length = psbt.length
  kept (i : Nat) : ¬ VersionByte psbt i c → psbt'[i]? = psbt[i]?

theorem VersionsOnly.refl (psbt : List UInt8) (c : Nat) : VersionsOnly psbt c psbt :=
  ⟨rfl, fun _ _ => rfl⟩

/-- A rewriting that ends with a value has gone through a map, and replaced its keys; one that ends
with an error has met none. -/
def Rewrote (replacement : Replacement σ) (s : Rewriting σ) (o : Outcome Panic Error Unit)
    (s' : Rewriting σ) : Prop :=
  VersionsOnly s.psbt s.cursor s'.psbt ∧
    ((o = .ok () ∧ ∃ keys, GlobalMap s.psbt s.cursor keys ∧
        GlobalMap s'.psbt s.cursor (replaceKeys replacement keys s.acc).1 ∧
        s'.acc = (replaceKeys replacement keys s.acc).2) ∨
      (∃ e, o = .err e) ∧ ∀ keys, ¬ GlobalMap s.psbt s.cursor keys)

theorem not_map_of_none (h : sizeAt psbt c = none) (keys : List Key) : ¬ GlobalMap psbt c keys := by
  intro hmap
  cases hmap with
  | finished hk => cases h.symm.trans hk
  | record hk _ _ _ _ => cases h.symm.trans hk

/-- There is no map where what follows the key does not lie in the text. -/
theorem not_map_of_record (hk : sizeAt psbt c = some (k, start)) (hpos : 0 < k)
    (h : ∀ v vstart, sizeAt psbt (start + k) = some (v, vstart) → ¬ vstart + v ≤ psbt.length)
    (keys : List Key) : ¬ GlobalMap psbt c keys := by
  intro hmap
  cases hmap with
  | finished hk₀ =>
    cases hk.symm.trans hk₀
    omega
  | record hk₀ _ hv hend _ =>
    cases hk.symm.trans hk₀
    exact h _ _ hv hend

/-- The bytes of a key that are changed are those of a version. -/
theorem KeyDone.versionsOnly {replacement : Replacement σ} {s s' : Rewriting σ}
    (hk : sizeAt s.psbt c = some (k, start)) (hend : start + k ≤ s.psbt.length)
    (h : KeyDone replacement s start k s') : VersionsOnly s.psbt c s'.psbt := by
  refine ⟨h.length_eq, fun i hi => h.kept i ?_⟩
  rintro ⟨rfl, hkind, hfirst, hlast⟩
  exact hi (.here hk hend hkind hfirst hlast)

/-- A rest that is rewritten after a key -/
theorem Rewrote.record {replacement : Replacement σ} {s s₁ s₂ s' : Rewriting σ}
    {o : Outcome Panic Error Unit} (hk : sizeAt s.psbt s.cursor = some (k, start)) (hpos : 0 < k)
    (hkey : KeyDone replacement s₁ start k s₂) (hpsbt : s₁.psbt = s.psbt) (hacc : s₁.acc = s.acc)
    (hv : sizeAt s.psbt (start + k) = some (v, vstart)) (hend : vstart + v ≤ s.psbt.length)
    (h : Rewrote replacement { s₂ with cursor := vstart + v } o s') : Rewrote replacement s o s' := by
  obtain ⟨hchanged, hresult⟩ := h
  have hstart := sizeAt_pos hk
  have hvstart := sizeAt_pos hv
  have hlen : s₂.psbt.length = s.psbt.length := hkey.length_eq.trans (by rw [hpsbt])
  have hnext : start + k ≤ vstart + v := by omega
  -- what follows the key is as it was
  have hsame : Agree s.psbt s₂.psbt (start + k) s.psbt.length := fun i hfirst _ => by
    rw [← hpsbt]
    refine hkey.kept i ?_
    rintro ⟨rfl, -, -, hlast⟩
    unfold SERIALIZED_XPUB_LEN at hfirst
    omega
  have hfirst : VersionsOnly s.psbt s.cursor s₂.psbt := by
    rw [← hpsbt] at hk hend hvstart ⊢
    exact hkey.versionsOnly hk (by omega)
  have hbefore : Agree s₂.psbt s'.psbt 0 (vstart + v) := fun i _ hi =>
    hchanged.kept i fun hversion => absurd hversion.le (Nat.not_le.2 hi)
  refine ⟨⟨hchanged.length_eq.trans hlen, fun i hi => ?_⟩, ?_⟩
  · rw [hchanged.kept i fun hversion => hi ?_, hfirst.kept i hi]
    exact .later hk hpos hv hend (hversion.of_agree hsame hlen hnext)
  · rcases hresult with ⟨ho, keys, hmap, hmap', hacc'⟩ | ⟨he, hno⟩
    · refine .inl ⟨ho, slice s.psbt start k :: keys, ?_, ?_, ?_⟩
      · exact .record hk hpos hv hend (hmap.of_agree hsame hlen hnext)
      · have hk' : sizeAt s'.psbt s.cursor = some (k, start) := by
          refine sizeAt_congr hk fun i _ hi => ?_
          rw [hbefore i (Nat.zero_le i) (by omega), ← hpsbt]
          refine hkey.kept i ?_
          rintro ⟨-, -, hfirst, -⟩
          omega
        have hv' : sizeAt s'.psbt (start + k) = some (v, vstart) := by
          refine sizeAt_congr hv fun i hfirst hi => ?_
          rw [hbefore i (Nat.zero_le i) (by omega)]
          exact hsame i hfirst (by omega)
        have hkeyBytes : slice s'.psbt start k =
            (replaceKey replacement (slice s.psbt start k) s.acc).1 := by
          rw [← hpsbt, ← hacc, ← hkey.key_eq]
          exact Agree.slice fun i _ hi => hbefore i (Nat.zero_le i) (by omega)
        have hend' : vstart + v ≤ s'.psbt.length := by
          rw [hchanged.length_eq, hlen]
          exact hend
        rw [replaceKeys, ← hkeyBytes, ← hacc, ← hpsbt, ← hkey.acc_eq]
        exact .record hk' hpos hv' hend' hmap'
      · rw [hacc', replaceKeys, ← hacc, ← hpsbt, ← hkey.acc_eq]
    · refine .inr ⟨he, fun keys hmap => ?_⟩
      cases hmap with
      | finished hk₀ =>
        cases hk.symm.trans hk₀
        omega
      | record hk₀ _ hv₀ _ rest =>
        cases hk.symm.trans hk₀
        cases hv.symm.trans hv₀
        have hsame' : Agree s₂.psbt s.psbt (start + k) s₂.psbt.length := fun i hfirst hi =>
          (hsame i hfirst (hlen ▸ hi)).symm
        exact hno _ (rest.of_agree hsame' hlen.symm hnext)

/-- Whether a key is looked at depends on its length and its type. -/
theorem rewriteIfXpub_spec (replacement : Replacement σ) (s : Rewriting σ)
    (hend : start + k ≤ s.psbt.length) :
    ∃ s', rewriteIfXpub replacement start k (start + k) s = (.ok (), s') ∧
      KeyDone replacement s start k s' := by
  unfold rewriteIfXpub
  rw [Prog.bind_ok _ (Prog.get_run s)]
  by_cases hk : k = SERIALIZED_XPUB_LEN + 1
  swap
  · rw [if_neg hk]
    refine ⟨s, rfl, KeyDone.untouched ?_⟩
    refine Option.eq_none_iff_forall_ne_some.2 fun ⟨version, keyData⟩ h => hk ?_
    rw [← length_slice hend, of_xpubOf h, xpubKey_length]
  subst hk
  have hget : s.psbt[start]? = some s.psbt[start] := List.getElem?_eq_getElem (by omega)
  rw [if_pos rfl, hget, Prog.bind_ok _ (Prog.expect_some_run _ _ s)]
  by_cases hkind : s.psbt[start] = GLOBAL_XPUB_KEY_TYPE
  · rw [Prog.onlyIf_true_run hkind]
    exact rewriteKey_spec replacement s hend (hget.trans (congrArg some hkind))
  · rw [Prog.onlyIf_false_run hkind]
    refine ⟨s, rfl, KeyDone.untouched ?_⟩
    have hhead : (slice s.psbt start (SERIALIZED_XPUB_LEN + 1)).head? = some s.psbt[start] :=
      (head?_slice start _).trans hget
    unfold xpubOf
    rw [if_neg]
    rw [hhead]
    exact fun h => hkind (Option.some.inj h)

/-- From every state there are enough rounds, and the loop ends with a value or with an error. -/
theorem rewriteLoop_spec (replacement : Replacement σ) (rounds : Nat) (s : Rewriting σ)
    (hlen : s.psbt.length < 2 ^ 32) (hcursor : s.cursor ≤ s.psbt.length)
    (hrounds : s.psbt.length < rounds + s.cursor) :
    ∃ o s', rewriteLoop replacement rounds s = (o, s') ∧ Rewrote replacement s o s' := by
  induction rounds generalizing s with
  | zero => omega
  | succ rounds ih =>
    unfold rewriteLoop
    cases hk : sizeAt s.psbt s.cursor with
    | none =>
      obtain ⟨e, t, hrun, hpsbt⟩ := readCompactSize_none hlen hk
      exact ⟨.err e, t, Prog.bind_err _ hrun, hpsbt ▸ VersionsOnly.refl _ _,
        .inr ⟨⟨e, rfl⟩, not_map_of_none hk⟩⟩
    | some p =>
      obtain ⟨k, start⟩ := p
      have hstart := sizeAt_pos hk
      rw [Prog.bind_ok _ (readCompactSize_some hlen hk)]
      by_cases hzero : k = 0
      · subst hzero
        rw [if_pos rfl]
        exact ⟨.ok (), { s with cursor := start }, rfl, VersionsOnly.refl _ _,
          .inl ⟨rfl, [], .finished hk, .finished hk, rfl⟩⟩
      have hpos : 0 < k := Nat.pos_of_ne_zero hzero
      rw [if_neg hzero, Prog.bind_ok _ (Prog.get_run _)]
      -- an error before the key is looked at
      have hearly (e : Error) (h : ¬ start + k ≤ s.psbt.length) :
          Rewrote replacement s (.err e) { s with cursor := start } :=
        ⟨VersionsOnly.refl _ _, .inr ⟨⟨e, rfl⟩, not_map_of_record hk hpos fun v vstart hv => by
          have := sizeAt_pos hv
          omega⟩⟩
      by_cases hover : start + k < 2 ^ 32
      swap
      · rw [asUsize, if_neg hover]
        exact ⟨.err .keyLengthOverflow, _, rfl, hearly _ (by omega)⟩
      rw [asUsize_some hover, Prog.bind_ok _ (Prog.okOr_some_run _ _ _)]
      by_cases htrunc : s.psbt.length < start + k
      · exact ⟨.err .truncatedKey, _,
          Prog.bind_err _ (Prog.onlyIf_true_run htrunc (Prog.throw Error.truncatedKey) _),
          hearly _ (Nat.not_le.2 htrunc)⟩
      rw [Prog.bind_ok _ (Prog.onlyIf_false_run htrunc _ _)]
      obtain ⟨s₂, hrun, hkey⟩ := rewriteIfXpub_spec replacement { s with cursor := start }
        (Nat.not_lt.1 htrunc)
      rw [Prog.bind_ok _ hrun, Prog.bind_ok _ (setCursor_run _ _)]
      have hlen₂ : s₂.psbt.length = s.psbt.length := hkey.length_eq
      have hchanged : VersionsOnly s.psbt s.cursor s₂.psbt :=
        KeyDone.versionsOnly (s := { s with cursor := start }) hk (Nat.not_lt.1 htrunc) hkey
      -- an error after the key
      have hlate (e : Error) (s' : Rewriting σ) (hpsbt : s'.psbt = s₂.psbt)
          (h : ∀ v vstart, sizeAt s.psbt (start + k) = some (v, vstart) →
            ¬ vstart + v ≤ s.psbt.length) : Rewrote replacement s (.err e) s' :=
        ⟨hpsbt ▸ hchanged, .inr ⟨⟨e, rfl⟩, not_map_of_record hk hpos h⟩⟩
      have hsize : sizeAt s₂.psbt (start + k) = sizeAt s.psbt (start + k) := by
        refine Agree.sizeAt (c := start + k) (fun i hfirst _ => hkey.kept i ?_) hlen₂ (Nat.le_refl _)
        rintro ⟨rfl, -, -, hlast⟩
        unfold SERIALIZED_XPUB_LEN at hfirst
        omega
      cases hv : sizeAt s.psbt (start + k) with
      | none =>
        obtain ⟨e, t, hrun', hpsbt⟩ := readCompactSize_none
          (s := { s₂ with cursor := start + k }) (hlen₂ ▸ hlen) (hsize.trans hv)
        exact ⟨.err e, t, Prog.bind_err _ hrun', hlate e t hpsbt fun v vstart h => by
          cases hv.symm.trans h⟩
      | some p =>
        obtain ⟨v, vstart⟩ := p
        have hvstart := sizeAt_pos hv
        have hbad (h : ¬ vstart + v ≤ s.psbt.length) (v' vstart' : Nat)
            (hv' : sizeAt s.psbt (start + k) = some (v', vstart')) :
            ¬ vstart' + v' ≤ s.psbt.length := by
          cases hv.symm.trans hv'
          exact h
        rw [Prog.bind_ok _ (readCompactSize_some (s := { s₂ with cursor := start + k })
          (hlen₂ ▸ hlen) (hsize.trans hv)), Prog.bind_ok _ (Prog.get_run _)]
        by_cases hover' : vstart + v < 2 ^ 32
        swap
        · rw [asUsize, if_neg hover']
          exact ⟨.err .valueLengthOverflow, _, rfl, hlate _ _ rfl (hbad (by omega))⟩
        rw [asUsize_some hover', Prog.bind_ok _ (Prog.okOr_some_run _ _ _),
          Prog.bind_ok _ (setCursor_run _ _)]
        by_cases htrunc' : s₂.psbt.length < vstart + v
        · exact ⟨.err .truncatedValue, _,
            Prog.bind_err _ (Prog.onlyIf_true_run htrunc' (Prog.throw Error.truncatedValue) _),
            hlate _ _ rfl (hbad (by omega))⟩
        rw [Prog.bind_ok _ (Prog.onlyIf_false_run htrunc' _ _)]
        have hend : vstart + v ≤ s.psbt.length := hlen₂ ▸ Nat.not_lt.1 htrunc'
        obtain ⟨o, s', hrun', hrest⟩ := ih { s₂ with cursor := vstart + v } (hlen₂ ▸ hlen)
          (hlen₂ ▸ hend) (by show s₂.psbt.length < rounds + (vstart + v); omega)
        exact ⟨o, s', hrun', hrest.record hk hpos hkey rfl rfl hv hend⟩

end Bitcoin.Xpubs
