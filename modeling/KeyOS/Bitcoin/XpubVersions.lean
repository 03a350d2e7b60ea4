import KeyOS.Bitcoin.XpubWalk

/-!
# Do the versions survive?

The list that is made while versions are replaced is searched by the bytes of a key alone, which the
versions of several keys may share. `versions_survive_iff` says which PSBTs come back with the
versions they had: those without two keys of the same bytes of which one had a version of SLIP-132.
-/

namespace Bitcoin.Xpubs

open Exec Slices

variable {σ : Type} {psbt psbt' : List UInt8} {c i : Nat} {key key' : Key} {keys keys' : List Key}
  {originals : List OriginalGlobalXpubVersion}

/-! ## 1. A whole PSBT -/

/-- The keys of the global map of a PSBT -/
def GlobalKeys (psbt : List UInt8) (keys : List Key) : Prop :=
  if PSBT_MAGIC.isPrefixOf psbt then GlobalMap psbt PSBT_MAGIC.length keys else keys = []

/-- The place of a byte of the version of a global xpub -/
def IsVersionByte (psbt : List UInt8) (i : Nat) : Prop :=
  PSBT_MAGIC.isPrefixOf psbt = true ∧ VersionByte psbt i PSBT_MAGIC.length

/-- The places behind the map that begins at a place -/
inductive AfterMap (psbt : List UInt8) (i : Nat) : Nat → Prop where
  | finished {c start : Nat} (h : sizeAt psbt c = some (0, start)) (hle : start ≤ i) :
      AfterMap psbt i c
  | record {c k start v vstart : Nat} (hk : sizeAt psbt c = some (k, start)) (hpos : 0 < k)
      (hv : sizeAt psbt (start + k) = some (v, vstart)) (rest : AfterMap psbt i (vstart + v)) :
      AfterMap psbt i c

theorem AfterMap.le (h : AfterMap psbt i c) : c ≤ i := by
  induction h with
  | finished hk hle =>
    have := sizeAt_pos hk
    omega
  | record hk hpos hv rest ih =>
    have := sizeAt_pos hk
    have := sizeAt_pos hv
    omega

theorem AfterMap.not_versionByte (h : AfterMap psbt i c) : ¬ VersionByte psbt i c := by
  induction h with
  | finished hk hle =>
    intro hversion
    cases hversion with
    | here hk' _ _ _ _ => cases hk.symm.trans hk'
    | later hk' hpos _ _ _ =>
      cases hk.symm.trans hk'
      exact absurd hpos (Nat.lt_irrefl 0)
  | record hk hpos hv rest ih =>
    intro hversion
    cases hversion with
    | here hk' hend hkind hfirst hlast =>
      cases hk.symm.trans hk'
      have := rest.le
      have := sizeAt_pos hv
      unfold SERIALIZED_XPUB_LEN at this
      omega
    | later hk' _ hv' _ rest' =>
      cases hk.symm.trans hk'
      cases hv.symm.trans hv'
      exact ih rest'

theorem GlobalMap.unique (h : GlobalMap psbt c keys) (h' : GlobalMap psbt c keys') : keys' = keys := by
  induction h generalizing keys' with
  | finished hk =>
    cases h' with
    | finished _ => rfl
    | record hk' hpos _ _ _ =>
      cases hk.symm.trans hk'
      exact absurd hpos (Nat.lt_irrefl 0)
  | record hk hpos hv hend rest ih =>
    cases h' with
    | finished hk' =>
      cases hk.symm.trans hk'
      exact absurd hpos (Nat.lt_irrefl 0)
    | record hk' _ hv' _ rest' =>
      cases hk.symm.trans hk'
      cases hv.symm.trans hv'
      rw [ih rest']

theorem GlobalKeys.unique (h : GlobalKeys psbt keys) (h' : GlobalKeys psbt keys') : keys' = keys := by
  unfold GlobalKeys at h h'
  split at h
  · next hmagic =>
    rw [if_pos hmagic] at h'
    exact h.unique h'
  · next hmagic =>
    rw [if_neg hmagic] at h'
    rw [h, h']

theorem isPrefixOf_agree (h : Agree psbt psbt' 0 PSBT_MAGIC.length)
    (hmagic : PSBT_MAGIC.isPrefixOf psbt = true) : PSBT_MAGIC.isPrefixOf psbt' = true := by
  rw [List.isPrefixOf_iff_prefix, List.prefix_iff_eq_take] at hmagic ⊢
  have htake : slice psbt' 0 PSBT_MAGIC.length = slice psbt 0 PSBT_MAGIC.length :=
    Agree.slice (by simpa using h)
  simp only [slice, List.drop_zero] at htake
  rw [htake]
  exact hmagic

/-- No panic, and no byte is changed but those of the versions; those behind the map are not. -/
structure Safe (psbt : List UInt8) (o : Outcome Panic Error Unit) (psbt' : List UInt8) : Prop where
  runs : ∀ p, o ≠ .panic p
  length_eq : psbt'.length = psbt.length
  kept : ∀ i, ¬ IsVersionByte psbt i → psbt'[i]? = psbt[i]?
  behind : ∀ i, AfterMap psbt i PSBT_MAGIC.length → psbt'[i]? = psbt[i]?

theorem rewriteGlobalXpubVersions_spec (replacement : Replacement σ) (acc : σ)
    (hlen : psbt.length < 2 ^ 32) :
    ∃ o s', rewriteGlobalXpubVersions replacement { psbt, cursor := 0, acc } = (o, s') ∧
      Safe psbt o s'.psbt ∧
      ((o = .ok () ∧ ∃ keys, GlobalKeys psbt keys ∧
          GlobalKeys s'.psbt (replaceKeys replacement keys acc).1 ∧
          s'.acc = (replaceKeys replacement keys acc).2) ∨
        (∃ e, o = .err e) ∧ ∀ keys, ¬ GlobalKeys psbt keys) := by
  unfold rewriteGlobalXpubVersions
  rw [Prog.bind_ok _ (Prog.get_run _)]
  by_cases hmagic : PSBT_MAGIC.isPrefixOf psbt = true
  swap
  · rw [if_neg hmagic]
    have hnone : GlobalKeys psbt [] := by
      unfold GlobalKeys
      rw [if_neg hmagic]
    exact ⟨.ok (), _, rfl, ⟨nofun, rfl, fun _ _ => rfl, fun _ _ => rfl⟩,
      .inl ⟨rfl, [], hnone, hnone, rfl⟩⟩
  rw [if_pos hmagic, Prog.bind_ok _ (setCursor_run _ _)]
  have hle : PSBT_MAGIC.length ≤ psbt.length :=
    (List.isPrefixOf_iff_prefix.1 hmagic).length_le
  obtain ⟨o, s', hrun, hchanged, hresult⟩ := rewriteLoop_spec replacement (psbt.length + 1)
    { psbt, cursor := PSBT_MAGIC.length, acc } hlen hle
    (by show psbt.length < psbt.length + 1 + PSBT_MAGIC.length; omega)
  have hkept (i : Nat) (hi : ¬ VersionByte psbt i PSBT_MAGIC.length) : s'.psbt[i]? = psbt[i]? :=
    hchanged.kept i hi
  refine ⟨o, s', hrun, ⟨?_, hchanged.length_eq, fun i hi => hkept i fun h => hi ⟨hmagic, h⟩,
    fun i hi => hkept i hi.not_versionByte⟩, ?_⟩
  · rintro p rfl
    rcases hresult with ⟨ho, -⟩ | ⟨⟨e, ho⟩, -⟩ <;> cases ho
  · unfold GlobalKeys
    have hmagic' : PSBT_MAGIC.isPrefixOf s'.psbt = true := isPrefixOf_agree (fun i _ hi =>
      hkept i fun h => absurd h.le (Nat.not_le.2 hi)) hmagic
    rw [hmagic, hmagic']
    exact hresult

/-! ## 2. The keys -/

/-- A key once its version is a standard one -/
def normalizeKey (key : Key) : Key :=
  match xpubOf key with
  | some (version, keyData) =>
    match canonical version with
    | some standard => xpubKey standard keyData
    | none => key
  | none => key

/-- What is remembered of a key -/
def originalOf (key : Key) : Option OriginalGlobalXpubVersion :=
  match xpubOf key with
  | some (version, keyData) =>
    if (canonical version).isSome then some { keyData, version } else none
  | none => none

/-- A key once its version has been looked up -/
def restoreKey (originals : List OriginalGlobalXpubVersion) (key : Key) : Key :=
  match xpubOf key with
  | some (_, keyData) =>
    match originals.find? fun original => original.keyData = keyData with
    | some original => xpubKey original.version keyData
    | none => key
  | none => key

theorem replaceKeys_normalizing (keys : List Key) (originals : List OriginalGlobalXpubVersion) :
    replaceKeys normalizing keys originals =
      (keys.map normalizeKey, originals ++ keys.filterMap originalOf) := by
  induction keys generalizing originals with
  | nil => simp [replaceKeys]
  | cons key keys ih =>
    rw [replaceKeys, ih, List.map_cons]
    have hfirst : replaceKey normalizing key originals =
        (normalizeKey key, originals ++ (originalOf key).toList) := by
      unfold replaceKey normalizeKey originalOf
      cases xpubOf key with
      | none => simp
      | some p =>
        obtain ⟨version, keyData⟩ := p
        simp only [normalizing]
        cases canonical version with
        | none => simp
        | some standard => simp
    rw [hfirst, List.append_assoc, List.filterMap_cons]
    cases originalOf key <;> simp

theorem replaceKeys_restoring (originals : List OriginalGlobalXpubVersion) (keys : List Key) :
    replaceKeys (restoring originals) keys () = (keys.map (restoreKey originals), ()) := by
  induction keys with
  | nil => rfl
  | cons key keys ih =>
    have hfirst : replaceKey (restoring originals) key () = (restoreKey originals key, ()) := by
      unfold replaceKey restoreKey
      cases xpubOf key with
      | none => rfl
      | some p =>
        obtain ⟨version, keyData⟩ := p
        simp only [restoring]
        cases originals.find? fun original => original.keyData = keyData <;> rfl
    rw [replaceKeys, hfirst, ih]
    rfl

/-- Two keys of the same bytes, of which the first had a version that is not a standard one -/
def Clash (key key' : Key) : Prop :=
  key ≠ key' ∧ ∃ version version' keyData, xpubOf key = some (version, keyData) ∧
    xpubOf key' = some (version', keyData) ∧ (canonical version).isSome = true

theorem mem_filterMap_originalOf {original : OriginalGlobalXpubVersion}
    (h : original ∈ keys.filterMap originalOf) : ∃ key ∈ keys,
      xpubOf key = some (original.version, original.keyData) ∧
        (canonical original.version).isSome = true := by
  obtain ⟨key, hkey, horiginal⟩ := List.mem_filterMap.1 h
  refine ⟨key, hkey, ?_⟩
  unfold originalOf at horiginal
  cases hx : xpubOf key with
  | none =>
    rw [hx] at horiginal
    cases horiginal
  | some p =>
    obtain ⟨version, keyData⟩ := p
    rw [hx] at horiginal
    dsimp only at horiginal
    split at horiginal
    · next hsome =>
      cases horiginal
      exact ⟨rfl, hsome⟩
    · cases horiginal

/-- Normalizing leaves the bytes of a key as they are. -/
theorem xpubOf_normalizeKey {version : Version} {keyData : KeyData}
    (h : xpubOf key = some (version, keyData)) :
    xpubOf (normalizeKey key) = some ((canonical version).getD version, keyData) := by
  unfold normalizeKey
  rw [h]
  dsimp only
  cases canonical version with
  | none => exact h
  | some standard => exact xpubOf_xpubKey standard keyData

/-- What a key comes back as -/
theorem restoreKey_normalizeKey {version : Version} {keyData : KeyData}
    (h : xpubOf key = some (version, keyData)) :
    restoreKey originals (normalizeKey key) =
      match originals.find? fun original => original.keyData = keyData with
      | some original => xpubKey original.version keyData
      | none => normalizeKey key := by
  conv =>
    lhs
    unfold restoreKey
  rw [xpubOf_normalizeKey h]

theorem restoreKey_of_not_xpub (h : xpubOf key = none) :
    restoreKey originals (normalizeKey key) = key := by
  unfold restoreKey normalizeKey
  rw [h]
  dsimp only
  rw [h]

/-- Without a clash every key comes back as it was. -/
theorem restored_of_no_clash (hclash : ∀ key ∈ keys, ∀ key' ∈ keys, ¬ Clash key key')
    (hkey : key ∈ keys) :
    restoreKey (keys.filterMap originalOf) (normalizeKey key) = key := by
  cases hx : xpubOf key with
  | none => exact restoreKey_of_not_xpub hx
  | some p =>
    obtain ⟨version, keyData⟩ := p
    rw [restoreKey_normalizeKey hx]
    cases hfind : (keys.filterMap originalOf).find? fun original => original.keyData = keyData with
    | some original =>
      obtain ⟨key', hkey', hx', hsome⟩ := mem_filterMap_originalOf (List.mem_of_find?_eq_some hfind)
      have hdata : original.keyData = keyData := by simpa using List.find?_some hfind
      rw [hdata] at hx'
      -- the key that is found is this one
      have heq : key' = key := by
        by_contra hne
        exact hclash key' hkey' key hkey ⟨hne, _, _, _, hx', hx, hsome⟩
      exact (of_xpubOf hx').symm.trans heq
    | none =>
      unfold normalizeKey
      rw [hx]
      dsimp only
      cases hc : canonical version with
      | none => rfl
      | some standard =>
        have horiginal : ({ keyData, version } : OriginalGlobalXpubVersion) ∈
            keys.filterMap originalOf := by
          refine List.mem_filterMap.2 ⟨key, hkey, ?_⟩
          unfold originalOf
          rw [hx]
          dsimp only
          rw [hc]
          rfl
        have := List.find?_eq_none.1 hfind _ horiginal
        simp at this

/-- Of two keys that clash one is missing among those that come back. -/
theorem not_perm_of_clash {other : Key} (hkey : key ∈ keys) (hother : other ∈ keys)
    (hclash : Clash key other) :
    ¬ ((keys.map normalizeKey).map (restoreKey (keys.filterMap originalOf))).Perm keys := by
  obtain ⟨hne, version, version', keyData, hx, hx', hsome⟩ := hclash
  intro hperm
  have hmem : ({ keyData, version } : OriginalGlobalXpubVersion) ∈ keys.filterMap originalOf := by
    refine List.mem_filterMap.2 ⟨key, hkey, ?_⟩
    unfold originalOf
    rw [hx]
    exact if_pos hsome
  obtain ⟨original, hfind⟩ : ∃ original, ((keys.filterMap originalOf).find? fun original =>
      original.keyData = keyData) = some original := by
    refine Option.isSome_iff_exists.1 (List.find?_isSome.2 ⟨_, hmem, by simp⟩)
  -- every key of these bytes comes back with the version that is found
  have hall (k : Key) (hk : k ∈ keys) (v : Version) (hv : xpubOf k = some (v, keyData)) :
      k = xpubKey original.version keyData := by
    obtain ⟨k', hk', heq⟩ := List.mem_map.1 (hperm.mem_iff.2 hk)
    obtain ⟨k'', hk'', rfl⟩ := List.mem_map.1 hk'
    cases hx'' : xpubOf k'' with
    | none =>
      rw [restoreKey_of_not_xpub hx''] at heq
      rw [heq, hv] at hx''
      cases hx''
    | some p =>
      obtain ⟨v'', keyData''⟩ := p
      rw [restoreKey_normalizeKey hx''] at heq
      by_cases hdata : keyData'' = keyData
      · rw [hdata, hfind] at heq
        exact heq.symm
      · -- another key keeps its own bytes
        cases hfind' : (keys.filterMap originalOf).find? fun original =>
            original.keyData = keyData'' with
        | some original' =>
          rw [hfind'] at heq
          dsimp only at heq
          rw [← heq, xpubOf_xpubKey] at hv
          cases hv
          exact absurd rfl hdata
        | none =>
          rw [hfind'] at heq
          dsimp only at heq
          rw [← heq, xpubOf_normalizeKey hx''] at hv
          cases hv
          exact absurd rfl hdata
  exact hne ((hall key hkey version hx).trans (hall other hother version' hx').symm)

theorem restored_perm_iff (keys : List Key) :
    ((keys.map normalizeKey).map (restoreKey (keys.filterMap originalOf))).Perm keys ↔
      ∀ key ∈ keys, ∀ key' ∈ keys, ¬ Clash key key' := by
  constructor
  · intro hperm key hkey key' hkey' hclash
    exact not_perm_of_clash hkey hkey' hclash hperm
  · intro hclash
    have hid : (keys.map normalizeKey).map (restoreKey (keys.filterMap originalOf)) = keys := by
      rw [List.map_map]
      exact (List.map_congr_left fun key hkey => restored_of_no_clash hclash hkey).trans
        (List.map_id' keys)
    rw [hid]

/-! ## 3. Signing -/

/-- The signed PSBT that is emitted has the global keys of the one that came in. -/
def Survive (library : PsbtLibrary) (bytes : List UInt8)
    (originals : List OriginalGlobalXpubVersion) (signed : library.Psbt) : Prop :=
  ∃ out keys keys', serializePsbt library originals signed = .ok out ∧ GlobalKeys bytes keys ∧
    GlobalKeys out keys' ∧ keys'.Perm keys

/-- What is parsed, and what is remembered of it -/
theorem deserializePsbt_ok {library : PsbtLibrary} {bytes : List UInt8} {p : library.Psbt}
    (hlen : bytes.length < 2 ^ 32) (h : deserializePsbt library bytes = .ok (p, originals)) :
    ∃ normalized keys parsed, library.deserialize normalized = some parsed ∧
      p = library.restoreNestedOutputRedeemScripts parsed ∧ GlobalKeys bytes keys ∧
      GlobalKeys normalized (keys.map normalizeKey) ∧ originals = keys.filterMap originalOf := by
  obtain ⟨o, s, hrun, -, hresult⟩ := rewriteGlobalXpubVersions_spec normalizing [] hlen
  unfold deserializePsbt normalizeGlobalXpubVersions at h
  rw [hrun] at h
  rcases hresult with ⟨rfl, keys, hkeys, hkeys', hacc⟩ | ⟨⟨e, rfl⟩, -⟩
  · rw [replaceKeys_normalizing, List.nil_append] at hkeys' hacc
    dsimp only at h
    split at h
    · next parsed hparsed =>
      cases h
      exact ⟨s.psbt, keys, parsed, hparsed, rfl, hkeys, hkeys', hacc⟩
    · cases h
  · cases h

theorem serializePsbt_ok {library : PsbtLibrary} (originals : List OriginalGlobalXpubVersion)
    (signed : library.Psbt)
    (hlen : (library.serialize signed).length < 2 ^ 32)
    (hkeys : GlobalKeys (library.serialize signed) keys) :
    ∃ out, serializePsbt library originals signed = .ok out ∧
      GlobalKeys out (keys.map (restoreKey originals)) := by
  obtain ⟨o, s, hrun, -, hresult⟩ := rewriteGlobalXpubVersions_spec (restoring originals) () hlen
  unfold serializePsbt restoreGlobalXpubVersions
  rw [hrun]
  rcases hresult with ⟨rfl, keys', hkeys', hout, -⟩ | ⟨-, hno⟩
  · rw [replaceKeys_restoring, hkeys.unique hkeys'] at hout
    exact ⟨s.psbt, rfl, hout⟩
  · exact absurd hkeys (hno keys)

/-- Both rewritings are safe on every text. And where the library emits the global keys that it has
read, in some order, every global key of a PSBT that is accepted has its version again after signing
if and only if no two of them have the same bytes and one of them a version of SLIP-132. -/
theorem versions_survive_iff (library : PsbtLibrary) (sign : library.Psbt → library.Psbt)
    (hlength : ∀ p, (library.serialize p).length < 2 ^ 32)
    (hserialize : ∀ bytes parsed keys, library.deserialize bytes = some parsed →
      GlobalKeys bytes keys → ∃ keys', GlobalKeys
        (library.serialize (sign (library.restoreNestedOutputRedeemScripts parsed))) keys' ∧
        keys'.Perm keys) :
    (∀ psbt, psbt.length < 2 ^ 32 →
      Safe psbt (normalizeGlobalXpubVersions psbt).1 (normalizeGlobalXpubVersions psbt).2.psbt ∧
      ∀ originals, Safe psbt (restoreGlobalXpubVersions psbt originals).1
        (restoreGlobalXpubVersions psbt originals).2.psbt) ∧
    ∀ bytes p originals, bytes.length < 2 ^ 32 →
      deserializePsbt library bytes = .ok (p, originals) →
      (Survive library bytes originals (sign p) ↔
        ∀ keys, GlobalKeys bytes keys → ∀ key ∈ keys, ∀ key' ∈ keys, ¬ Clash key key') := by
  refine ⟨fun psbt hlen => ⟨?_, fun originals => ?_⟩, fun bytes p originals hlen hparse => ?_⟩
  · obtain ⟨o, s, hrun, hsafe, -⟩ := rewriteGlobalXpubVersions_spec normalizing [] hlen
    rw [normalizeGlobalXpubVersions, hrun]
    exact hsafe
  · obtain ⟨o, s, hrun, hsafe, -⟩ := rewriteGlobalXpubVersions_spec (restoring originals) () hlen
    rw [restoreGlobalXpubVersions, hrun]
    exact hsafe
  · obtain ⟨normalized, keys, parsed, hparsed, rfl, hkeys, hnormalized, horiginals⟩ :=
      deserializePsbt_ok hlen hparse
    obtain ⟨emitted, hemitted, hperm⟩ := hserialize normalized parsed _ hparsed hnormalized
    obtain ⟨out, hout, hkeysOut⟩ := serializePsbt_ok originals _ (hlength _) hemitted
    have hrestored := hperm.map (restoreKey originals)
    rw [horiginals] at hrestored
    have hiff : Survive library bytes originals
        (sign (library.restoreNestedOutputRedeemScripts parsed)) ↔
        ((keys.map normalizeKey).map (restoreKey (keys.filterMap originalOf))).Perm keys := by
      constructor
      · rintro ⟨out', keys₁, keys₂, hout', hkeys₁, hkeys₂, hsame⟩
        cases hout.symm.trans hout'
        obtain rfl := hkeys.unique hkeys₁
        obtain rfl := hkeysOut.unique hkeys₂
        rw [horiginals] at hsame
        exact hrestored.symm.trans hsame
      · intro hsame
        refine ⟨out, keys, _, hout, hkeys, hkeysOut, ?_⟩
        rw [horiginals]
        exact hrestored.trans hsame
    rw [hiff, restored_perm_iff]
    constructor
    · intro h keys' hkeys'
      obtain rfl := hkeys.unique hkeys'
      exact h
    · exact fun h => h keys hkeys

/-! ## 4. Two PSBTs -/

/-- The master key of a well-known test vector -/
def masterKey : KeyData := ⟨[
  0x00, 0x00, 0x00, 0x00, 0x00, 0x00, 0x00, 0x00, 0x00, 0x87, 0x3d, 0xff, 0x81, 0xc0, 0x2f,
  0x52, 0x56, 0x23, 0xfd, 0x1f, 0xe5, 0x16, 0x7e, 0xac, 0x3a, 0x55, 0xa0, 0x49, 0xde, 0x3d,
  0x31, 0x4b, 0xb4, 0x2e, 0xe2, 0x27, 0xff, 0xed, 0x37, 0xd5, 0x08, 0x03, 0x39, 0xa3, 0x60,
  0x13, 0x30, 0x15, 0x97, 0xda, 0xef, 0x41, 0xfb, 0xe5, 0x93, 0xa0, 0x2c, 0xc5, 0x13, 0xd0,
  0xb5, 0x55, 0x27, 0xec, 0x2d, 0xf1, 0x05, 0x0e, 0x2e, 0x8f, 0xf4, 0x9c, 0x85, 0xc2], rfl⟩

/-- An xpub of the master key, with its fingerprint and path -/
def xpubRecord (version : Version) : List UInt8 :=
  0x4f :: xpubKey version masterKey ++ [0x04, 0, 0, 0, 0]

/-- A PSBT without inputs and outputs, and with global xpubs of one key -/
def psbtOf (versions : List Version) : List UInt8 :=
  PSBT_MAGIC ++ [0x01, 0x00, 0x0a, 0x02, 0, 0, 0, 0, 0, 0, 0, 0, 0] ++ versions.flatMap xpubRecord ++
    [0x00]

/-- A library that has one PSBT, and reads and writes it in one way -/
def libraryOf (versions : List Version) : PsbtLibrary where
  Psbt := Unit
  deserialize bytes := if bytes = psbtOf versions then some () else none
  serialize _ := psbtOf versions
  restoreNestedOutputRedeemScripts := id

theorem globalKeys_psbtOf {versions : List Version}
    (h : keysFrom (psbtOf versions) 4 PSBT_MAGIC.length =
      some ([0x00] :: versions.map fun version => xpubKey version masterKey)) :
    GlobalKeys (psbtOf versions) ([0x00] :: versions.map fun version => xpubKey version masterKey) := by
  unfold GlobalKeys
  have hmagic : PSBT_MAGIC.isPrefixOf (psbtOf versions) = true := by
    simp [psbtOf, PSBT_MAGIC, List.isPrefixOf]
  rw [if_pos hmagic]
  exact .of_keysFrom h

theorem versions_survive_iff_ypub :
    Survive (libraryOf [XPUB_VERSION]) (psbtOf [MULTISIG_YPUB_VERSION])
      [{ keyData := masterKey, version := MULTISIG_YPUB_VERSION }] () := by
  have hlength : (psbtOf [XPUB_VERSION]).length < 2 ^ 32 := by decide
  refine ((versions_survive_iff (libraryOf [XPUB_VERSION]) id (fun _ => hlength) ?_).2
    (psbtOf [MULTISIG_YPUB_VERSION]) () _ (by decide) (by rfl)).2 fun keys hread => ?_
  · intro bytes parsed keys hparse hread
    have hbytes : bytes = psbtOf [XPUB_VERSION] := by
      by_contra hne
      have hnone : (libraryOf [XPUB_VERSION]).deserialize bytes = none := if_neg hne
      cases hparse.symm.trans hnone
    subst hbytes
    exact ⟨keys, hread, List.Perm.refl keys⟩
  · -- the key of the transaction, and one xpub
    have hypub : GlobalKeys (psbtOf [MULTISIG_YPUB_VERSION]) _ := globalKeys_psbtOf (by decide +kernel)
    obtain rfl := hypub.unique hread
    have honly (k : Key) (hk : k ∈ [0x00] :: [MULTISIG_YPUB_VERSION].map fun version =>
        xpubKey version masterKey) (hx : xpubOf k ≠ none) :
        k = xpubKey MULTISIG_YPUB_VERSION masterKey := by
      rcases List.mem_cons.1 hk with rfl | hk
      · exact absurd rfl hx
      · exact List.mem_singleton.1 hk
    rintro key hkey key' hkey' ⟨hne, version, version', keyData, hx, hx', -⟩
    exact hne ((honly key hkey (hx ▸ nofun)).trans (honly key' hkey' (hx' ▸ nofun)).symm)

set_option maxRecDepth 8192 in
/-- With a ypub and a tpub of the same key the tpub comes back as another ypub. -/
theorem tpub_becomes_ypub :
    deserializePsbt (libraryOf [XPUB_VERSION, TPUB_VERSION])
        (psbtOf [MULTISIG_YPUB_VERSION, TPUB_VERSION]) =
      .ok ((), [{ keyData := masterKey, version := MULTISIG_YPUB_VERSION }]) ∧
    serializePsbt (libraryOf [XPUB_VERSION, TPUB_VERSION])
        [{ keyData := masterKey, version := MULTISIG_YPUB_VERSION }] () =
      .ok (psbtOf [MULTISIG_YPUB_VERSION, MULTISIG_YPUB_VERSION]) ∧
    ¬ Survive (libraryOf [XPUB_VERSION, TPUB_VERSION])
        (psbtOf [MULTISIG_YPUB_VERSION, TPUB_VERSION])
        [{ keyData := masterKey, version := MULTISIG_YPUB_VERSION }] () := by
  have hout : serializePsbt (libraryOf [XPUB_VERSION, TPUB_VERSION])
      [{ keyData := masterKey, version := MULTISIG_YPUB_VERSION }] () =
      .ok (psbtOf [MULTISIG_YPUB_VERSION, MULTISIG_YPUB_VERSION]) := by rfl
  refine ⟨by rfl, hout, ?_⟩
  rintro ⟨out, keys, keys', hout', hkeys, hkeys', hperm⟩
  cases hout.symm.trans hout'
  have hin : GlobalKeys (psbtOf [MULTISIG_YPUB_VERSION, TPUB_VERSION]) _ :=
    globalKeys_psbtOf (by decide +kernel)
  have hback : GlobalKeys (psbtOf [MULTISIG_YPUB_VERSION, MULTISIG_YPUB_VERSION]) _ :=
    globalKeys_psbtOf (by decide +kernel)
  obtain rfl := hin.unique hkeys
  obtain rfl := hback.unique hkeys'
  revert hperm
  decide +kernel

end Bitcoin.Xpubs
