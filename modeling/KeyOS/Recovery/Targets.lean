import KeyOS.Recovery.Changes

/-!
# The directories of the apps and assets

Every name that `tar_verify` takes for an asset, and every directory of an app, has its place below
one of four directories, whatever else the name holds. Below them recovery leaves no file that it
has not checked, but for what it did not wipe.
-/

namespace Recovery

open FatTree

/-! ## 1. Places -/

/-- `keyos/common` -/
def COMMON : Path := [KEYOS, "COMMON".toList]

/-- `blassets` -/
def BLASSETS : Path := ["BLASSETS".toList]

/-- `common`, of the boot partition -/
def BOOT_COMMON : Path := ["COMMON".toList]

def targetRoots : Location → List Path
  | .system => [APPS, COMMON]
  | .boot => [BLASSETS, BOOT_COMMON]

/-- Below one of the directories -/
def Target (l : Location) (q : Path) : Prop := ∃ root ∈ targetRoots l, root <+: q

variable (P : Platform)

theorem fold_literal {part : List Char} (hascii : part.all (·.toNat < 128) = true) (name : Name)
    (h : part.map Char.toUpper = name) : P.fold part = name := by
  have hchars : ∀ c ∈ part, c.toNat < 128 := fun c hc =>
    of_decide_eq_true (List.all_eq_true.1 hascii c hc)
  exact (P.fold_ascii _ hchars).trans h

theorem fsPath_cons {part : List Char} (parts : TarPath) (h : isPathPart part = true) :
    fsPath P (part :: parts) = P.fold part :: fsPath P parts := by
  unfold fsPath
  rw [List.filter_cons_of_pos h, List.map_cons]

theorem fsPath_apps (parts : TarPath) :
    fsPath P ("keyos".toList :: "apps".toList :: parts) = APPS ++ fsPath P parts := by
  rw [fsPath_cons P _ (by decide), fsPath_cons P _ (by decide),
    fold_literal P (by decide) KEYOS (by decide),
    fold_literal P (by decide) "APPS".toList (by decide)]
  rfl

theorem fsPath_common (parts : TarPath) :
    fsPath P ("keyos".toList :: "common".toList :: parts) = COMMON ++ fsPath P parts := by
  rw [fsPath_cons P _ (by decide), fsPath_cons P _ (by decide),
    fold_literal P (by decide) KEYOS (by decide),
    fold_literal P (by decide) "COMMON".toList (by decide)]
  rfl

theorem fsPath_blassets (parts : TarPath) :
    fsPath P ("blassets".toList :: parts) = BLASSETS ++ fsPath P parts := by
  rw [fsPath_cons P _ (by decide), fold_literal P (by decide) "BLASSETS".toList (by decide)]
  rfl

theorem fsPath_bootCommon (parts : TarPath) :
    fsPath P ("common".toList :: parts) = BOOT_COMMON ++ fsPath P parts := by
  rw [fsPath_cons P _ (by decide), fold_literal P (by decide) "COMMON".toList (by decide)]
  rfl

theorem targetRoots_plain {l : Location} {root : Path} (h : root ∈ targetRoots l) : Plain root := by
  unfold Plain
  revert root
  cases l <;> decide

theorem target_resolve {l : Location} {raw root : Path} (hroot : root ∈ targetRoots l)
    (hpre : root <+: raw) (t : Tree) : ∀ q, t.resolve raw <+: q → Target l q := fun _ hq =>
  ⟨root, hroot, ((targetRoots_plain hroot).prefix_resolve hpre t).trans hq⟩

/-- The names that an asset can have -/
inductive AssetShape : Location → TarPath → Prop
  | apps (version : List Char) (parts : TarPath) :
    AssetShape .system (version :: "keyos".toList :: "apps".toList :: parts)
  | common (version : List Char) (parts : TarPath) :
    AssetShape .system (version :: "keyos".toList :: "common".toList :: parts)
  | blassets (version : List Char) (parts : TarPath) :
    AssetShape .boot (version :: "blassets".toList :: parts)
  | commonBoot (version : List Char) (parts : TarPath) :
    AssetShape .boot (version :: "common-boot".toList :: parts)

theorem eq_cons_cons (parts : TarPath) {a : List Char} (h : parts[1]? = some a) :
    ∃ version rest, parts = version :: a :: rest := by
  match parts, h with
  | version :: b :: rest, h => exact ⟨version, rest, by rw [Option.some.inj h]⟩

theorem classify_asset {parts : TarPath} {l : Location} (h : classify parts = .asset l) :
    AssetShape l parts := by
  unfold classify at h
  split at h
  · cases h
  split at h
  next hresource =>
    cases h
    rw [Bool.and_eq_true, isAppDir, Bool.and_eq_true] at hresource
    obtain ⟨⟨hkeyos, happs⟩, -⟩ := hresource
    obtain ⟨version, rest, rfl⟩ := eq_cons_cons _ (of_decide_eq_true hkeyos)
    obtain ⟨a, rest, heq⟩ := eq_cons_cons ("keyos".toList :: rest) (of_decide_eq_true happs)
    rw [List.cons.injEq] at heq
    rw [heq.2]
    exact .apps version rest
  split at h
  next hcommon =>
    cases h
    rw [Bool.and_eq_true] at hcommon
    obtain ⟨hkeyos, hcommon⟩ := hcommon
    obtain ⟨version, rest, rfl⟩ := eq_cons_cons _ (of_decide_eq_true hkeyos)
    obtain ⟨a, rest, heq⟩ :=
      eq_cons_cons ("keyos".toList :: rest) (of_decide_eq_true hcommon)
    rw [List.cons.injEq] at heq
    rw [heq.2]
    exact .common version rest
  split at h
  next hboot =>
    cases h
    rw [Bool.or_eq_true] at hboot
    rcases hboot with hboot | hboot
    · obtain ⟨version, rest, rfl⟩ := eq_cons_cons _ (of_decide_eq_true hboot)
      exact .blassets version rest
    · obtain ⟨version, rest, rfl⟩ := eq_cons_cons _ (of_decide_eq_true hboot)
      exact .commonBoot version rest
  split at h
  · cases h
  split at h
  · cases h
  split at h
  · cases h
  split at h
  · cases h
  split at h
  · cases h
  · cases h

/-- An asset and the root that is wiped for it have their place below one of the directories. -/
theorem AssetShape.target {l : Location} {asset : TarPath} (h : AssetShape l asset) :
    (∃ root ∈ targetRoots l, root <+: fsPath P (assetTarPathToFsPath asset l)) ∧
      ∀ root, assetFsPathToWipeRoot (assetTarPathToFsPath asset l) l = some root →
        ∃ root' ∈ targetRoots l, root' <+: fsPath P root := by
  cases h with
  | apps version parts =>
    have hpath : assetTarPathToFsPath (version :: "keyos".toList :: "apps".toList :: parts) .system =
        "keyos".toList :: "apps".toList :: parts := by
      rw [assetTarPathToFsPath, if_pos]
      · rfl
      · exact List.mem_cons_self
    rw [hpath]
    refine ⟨⟨APPS, List.mem_cons_self, ?_⟩, fun root hroot => ⟨APPS, List.mem_cons_self, ?_⟩⟩
    · rw [fsPath_apps]
      exact List.prefix_append _ _
    · unfold assetFsPathToWipeRoot at hroot
      dsimp only at hroot
      split at hroot
      · cases hroot
      · cases hroot
        unfold rootDepth
        dsimp only
        split
        · rw [List.take_succ_cons, List.take_succ_cons, fsPath_apps]
          exact List.prefix_append _ _
        · rw [List.take_succ_cons, List.take_succ_cons, fsPath_apps]
          exact List.prefix_append _ _
  | common version parts =>
    have hpath :
        assetTarPathToFsPath (version :: "keyos".toList :: "common".toList :: parts) .system =
          "keyos".toList :: "common".toList :: parts := by
      rw [assetTarPathToFsPath, if_pos]
      · rfl
      · exact List.mem_cons_self
    have hmem : COMMON ∈ targetRoots .system := List.mem_cons_of_mem _ List.mem_cons_self
    rw [hpath]
    refine ⟨⟨COMMON, hmem, ?_⟩, fun root hroot => ⟨COMMON, hmem, ?_⟩⟩
    · rw [fsPath_common]
      exact List.prefix_append _ _
    · unfold assetFsPathToWipeRoot at hroot
      dsimp only at hroot
      split at hroot
      · cases hroot
      · cases hroot
        unfold rootDepth
        dsimp only
        split
        · rw [List.take_succ_cons, List.take_succ_cons, fsPath_common]
          exact List.prefix_append _ _
        · rw [List.take_succ_cons, List.take_succ_cons, fsPath_common]
          exact List.prefix_append _ _
  | blassets version parts =>
    have hpath : assetTarPathToFsPath (version :: "blassets".toList :: parts) .boot =
        "blassets".toList :: parts := rfl
    rw [hpath]
    refine ⟨⟨BLASSETS, List.mem_cons_self, ?_⟩, fun root hroot => ⟨BLASSETS, List.mem_cons_self, ?_⟩⟩
    · rw [fsPath_blassets]
      exact List.prefix_append _ _
    · unfold assetFsPathToWipeRoot at hroot
      dsimp only [rootDepth] at hroot
      split at hroot
      · cases hroot
      · cases hroot
        rw [List.take_succ_cons, fsPath_blassets]
        exact List.prefix_append _ _
  | commonBoot version parts =>
    have hpath : assetTarPathToFsPath (version :: "common-boot".toList :: parts) .boot =
        "common".toList :: parts := rfl
    have hmem : BOOT_COMMON ∈ targetRoots .boot := List.mem_cons_of_mem _ List.mem_cons_self
    rw [hpath]
    refine ⟨⟨BOOT_COMMON, hmem, ?_⟩, fun root hroot => ⟨BOOT_COMMON, hmem, ?_⟩⟩
    · rw [fsPath_bootCommon]
      exact List.prefix_append _ _
    · unfold assetFsPathToWipeRoot at hroot
      dsimp only [rootDepth] at hroot
      split at hroot
      · cases hroot
      · cases hroot
        rw [List.take_succ_cons, fsPath_bootCommon]
        exact List.prefix_append _ _

/-- The directory of an app is below that of the apps. -/
theorem appDir_target {app dir : TarPath} (h : appTarPathToFsDir app = some dir) (name : TarPath) :
    APPS <+: fsPath P (dir ++ name) := by
  unfold appTarPathToFsDir at h
  split at h
  next keyos apps part parts heq =>
    split at h
    next hnames =>
      rw [Bool.and_eq_true] at hnames
      cases h
      rw [of_decide_eq_true hnames.1, of_decide_eq_true hnames.2, List.cons_append, List.cons_append,
        fsPath_apps]
      exact List.prefix_append _ _
    next => cases h
  next => cases h

/-! ## 2. Archives that were scanned -/

def Binary.isBootloader : Binary → Bool
  | .app => false
  | .recovery => false
  | .bootBin => true
  | .bootCip => true

/-- Assets are names that are taken for assets, and no bootloader is taken for the OS. -/
structure Scan.Sorted (scan : Scan) : Prop where
  assets : ∀ asset ∈ scan.assets, classify asset.1 = .asset asset.2
  os : ∀ binary, scan.osBinary = some binary → binary.isBootloader = false
  bootloader : ∀ binary, scan.bootloader = some binary → binary.isBootloader = true

structure Scanned (v : ValidArchive) : Prop where
  assets : ∀ asset ∈ v.assets, classify asset.1 = .asset asset.2
  os : v.osBinary.isBootloader = false
  bootloader : ∀ binary, v.bootloader = some binary → binary.isBootloader = true

theorem classify_binary {parts : TarPath} {binary : Binary} :
    (classify parts = .os binary → binary.isBootloader = false) ∧
      (classify parts = .bootloader binary → binary.isBootloader = true) := by
  unfold classify
  split
  · exact ⟨nofun, nofun⟩
  split
  · exact ⟨nofun, nofun⟩
  split
  · exact ⟨nofun, nofun⟩
  split
  · exact ⟨nofun, nofun⟩
  split
  · refine ⟨nofun, fun h => ?_⟩
    cases h
    rfl
  split
  · refine ⟨nofun, fun h => ?_⟩
    cases h
    rfl
  split
  · refine ⟨fun h => ?_, nofun⟩
    cases h
    rfl
  split
  · refine ⟨fun h => ?_, nofun⟩
    cases h
    rfl
  split
  · exact ⟨nofun, nofun⟩
  · exact ⟨nofun, nofun⟩

theorem Scan.Sorted.noteVersion {scan : Scan} (h : scan.Sorted) (parts : TarPath) :
    (scan.noteVersion parts).Sorted := by
  unfold Scan.noteVersion
  split
  · exact h
  · split
    · exact ⟨h.assets, h.os, h.bootloader⟩
    · exact h

theorem scanEntry_sorted {scan scan' : Scan} {entry : Entry} (h : scan.Sorted)
    (hscan : scanEntry P scan entry = some scan') : scan'.Sorted := by
  have hnoted := h.noteVersion (pathParts entry.name)
  unfold scanEntry at hscan
  split at hscan
  · cases hscan
    exact h
  dsimp only at hscan
  split at hscan
  · cases hscan
    exact ⟨hnoted.assets, hnoted.os, hnoted.bootloader⟩
  next l hkind =>
    cases hscan
    refine ⟨fun asset hasset => ?_, hnoted.os, hnoted.bootloader⟩
    rcases List.mem_append.1 hasset with hasset | hasset
    · exact hnoted.assets asset hasset
    · rw [List.mem_singleton.1 hasset]
      exact hkind
  next binary hkind =>
    cases hscan
    refine ⟨hnoted.assets, hnoted.os, fun other hother => ?_⟩
    cases hother
    exact classify_binary.2 hkind
  next binary hkind =>
    cases hscan
    refine ⟨hnoted.assets, fun other hother => ?_, hnoted.bootloader⟩
    cases hother
    exact classify_binary.1 hkind
  · split at hscan
    · cases hscan
    · cases hscan
      exact ⟨hnoted.assets, hnoted.os, hnoted.bootloader⟩
  · cases hscan
    exact hnoted

theorem emptyScan_sorted : emptyScan.Sorted := ⟨nofun, nofun, nofun⟩

theorem foldlM_scanEntry {entries : List Entry} {scan scan' : Scan} (h : scan.Sorted)
    (hscan : entries.foldlM (scanEntry P) scan = some scan') : scan'.Sorted := by
  induction entries generalizing scan with
  | nil =>
    cases hscan
    exact h
  | cons entry entries ih =>
    rw [List.foldlM_cons] at hscan
    obtain ⟨scan₁, hfirst, hrest⟩ := Option.bind_eq_some_iff.1 hscan
    exact ih (scanEntry_sorted P h hfirst) hrest

theorem tarVerify_scanned {fault : Bool} {archive : Bytes} {v : ValidArchive}
    (h : tarVerify P fault archive = some v) : Scanned v := by
  unfold tarVerify at h
  split at h
  · cases h
  split at h
  · cases h
  next scan hscan =>
    have hsorted := foldlM_scanEntry P emptyScan_sorted hscan
    split at h
    next hos =>
      cases h
      exact ⟨hsorted.assets, hsorted.os _ hos, hsorted.bootloader⟩
    · cases h

end Recovery
