import KeyOS.Recovery.Rollback

/-!
# What a failed recovery leaves

A recovery that fails leaves every binary as it was or as the image that was verified, the recorded
timestamp and the marker in step with the OS, and the apps and assets in place if the archive lacks
one of them. This takes that no call fails at a few places (`Careful`): the renames that put a
binary back, the renames before a timestamp is recorded, the calls on the marker, and that the
directories of the apps and assets are empty if the archive lacks an app or asset.
-/

namespace Recovery

open FatTree

variable {P : Platform} {s s' : State} {v : ValidArchive} {binary : Binary} {t t' : Tree}
  {data : Bytes} {f : BinaryFaults}

/-! ## 1. The bootloader -/

/-- The bootloader is the image that was verified for the archive, without its header. -/
def BootloaderSwapped (P : Platform) (v : ValidArchive) (binary : Binary) (s s' : State) : Prop :=
  ∃ data header last, s.bootloaderBuildDate = some last ∧ IsImage P v binary last data header ∧
    (s'.disk.at binary.location).file? binary.finalName = some (data.drop P.headerSize)

/-- The disk after a bootloader was finalized -/
theorem finalizeBootloader_disk (f : BinaryFaults) (binary : Binary) {hash : Hash} {timestamp : Nat} {pre : Bool}
    (hstate : s.bootloader = .copied hash timestamp pre) :
    (finalizeOsBinary f true binary s).2.disk =
      s.disk.set binary.location (swapBinary f binary (s.disk.at binary.location)).2 := by
  unfold finalizeOsBinary State.binary
  rw [if_pos rfl, hstate]
  dsimp only
  rw [if_pos (Bool.or_true _)]
  rfl

theorem replaceBootloader_disk (f : StartFaults) (s : State) {s₁ : State}
    (hbinary : v.bootloader = some binary)
    (heq : copyBinary P f.bootloader true binary s = (true, s₁)) :
    (replaceBootloader P f v s).2.disk = (finalizeOsBinary f.bootloader true binary s₁).2.disk := by
  unfold replaceBootloader
  rw [hbinary]
  dsimp only
  rw [heq]
  dsimp only
  split
  next heq' => rw [heq']
  next heq' => rw [heq']

theorem replaceBootloader_names {f : StartFaults} (h : Good P s) (hv : s.archive = .copied v)
    (hback : f.bootloader.renameNew = true → f.bootloader.renameBack = true →
      f.bootloader.renameOld = true) (hbinary : v.bootloader = some binary) {old : Bytes}
    (hold : (s.disk.at binary.location).file? binary.finalName = some old) :
    ((replaceBootloader P f v s).2.disk.at binary.location).file? binary.finalName = some old ∨
      BootloaderSwapped P v binary s (replaceBootloader P f v s).2 := by
  have hlisted : v.binary true = some binary := hbinary
  rcases hcopy : copyBinary P f.bootloader true binary s with ⟨copied, s₁⟩
  cases copied with
  | false =>
    have hresult : (replaceBootloader P f v s).2 = s₁ := by
      unfold replaceBootloader
      rw [hbinary]
      dsimp only
      rw [hcopy]
    rcases copyBinary_cases P s true binary f.bootloader with
      ⟨d, hd, hfalse⟩ | ⟨_, _, _, _, _, _, -, -, -, htrue⟩
    · rw [hcopy] at hfalse
      cases hfalse
      rw [hresult]
      exact .inl ((hd.file? fun hq => copying_apart_final true binary binary (.inl hq)).trans hold)
    · rw [hcopy] at htrue
      cases htrue
  | true =>
    obtain ⟨hgood₁, hconfined₁, hcopied⟩ := copyBinary_copied h hv hlisted hcopy
    obtain ⟨data, header, last, size, pre, hheld, -, hstate, hnew⟩ := hcopied.image
    have hfinal₁ := (hconfined₁.file? (copying_apart_final true binary binary)).trans hold
    have hdisk := (replaceBootloader_disk (P := P) f s hbinary hcopy).trans
      (finalizeBootloader_disk f.bootloader binary hstate)
    rw [BootloaderSwapped, hdisk, Disk.at_set_self]
    rcases hswap : swapBinary f.bootloader binary (s₁.disk.at binary.location) with ⟨renamed, t⟩
    cases renamed with
    | true =>
      have hbytes : copiedBytes P true size data = data.drop P.headerSize := by
        unfold copiedBytes
        rw [if_pos rfl, hheld.size, List.take_of_length_le]
        rw [List.length_drop]
      refine .inr ⟨data, header, last, hheld.recorded, hheld.image, ?_⟩
      rw [← hbytes]
      exact swapBinary_ok hnew hswap
    | false =>
      exact .inl (swapBinary_back (hgood₁.mounted.closed binary.location) hfinal₁ hnew hback hswap)

/-! ## 2. Apps and assets -/

/-- The archive has the bootloader, and the manifest lists it. -/
def BootloaderListed (P : Platform) (v : ValidArchive) (disk : Disk) : Prop :=
  ∀ binary, v.bootloader = some binary → ∃ data header,
    tarReadFile P false (binaryTarPath v.version binary) disk = some data ∧
    verifyCosign2 P data = some header ∧
    verifyManifestHash v.manifest (binaryTarPath v.version binary) header.binaryHash = true

/-- The archive has an ELF and a manifest of the app, and the manifest of the archive lists them. -/
def AppListed (P : Platform) (v : ValidArchive) (disk : Disk) (app : TarPath) : Prop :=
  (∃ elf, tarReadFile P false (elfPath app) disk = some elf ∧
    elfListed P v.manifest (elfPath app) elf = true) ∧
  ∃ data, tarReadFile P false (appManifestPath app) disk = some data ∧
    fileListed P v.manifest (appManifestPath app) data = true

def AssetListed (P : Platform) (v : ValidArchive) (disk : Disk) (asset : TarPath) : Prop :=
  ∃ data, tarReadFile P false asset disk = some data ∧ fileListed P v.manifest asset data = true

/-- Every app and asset of the archive is there, and listed. -/
def FilesListed (P : Platform) (v : ValidArchive) (disk : Disk) : Prop :=
  (∀ app ∈ v.apps, AppListed P v disk app) ∧ ∀ asset ∈ v.assets, AssetListed P v disk asset.1

section

variable {d d' : Disk} {S : Location → Path → Prop}

theorem FilesListed.kept (hc : Confined S d d') (hS : ¬ S .system TEMP_ARCHIVE_PATH)
    (h : FilesListed P v d') : FilesListed P v d := by
  have hread (path : TarPath) := tarReadFile_kept (P := P) hc hS false path
  refine ⟨fun app happ => ?_, fun asset hasset => ?_⟩
  · obtain ⟨⟨elf, helf, hlisted⟩, data, hdata, hlisted'⟩ := h.1 app happ
    exact ⟨⟨elf, (hread _).symm.trans helf, hlisted⟩, data, (hread _).symm.trans hdata, hlisted'⟩
  · obtain ⟨data, hdata, hlisted⟩ := h.2 asset hasset
    exact ⟨data, (hread _).symm.trans hdata, hlisted⟩

/-- A check that does not stop has succeeded. -/
theorem listed_of_check {fault listed : Bool} (h : ¬ (fault || !listed) = true) : listed = true := by
  cases listed with
  | true => rfl
  | false =>
    rw [Bool.not_false, Bool.or_true] at h
    exact (h rfl).elim

theorem copyApp_listed {f : AppFaults} {app : TarPath} (h : copyApp P f v app d = (true, d')) :
    AppListed P v d app := by
  unfold copyApp at h
  split at h
  next => cases h
  next elf helf =>
    split at h
    next => cases h
    next hcheck =>
      split at h
      next => cases h
      next dir hdir =>
        have hcopy := copyElf_confined (P := P) f v app elf d hdir
        split at h
        next => cases h
        next d₁ heq =>
          rw [heq] at hcopy
          refine ⟨⟨elf, tarReadFile_of_fault helf, listed_of_check hcheck⟩, ?_⟩
          unfold copyAppManifest at h
          split at h
          next => cases h
          next data hdata =>
            split at h
            next => cases h
            next hcheck' =>
              refine ⟨data, ?_, listed_of_check hcheck'⟩
              rw [← tarReadFile_kept hcopy target_apart_archive false (appManifestPath app)]
              exact tarReadFile_of_fault hdata

theorem copyApps_listed {f : Nat → AppFaults} {i : Nat} {apps : List TarPath}
    (h : copyApps P f v i d apps = (true, d')) : ∀ app ∈ apps, AppListed P v d app := by
  induction apps generalizing i d with
  | nil => nofun
  | cons app apps ih =>
    have hconfined := copyApp_confined (P := P) (f i) v app d
    unfold copyApps at h
    split at h
    next => cases h
    next d₁ heq =>
      rw [heq] at hconfined
      have hread (path : TarPath) := tarReadFile_kept (P := P) hconfined target_apart_archive false path
      intro a ha
      rcases List.mem_cons.1 ha with rfl | ha
      · exact copyApp_listed heq
      · obtain ⟨⟨elf, helf, hlisted⟩, data, hdata, hlisted'⟩ := ih h a ha
        exact ⟨⟨elf, (hread _).symm.trans helf, hlisted⟩, data, (hread _).symm.trans hdata, hlisted'⟩

theorem copyAssets_listed {f : Nat → AssetFaults} {i : Nat} {assets : List (TarPath × Location)}
    (hshape : ∀ asset ∈ assets, AssetShape asset.2 asset.1)
    (h : copyAssets P f v i d assets = (true, d')) : ∀ asset ∈ assets, AssetListed P v d asset.1 := by
  induction assets generalizing i d with
  | nil => nofun
  | cons asset assets ih =>
    have hconfined := copyAsset_confined (P := P) (f i) v d (hshape asset List.mem_cons_self)
    unfold copyAssets at h
    split at h
    next => cases h
    next d₁ heq =>
      rw [heq] at hconfined
      intro a ha
      rcases List.mem_cons.1 ha with rfl | ha
      · unfold copyAsset at heq
        split at heq
        next => cases heq
        next data hdata =>
          split at heq
          next => cases heq
          next hcheck => exact ⟨data, tarReadFile_of_fault hdata, listed_of_check hcheck⟩
      · obtain ⟨data, hdata, hlisted⟩ :=
          ih (fun b hb => hshape b (List.mem_cons_of_mem _ hb)) h a ha
        exact ⟨data, (tarReadFile_kept hconfined target_apart_archive false _).symm.trans hdata,
          hlisted⟩

/-- What replaces all files has found every file listed. -/
theorem replaceFiles_listed {f : StartFaults} (hscanned : Scanned v)
    (h : replaceFiles P f v d = (true, d')) : FilesListed P v d := by
  have hshape (asset : TarPath × Location) (hasset : asset ∈ v.assets) :
      AssetShape asset.2 asset.1 := classify_asset (hscanned.assets asset hasset)
  have hwipe := wipeRecoveryTargets_confined (P := P) f.wipe hscanned d
  have happs := copyApps_confined (P := P) f.apps v 0 (wipeRecoveryTargets P f.wipe v d) v.apps
  unfold replaceFiles at h
  split at h
  next => cases h
  next d₁ heq =>
    rw [heq] at happs
    have hassets := copyAssets_listed hshape h
    refine FilesListed.kept hwipe target_apart_archive ⟨copyApps_listed heq, fun asset hasset => ?_⟩
    obtain ⟨data, hdata, hlisted⟩ := hassets asset hasset
    exact ⟨data, (tarReadFile_kept happs target_apart_archive false _).symm.trans hdata, hlisted⟩

end

/-- A bootloader that was replaced was listed. -/
theorem replaceBootloader_listed {f : StartFaults} (h : Good P s) (hv : s.archive = .copied v)
    (hok : (replaceBootloader P f v s).1 = true) : BootloaderListed P v s.disk := by
  intro binary hbinary
  unfold replaceBootloader at hok
  rw [hbinary] at hok
  dsimp only at hok
  split at hok
  next => cases hok
  next s₁ heq =>
    obtain ⟨-, -, hcopied⟩ := copyBinary_copied (b := true) h hv hbinary heq
    obtain ⟨data, header, last, size, pre, hheld, -⟩ := hcopied.image
    exact ⟨data, header, hheld.source, hheld.image.verified, hheld.image.listed⟩

/-! ## 3. One recovery -/

/-- What was recovered to a binary -/
def NewContent (P : Platform) (v : ValidArchive) (binary : Binary) (s s' : State) : Prop :=
  binary = v.osBinary ∧ Swapped P v s s' ∨
    v.bootloader = some binary ∧ BootloaderSwapped P v binary s s'

/-- The bootloader, an app or an asset of the archive is missing, or not listed. -/
def Deficient (P : Platform) (v : ValidArchive) (disk : Disk) : Prop :=
  ¬ (BootloaderListed P v disk ∧ FilesListed P v disk)

/-- What a recovery leaves, whether it succeeds or not -/
structure Consistent (P : Platform) (v : ValidArchive) (s : State) (done : Bool) (s' : State) :
    Prop where
  names : ∀ binary old, (s.disk.at binary.location).file? binary.finalName = some old →
    (s'.disk.at binary.location).file? binary.finalName = some old ∨ NewContent P v binary s s'
  timestamp : s.firmwareTimestamp < s'.firmwareTimestamp → Swapped P v s s'
  marker : s'.disk.system.file? UPDATE_STATE_INVALIDATED_MARKER_PATH =
      s.disk.system.file? UPDATE_STATE_INVALIDATED_MARKER_PATH ∨
    s'.disk.system.file? UPDATE_STATE_INVALIDATED_MARKER_PATH = none ∨ Swapped P v s s'
  files : Deficient P v s.disk → done = false ∧
    ∀ l q data, Target l q → (s.disk.at l).file? q = some data →
      (s'.disk.at l).file? q = some data

/-- The directories of the apps and assets are wiped. -/
def Wipes (P : Platform) (f : StartFaults) (v : ValidArchive) (s : State) : Prop :=
  (replaceOs P f v s).1 = true ∧ (replaceBootloader P f v (replaceOs P f v s).2).1 = true

/-- No call fails at a place where the recovery depends on it. -/
structure Careful (P : Platform) (f : StartFaults) (v : ValidArchive) (s : State) : Prop where
  os : CarefulOs f s
  bootloader : f.bootloader.renameNew = true → f.bootloader.renameBack = true →
    f.bootloader.renameOld = true
  files : Wipes P f v s → FilesListed P v s.disk ∨
    ∀ l q, Target l q → (s.disk.at l).file? q = none

section

variable {S : Location → Path → Prop} {s₁ : State}

/-- What comes later leaves the OS alone. -/
theorem OsConsistent.later (h : OsConsistent P v s s₁) (hc : Confined S s₁.disk s'.disk)
    (hfinal : ¬ S v.osBinary.location v.osBinary.finalName)
    (hmarker : ¬ S .system UPDATE_STATE_INVALIDATED_MARKER_PATH)
    (htimestamp : s'.firmwareTimestamp = s₁.firmwareTimestamp) : OsConsistent P v s s' := by
  have hsame := hc.file? hfinal
  have hsameMarker : s'.disk.system.file? UPDATE_STATE_INVALIDATED_MARKER_PATH =
      s₁.disk.system.file? UPDATE_STATE_INVALIDATED_MARKER_PATH := hc.file? (l := .system) hmarker
  have hswapped (hswapped : Swapped P v s s₁) : Swapped P v s s' := by
    obtain ⟨data, header, himage, hfile⟩ := hswapped
    exact ⟨data, header, himage, hsame.trans hfile⟩
  refine ⟨fun old hold => ?_, fun hlt => ?_, ?_⟩
  · exact (h.names old hold).imp hsame.trans hswapped
  · rw [htimestamp] at hlt
    exact hswapped (h.timestamp hlt)
  · rw [hsameMarker]
    exact h.marker.imp_right (Or.imp_right hswapped)

theorem names_apart_other {binary other : Binary} (hne : other ≠ binary) :
    ¬ Names binary other.location other.finalName := by
  unfold Names SwapName
  cases binary <;> cases other <;> first | decide | exact (hne rfl).elim

theorem osPlace_apart_final {binary other : Binary} (hne : other ≠ binary) :
    ¬ OsPlace binary other.location other.finalName := by
  rintro (h | h | h)
  · exact copying_apart_final false binary other h
  · exact marker_apart_final other h
  · exact names_apart_other hne h

theorem bootloaderPlace_apart_other {other : Binary} (hne : v.bootloader ≠ some other) :
    ¬ BootloaderPlace v other.location other.finalName := by
  rintro ⟨binary, hbinary, h | h⟩
  · exact copying_apart_final true binary other h
  · exact names_apart_other (fun heq => hne (by rw [heq]; exact hbinary)) h

theorem bootloaderPlace_apart_marker :
    ¬ BootloaderPlace v .system UPDATE_STATE_INVALIDATED_MARKER_PATH := by
  rintro ⟨binary, -, h | h⟩
  · exact copying_apart_marker true binary h
  · exact names_apart_marker binary h

theorem target_apart_marker : ¬ Target .system UPDATE_STATE_INVALIDATED_MARKER_PATH := by
  unfold Target
  decide

/-- A path that is no prefix of a directory of apps and assets, nor below one -/
theorem apart_target {l : Location} {p q : Path}
    (h : ∀ root ∈ targetRoots l, ¬ (p <+: root ∨ root <+: p)) (hpre : p <+: q) : ¬ Target l q := by
  rintro ⟨root, hroot, hq⟩
  exact h root hroot (List.prefix_or_prefix_of_prefix hpre hq)

theorem targetRoots_apart_names (binary : Binary) : ∀ root ∈ targetRoots binary.location,
    ¬ (binary.oldName <+: root ∨ root <+: binary.oldName) ∧
      ¬ (binary.newName <+: root ∨ root <+: binary.newName) ∧
      ¬ (binary.finalName <+: root ∨ root <+: binary.finalName) := by
  cases binary <;> decide

theorem names_apart_target {l : Location} {q : Path} (h : Names binary l q) : ¬ Target l q := by
  obtain ⟨rfl, h | h | h⟩ := h
  · exact apart_target (fun root hroot => (targetRoots_apart_names binary root hroot).1) h
  · exact apart_target (fun root hroot => (targetRoots_apart_names binary root hroot).2.1) h
  · exact apart_target (fun root hroot => (targetRoots_apart_names binary root hroot).2.2) h

theorem copying_apart_target {b : Bool} {l : Location} {q : Path} (h : Copying b binary l q) :
    ¬ Target l q := by
  rcases h with ⟨rfl, h⟩ | ⟨rfl, h⟩
  · exact names_apart_target ⟨rfl, .inr (.inl h)⟩
  · exact apart_target (targetRoots_apart_temp b).1 h

theorem osPlace_apart_target {l : Location} {q : Path} (h : OsPlace binary l q) : ¬ Target l q := by
  rcases h with h | ⟨rfl, h⟩ | h
  · exact copying_apart_target h
  · exact apart_target (by decide) h
  · exact names_apart_target h

theorem bootloaderPlace_apart_target {l : Location} {q : Path} (h : BootloaderPlace v l q) :
    ¬ Target l q := by
  obtain ⟨binary, -, h | h⟩ := h
  · exact copying_apart_target h
  · exact names_apart_target h

theorem osPlace_apart_archive (binary : Binary) : ¬ OsPlace binary .system TEMP_ARCHIVE_PATH := by
  rintro (h | h | h)
  · exact copying_apart_archive false binary h
  · exact marker_apart_archive h
  · exact names_apart_archive binary h

theorem bootloaderPlace_apart_archive : ¬ BootloaderPlace v .system TEMP_ARCHIVE_PATH := by
  rintro ⟨binary, -, h | h⟩
  · exact copying_apart_archive true binary h
  · exact names_apart_archive binary h

/-- Where a recovery ends -/
theorem startRecovery_stages (P : Platform) (f : StartFaults) (hv : s.archive = .copied v) :
    (replaceOs P f v s).1 = false ∧ startRecovery P f s = (false, (replaceOs P f v s).2) ∨
    (replaceOs P f v s).1 = true ∧ (replaceBootloader P f v (replaceOs P f v s).2).1 = false ∧
      startRecovery P f s = (false, (replaceBootloader P f v (replaceOs P f v s).2).2) ∨
    Wipes P f v s ∧ ∃ done d,
      replaceFiles P f v (replaceBootloader P f v (replaceOs P f v s).2).2.disk = (done, d) ∧
      startRecovery P f s =
        (done, { (replaceBootloader P f v (replaceOs P f v s).2).2 with disk := d }) := by
  unfold Wipes startRecovery
  rw [hv]
  dsimp only
  rcases replaceOs P f v s with ⟨_ | _, s₁⟩
  · exact .inl ⟨rfl, rfl⟩
  · dsimp only
    rcases replaceBootloader P f v s₁ with ⟨_ | _, s₂⟩
    · exact .inr (.inl ⟨rfl, rfl, rfl⟩)
    · dsimp only
      rcases hfiles : replaceFiles P f v s₂.disk with ⟨done, d⟩
      exact .inr (.inr ⟨⟨rfl, rfl⟩, done, d, rfl, rfl⟩)

/-- The names, the timestamp and the marker once the bootloader is replaced -/
theorem consistent_names {f : StartFaults} (s' : State) (h : Good P s) (hv : s.archive = .copied v)
    (hf : Careful P f v s)
    (hc : Confined Target (replaceBootloader P f v (replaceOs P f v s).2).2.disk s'.disk)
    (htimestamp : s'.firmwareTimestamp =
      (replaceBootloader P f v (replaceOs P f v s).2).2.firmwareTimestamp) :
    OsConsistent P v s s' ∧
      ∀ binary old, (s.disk.at binary.location).file? binary.finalName = some old →
        (s'.disk.at binary.location).file? binary.finalName = some old ∨
          NewContent P v binary s s' := by
  have hos := replaceOs_replaced f h hv
  have hosConsistent := replaceOs_consistent h hv hf.os
  have hv₁ : (replaceOs P f v s).2.archive = .copied v := hos.archive.trans hv
  have hboot := replaceBootloader_replaced f hos.good hv₁
  have hnames (binary : Binary) (hbinary : v.bootloader = some binary) (old : Bytes)
      (hold : ((replaceOs P f v s).2.disk.at binary.location).file? binary.finalName = some old) :=
    replaceBootloader_names hos.good hv₁ hf.bootloader hbinary hold
  generalize (replaceOs P f v s).2 = s₁ at *
  generalize (replaceBootloader P f v s₁).2 = s₂ at *
  have hscanned := h.scanned v (.inr hv)
  have hfw : s₂.firmwareTimestamp = s₁.firmwareTimestamp :=
    Option.some.inj (hboot.recorded false)
  have hconsistent : OsConsistent P v s s' :=
    (hosConsistent.later hboot.confined (bootloaderPlace_apart_final hscanned)
      bootloaderPlace_apart_marker hfw).later hc (target_apart_final v.osBinary)
      target_apart_marker htimestamp
  refine ⟨hconsistent, fun binary old hold => ?_⟩
  have hlater := hc.file? (target_apart_final binary)
  by_cases hosBinary : binary = v.osBinary
  · subst hosBinary
    exact (hconsistent.names old hold).imp_right fun hswapped => .inl ⟨rfl, hswapped⟩
  have hold₁ := (hos.confined.file? (osPlace_apart_final hosBinary)).trans hold
  by_cases hbinary : v.bootloader = some binary
  · refine (hnames binary hbinary old hold₁).imp hlater.trans ?_
    rintro ⟨data, header, last, hlast, himage, hfile⟩
    exact .inr ⟨hbinary, data, header, last, hos.recorded.symm.trans hlast, himage,
      hlater.trans hfile⟩
  · exact .inl (hlater.trans
      ((hboot.confined.file? (bootloaderPlace_apart_other hbinary)).trans hold₁))

theorem startRecovery_consistent {f : StartFaults} (h : Good P s) (hv : s.archive = .copied v)
    (hf : Careful P f v s) : Consistent P v s (startRecovery P f s).1 (startRecovery P f s).2 := by
  have hos := replaceOs_replaced f h hv
  have hv₁ : (replaceOs P f v s).2.archive = .copied v := hos.archive.trans hv
  have hboot := replaceBootloader_replaced f hos.good hv₁
  have hosTarget {l : Location} {q : Path} (hq : Target l q) :=
    hos.confined.file? (l := l) (q := q) fun hplace => osPlace_apart_target hplace hq
  have hbootTarget {l : Location} {q : Path} (hq : Target l q) :=
    hboot.confined.file? (l := l) (q := q) fun hplace => bootloaderPlace_apart_target hplace hq
  rcases startRecovery_stages P f hv with ⟨-, hresult⟩ | ⟨-, -, hresult⟩ |
    ⟨hwipes, done, d, hfiles, hresult⟩
  · rw [hresult]
    have hosConsistent := replaceOs_consistent h hv hf.os
    refine ⟨fun binary old hold => ?_, hosConsistent.timestamp, hosConsistent.marker,
      fun _ => ⟨rfl, fun l q data hq hold => (hosTarget hq).trans hold⟩⟩
    by_cases hbinary : binary = v.osBinary
    · subst hbinary
      exact (hosConsistent.names old hold).imp_right fun hswapped => .inl ⟨rfl, hswapped⟩
    · exact .inl ((hos.confined.file? (osPlace_apart_final hbinary)).trans hold)
  · rw [hresult]
    obtain ⟨hconsistent, hnames⟩ := consistent_names _ h hv hf (.refl _ _) rfl
    exact ⟨hnames, hconsistent.timestamp, hconsistent.marker, fun _ =>
      ⟨rfl, fun l q data hq hold => (hbootTarget hq).trans ((hosTarget hq).trans hold)⟩⟩
  · rw [hresult]
    have hscanned := h.scanned v (.inr hv)
    have hconfined := replaceFiles_confined (P := P) f hscanned
      (replaceBootloader P f v (replaceOs P f v s).2).2.disk
    rw [hfiles] at hconfined
    obtain ⟨hconsistent, hnames⟩ := consistent_names { (replaceBootloader P f v
      (replaceOs P f v s).2).2 with disk := d } h hv hf hconfined rfl
    refine ⟨hnames, hconsistent.timestamp, hconsistent.marker, fun hdeficient => ?_⟩
    -- the bootloader was checked, so that an app or asset is what is missing
    have hlisted : BootloaderListed P v s.disk := by
      intro binary hbinary
      obtain ⟨data, header, hdata, hrest⟩ :=
        replaceBootloader_listed hos.good hv₁ hwipes.2 binary hbinary
      exact ⟨data, header,
        (tarReadFile_kept hos.confined (osPlace_apart_archive _) false _).symm.trans hdata, hrest⟩
    have hmissing : ¬ FilesListed P v s.disk := fun hall => hdeficient ⟨hlisted, hall⟩
    refine ⟨?_, fun l q data hq hold => ?_⟩
    · cases done with
      | false => rfl
      | true =>
        refine (hmissing ?_).elim
        exact ((replaceFiles_listed hscanned hfiles).kept hboot.confined
          bootloaderPlace_apart_archive).kept hos.confined (osPlace_apart_archive _)
    · rcases hf.files hwipes with hall | hnone
      · exact (hmissing hall).elim
      · rw [hnone l q hq] at hold
        cases hold

end

/-! ## 4. Requests -/

theorem temp_apart_marker (b : Bool) : ¬ Temp b .system UPDATE_STATE_INVALIDATED_MARKER_PATH := by
  unfold Temp TempFile
  cases b <;> decide

theorem anyTemp_apart_final (binary : Binary) : ¬ AnyTemp binary.location binary.finalName :=
  fun ⟨b, h⟩ => temp_apart_final b binary h

theorem anyTemp_apart_marker : ¬ AnyTemp .system UPDATE_STATE_INVALIDATED_MARKER_PATH :=
  fun ⟨b, h⟩ => temp_apart_marker b h

/-- A request that replaces nothing -/
structure Untouched (s s' : State) : Prop where
  names : ∀ binary : Binary, (s'.disk.at binary.location).file? binary.finalName =
    (s.disk.at binary.location).file? binary.finalName
  timestamp : s'.firmwareTimestamp = s.firmwareTimestamp
  marker : s'.disk.system.file? UPDATE_STATE_INVALIDATED_MARKER_PATH =
    s.disk.system.file? UPDATE_STATE_INVALIDATED_MARKER_PATH
  files : ∀ l q, Target l q → (s'.disk.at l).file? q = (s.disk.at l).file? q

theorem Untouched.of_confined (hc : Confined AnyTemp s.disk s'.disk)
    (htimestamp : s'.firmwareTimestamp = s.firmwareTimestamp) : Untouched s s' where
  names binary := hc.file? (anyTemp_apart_final binary)
  timestamp := htimestamp
  marker := hc.file? (l := .system) anyTemp_apart_marker
  files _ _ := fun ⟨_, hroot, hpre⟩ => hc.file? (anyTemp_apart_target hroot hpre)

theorem Consistent.untouched {done : Bool} {s₁ : State} (h : Consistent P v s done s₁)
    (hs : Untouched s₁ s') : Consistent P v s done s' := by
  have hswapped (hswapped : Swapped P v s s₁) : Swapped P v s s' := by
    obtain ⟨data, header, himage, hfile⟩ := hswapped
    exact ⟨data, header, himage, (hs.names v.osBinary).trans hfile⟩
  refine ⟨fun binary old hold => ?_, fun hlt => ?_, ?_, fun hdeficient => ?_⟩
  · rw [hs.names]
    refine (h.names binary old hold).imp_right ?_
    rintro (⟨rfl, hnew⟩ | ⟨hbinary, data, header, last, hlast, himage, hfile⟩)
    · exact .inl ⟨rfl, hswapped hnew⟩
    · exact .inr ⟨hbinary, data, header, last, hlast, himage, (hs.names binary).trans hfile⟩
  · rw [hs.timestamp] at hlt
    exact hswapped (h.timestamp hlt)
  · rw [hs.marker]
    exact h.marker.imp_right (Or.imp_right hswapped)
  · obtain ⟨hdone, hfiles⟩ := h.files hdeficient
    exact ⟨hdone, fun l q data hq hold => (hs.files l q hq).trans (hfiles l q data hq hold)⟩

theorem verifyBinary_timestamp (f : VerifyFaults) (b : Bool) (binary : Binary) (s : State) :
    (verifyBinary P f b binary s).firmwareTimestamp = s.firmwareTimestamp := by
  by_cases hcopied : ∃ v, s.archive = .copied v
  · obtain ⟨v, hv⟩ := hcopied
    exact Option.some.inj ((verifyBinary_verified (P := P) f b binary hv).recorded false)
  · rw [verifyBinary_of_not_copied fun v hv => hcopied ⟨v, hv⟩]

theorem copyArchive_timestamp (f : CopyFaults) (archive : Bytes) (s : State) :
    (copyArchive P f archive s).firmwareTimestamp = s.firmwareTimestamp := by
  unfold copyArchive
  split
  next v hv =>
    dsimp only [State.setTree]
    split
    next => rfl
    next =>
      split
      next => rfl
      next =>
        split
        next => exact verifyBinary_timestamp _ _ _ _
        next =>
          rw [verifyBinary_timestamp, verifyBinary_timestamp]
  next => rfl

/-- After any requests, a recovery in which no call fails at those places leaves the binaries, the
timestamp, the marker, the apps and the assets consistent, and every other request leaves them. -/
theorem Run.recovery_consistent (h : Run P s) (request : Request)
    (hcareful : ∀ f v, request = .startRecovery f → s.archive = .copied v → Careful P f v s) :
    (∀ f v, request = .startRecovery f → s.archive = .copied v →
      Consistent P v s (handle P request s).1 (handle P request s).2) ∧
    ((∀ f v, ¬ (request = .startRecovery f ∧ s.archive = .copied v)) →
      (handle P request s).1 = false ∧ Untouched s (handle P request s).2) := by
  refine ⟨?_, fun hother => ?_⟩
  · rintro f v rfl hv
    have hconsistent := startRecovery_consistent h.good hv (hcareful f v rfl hv)
    unfold handle
    dsimp only
    split
    next s₁ heq =>
      rw [heq] at hconsistent
      exact hconsistent
    next s₁ heq =>
      rw [heq] at hconsistent
      exact hconsistent.untouched (.of_confined (deleteArchive_confined f.removeArchive s₁) rfl)
  · cases request with
    | readArchive fault archive =>
      unfold handle
      dsimp only
      split
      next => exact ⟨rfl, .of_confined (.refl _ _) rfl⟩
      next => exact ⟨rfl, .of_confined (.refl _ _) rfl⟩
    | copyArchive faults archive =>
      exact ⟨rfl, .of_confined (copyArchive_good faults archive h.good).2
        (copyArchive_timestamp faults archive s)⟩
    | startRecovery faults =>
      have hnone : startRecovery P faults s = (false, s) := by
        unfold startRecovery
        split
        next v hv => exact (hother faults v ⟨rfl, hv⟩).elim
        next => rfl
      unfold handle
      dsimp only
      rw [hnone]
      exact ⟨rfl, .of_confined (.refl _ _) rfl⟩
    | restart => exact ⟨rfl, .of_confined (.refl _ _) rfl⟩

/-- The archive of `ready` -/
def readyArchive : ValidArchive :=
  ⟨"1.0.0".toList, [], [], .app, none, ⟨[⟨"1.0.0/keyos/app.bin".toList, zeros.toList⟩]⟩⟩

theorem ready_archive : ready.archive = .copied readyArchive := by decide +kernel

theorem ready_careful (v : ValidArchive) (hv : ready.archive = .copied v) :
    Careful osPlatform noStartFaults v ready where
  os := ⟨nofun, fun _ _ _ _ _ _ => ⟨rfl, rfl, rfl⟩, .inr ⟨⟨nofun, rfl, rfl⟩, .inl ⟨rfl, rfl, rfl⟩⟩⟩
  bootloader := nofun
  files _ := by
    rw [ready_archive] at hv
    cases hv
    exact .inl ⟨nofun, nofun⟩

theorem Run.recovery_consistent_ready : Consistent osPlatform readyArchive ready
    (handle osPlatform (.startRecovery noStartFaults) ready).1
    (handle osPlatform (.startRecovery noStartFaults) ready).2 :=
  (Run.recovery_consistent ready_run (.startRecovery noStartFaults) (by
    rintro f v heq hv
    cases heq
    exact ready_careful v hv)).1 noStartFaults readyArchive rfl ready_archive

/-- The new binary cannot be renamed. -/
def renameFails : StartFaults :=
  { noStartFaults with os := { noBinaryFaults with renameNew := true } }

/-- The timestamp is raised although the OS is the old one. -/
theorem timestamp_raised_without_swap : ¬ ∀ (P : Platform) (s : State) (f : StartFaults)
    (v : ValidArchive), Run P s → s.archive = .copied v →
    Consistent P v s (handle P (.startRecovery f) s).1 (handle P (.startRecovery f) s).2 := by
  intro hall
  have hconsistent := hall osPlatform ready renameFails readyArchive ready_run ready_archive
  have hraised : ready.firmwareTimestamp <
      (handle osPlatform (.startRecovery renameFails) ready).2.firmwareTimestamp := by
    decide +kernel
  obtain ⟨data, header, himage, hfile⟩ := hconsistent.timestamp hraised
  have hold : ((handle osPlatform (.startRecovery renameFails) ready).2.disk.at .system).file?
      [KEYOS, "APP.BIN".toList] = some [9] := by decide +kernel
  have hdata : data = [9] := Option.some.inj (hfile.symm.trans hold)
  have hnone : verifyCosign2 osPlatform [9] = none := by decide +kernel
  have hverified := himage.verified
  rw [hdata, hnone] at hverified
  cases hverified

end Recovery
