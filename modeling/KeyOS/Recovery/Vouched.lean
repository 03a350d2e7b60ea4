import KeyOS.Recovery.Swaps

/-!
# What a recovery leaves is vouched for

After any requests, with any archives, a recovery that succeeds leaves listed files in the
directories it wiped and verified images under the names of the binaries, and no request changes a
file elsewhere.

A directory that the archive has no file for is not wiped, so that a recovery without apps keeps
the apps.
-/

namespace Recovery

open FatTree

variable (P : Platform)

/-! ## 1. Runs -/

/-- Any requests, from any files -/
inductive Run : State → Prop
  | start {s : State} (hmounted : Mounted s.disk) (harchive : s.archive = .none) : Run s
  | step {s : State} (h : Run s) (request : Request) : Run (handle P request s).2

/-- The temporary files, the marker, and what the archive that is copied replaces -/
def Destination (s : State) (l : Location) (q : Path) : Prop :=
  AnyTemp l q ∨ Marker l q ∨ ∃ v, s.archive = .copied v ∧
    (Names v.osBinary l q ∨ (∃ binary, v.bootloader = some binary ∧ Names binary l q) ∨ Target l q)

/-- What a recovery that succeeds leaves -/
structure Recovered (f : StartFaults) (v : ValidArchive) (s s' : State) : Prop where
  files : ∀ l dir q data, Wiped P f.wipe v l dir → dir <+: q →
    (s'.disk.at l).file? q = some data → Vouched P v l q data
  os : ∃ data header, IsImage P v v.osBinary s.firmwareTimestamp data header ∧
    (s'.disk.at v.osBinary.location).file? v.osBinary.finalName = some data
  bootloader : ∀ binary, v.bootloader = some binary → ∃ data header last,
    s.bootloaderBuildDate = some last ∧ IsImage P v binary last data header ∧
    (s'.disk.at binary.location).file? binary.finalName = some (data.drop P.headerSize)

section

variable {P} {s s' : State} {v : ValidArchive} {l : Location} {q : Path}

/-! ## 2. One recovery -/

theorem target_apart_temp (b : Bool) : ¬ Target (tempLocation b) (tempFile b) := by
  unfold Target
  cases b <;> decide

theorem target_apart_final (binary : Binary) : ¬ Target binary.location binary.finalName := by
  unfold Target
  cases binary <;> decide

theorem target_apart_archive : ¬ Target .system TEMP_ARCHIVE_PATH := by
  unfold Target
  decide

theorem temp_apart_final (b : Bool) (binary : Binary) : ¬ Temp b binary.location binary.finalName := by
  unfold Temp TempFile
  cases b <;> cases binary <;> decide

theorem targetRoots_apart_temp (b : Bool) :
    (∀ root ∈ targetRoots (tempLocation b),
      ¬ (tempFile b <+: root ∨ root <+: tempFile b)) ∧
    ∀ root ∈ targetRoots .system,
      ¬ (TEMP_ARCHIVE_PATH <+: root ∨ root <+: TEMP_ARCHIVE_PATH) := by
  cases b <;> decide

theorem anyTemp_apart_target {dir : Path} (hdir : dir ∈ targetRoots l) (hpre : dir <+: q) :
    ¬ AnyTemp l q := by
  rintro ⟨b, hq⟩
  have hconflict : ∀ p : Path, p <+: q → p <+: dir ∨ dir <+: p := fun p hp =>
    List.prefix_or_prefix_of_prefix hp hpre
  rcases hq with ⟨rfl, hq⟩ | ⟨rfl, hq⟩
  · exact (targetRoots_apart_temp b).1 dir hdir (hconflict _ hq)
  · exact (targetRoots_apart_temp b).2 dir hdir (hconflict _ hq)

/-- Another bootloader is no OS. -/
theorem bootloaderPlace_apart_final (hscanned : Scanned v) :
    ¬ BootloaderPlace v v.osBinary.location v.osBinary.finalName := by
  rintro ⟨binary, hbinary, h⟩
  have hboot := hscanned.bootloader binary hbinary
  have hos := hscanned.os
  revert h hboot hos
  unfold Copying NewName TempFile Names SwapName
  generalize v.osBinary = os
  cases os <;> cases binary <;> decide

theorem copying_destination {b : Bool} {binary : Binary} (hv : s.archive = .copied v)
    (hb : v.binary b = some binary) (h : Copying b binary l q) : Destination s l q := by
  rcases h with ⟨hl, hq⟩ | h
  · refine .inr (.inr ⟨v, hv, ?_⟩)
    cases b with
    | false =>
      cases hb
      exact .inl ⟨hl, .inr (.inl hq)⟩
    | true => exact .inr (.inl ⟨binary, hb, hl, .inr (.inl hq)⟩)
  · exact .inl ⟨b, .inl h⟩

theorem osPlace_destination (hv : s.archive = .copied v) (h : OsPlace v.osBinary l q) :
    Destination s l q := by
  rcases h with h | h | h
  · exact copying_destination (b := false) hv rfl h
  · exact .inr (.inl h)
  · exact .inr (.inr ⟨v, hv, .inl h⟩)

theorem bootloaderPlace_destination (hv : s.archive = .copied v) (h : BootloaderPlace v l q) :
    Destination s l q := by
  obtain ⟨binary, hbinary, h | h⟩ := h
  · exact copying_destination (b := true) hv hbinary h
  · exact .inr (.inr ⟨v, hv, .inr (.inl ⟨binary, hbinary, h⟩)⟩)

theorem startRecovery_good (f : StartFaults) (h : Good P s) :
    Good P (startRecovery P f s).2 ∧ Confined (Destination s) s.disk (startRecovery P f s).2.disk := by
  unfold startRecovery
  split
  next v hv =>
    have hscanned := h.scanned v (.inr hv)
    have hos := replaceOs_replaced f h hv
    have hosKept := hos.confined.mono fun _ _ hq => osPlace_destination hv hq
    split
    next s₁ heq =>
      rw [heq] at hos hosKept
      exact ⟨hos.good, hosKept⟩
    next s₁ heq =>
      rw [heq] at hos hosKept
      have hv₁ : s₁.archive = .copied v := hos.archive.trans hv
      have hboot := replaceBootloader_replaced f hos.good hv₁
      have hbootKept := hosKept.trans
        (hboot.confined.mono fun _ _ hq => bootloaderPlace_destination hv hq)
      split
      next s₂ heq' =>
        rw [heq'] at hboot hbootKept
        exact ⟨hboot.good, hbootKept⟩
      next s₂ heq' =>
        rw [heq'] at hboot hbootKept
        have hfiles := replaceFiles_confined (P := P) f hscanned s₂.disk
        split
        next done d heq'' =>
          rw [heq''] at hfiles
          refine ⟨hboot.good.next hfiles rfl target_apart_archive fun b => .inr ⟨target_apart_temp b, rfl, rfl⟩, ?_⟩
          exact hbootKept.trans (hfiles.mono fun _ _ hq => .inr (.inr ⟨v, hv, .inr (.inr hq)⟩))
  next => exact ⟨h, .refl _ _⟩

/-- A recovery that succeeds -/
theorem startRecovery_recovered {f : StartFaults} (h : Good P s) (hv : s.archive = .copied v)
    (hok : startRecovery P f s = (true, s')) : Recovered P f v s s' := by
  have hscanned := h.scanned v (.inr hv)
  unfold startRecovery at hok
  rw [hv] at hok
  dsimp only at hok
  have hos := replaceOs_replaced f h hv
  split at hok
  next => cases hok
  next s₁ heq =>
    rw [heq] at hos
    have hv₁ : s₁.archive = .copied v := hos.archive.trans hv
    have hboot := replaceBootloader_replaced f hos.good hv₁
    split at hok
    next => cases hok
    next s₂ heq' =>
      rw [heq'] at hboot
      have hfiles := replaceFiles_confined (P := P) f hscanned s₂.disk
      rcases heq'' : replaceFiles P f v s₂.disk with ⟨done, d⟩
      rw [heq''] at hok hfiles
      obtain ⟨rfl, rfl⟩ := Prod.mk.injEq .. ▸ hok
      refine ⟨fun l dir q data hwiped hpre hq => ?_, ?_, fun binary hbinary => ?_⟩
      · exact replaceFiles_vouched hscanned hboot.good.mounted heq'' hwiped hpre hq
      · obtain ⟨data, header, himage, hfinal⟩ := hos.image rfl
        refine ⟨data, header, himage, (hfiles.file? (target_apart_final _)).trans ?_⟩
        exact (hboot.confined.file? (bootloaderPlace_apart_final hscanned)).trans hfinal
      · obtain ⟨data, header, last, hlast, himage, hfinal⟩ := hboot.image rfl binary hbinary
        refine ⟨data, header, last, ?_, himage,
          (hfiles.file? (target_apart_final _)).trans hfinal⟩
        rw [← hlast]
        exact hos.recorded.symm

/-! ## 3. Requests -/

theorem deleteArchive_confined (fault : Option (Path → Bool)) (s : State) :
    Confined AnyTemp s.disk (deleteArchive fault s).disk :=
  (removeArchive_confined fault false s.disk).mono fun _ _ hq => ⟨false, hq⟩

theorem handle_good (request : Request) (h : Good P s) :
    Good P (handle P request s).2 ∧
      Confined (Destination s) s.disk (handle P request s).2.disk := by
  cases request with
  | readArchive fault archive =>
    unfold handle
    dsimp only
    split
    next => exact ⟨.dropped h.mounted nofun nofun, .refl _ _⟩
    next v hv =>
      refine ⟨.dropped h.mounted (fun w hw => ?_) nofun, .refl _ _⟩
      cases hw
      exact tarVerify_scanned P hv
  | copyArchive faults archive =>
    obtain ⟨hgood, hconfined⟩ := copyArchive_good faults archive h
    exact ⟨hgood, hconfined.mono fun _ _ hq => .inl hq⟩
  | startRecovery faults =>
    obtain ⟨hgood, hconfined⟩ := startRecovery_good faults h
    unfold handle
    dsimp only
    split
    next s₁ heq =>
      rw [heq] at hgood hconfined
      exact ⟨hgood, hconfined⟩
    next s₁ heq =>
      rw [heq] at hgood hconfined
      have hdelete := deleteArchive_confined faults.removeArchive s₁
      exact ⟨.dropped (hdelete.mounted hgood.mounted) nofun nofun,
        hconfined.trans (hdelete.mono fun _ _ hq => .inl hq)⟩
  | restart => exact ⟨.dropped h.mounted nofun nofun, .refl _ _⟩

theorem Run.good (h : Run P s) : Good P s := by
  induction h with
  | start hmounted harchive =>
    exact .dropped hmounted (fun v hv => by rw [harchive] at hv; cases hv) fun v hv => by
      rw [harchive] at hv
      cases hv
  | step _ request ih => exact (handle_good request ih).1

theorem Wiped.root {f : WipeFaults} {dir : Path} (hscanned : Scanned v) (h : Wiped P f v l dir) :
    ∃ root ∈ targetRoots l, root <+: dir := by
  obtain ⟨-, ⟨rfl, rfl, -⟩ | ⟨root, hroot, rfl, -⟩⟩ := h
  · exact ⟨APPS, apps_mem, List.prefix_refl _⟩
  · exact assetRoots_target hscanned hroot

/-- What a recovery leaves stays when the archive is deleted. -/
theorem Recovered.deleted {f : StartFaults} (hscanned : Scanned v) (h : Recovered P f v s s')
    (fault : Option (Path → Bool)) : Recovered P f v s (deleteArchive fault s') := by
  have hdelete := removeArchive_confined fault false s'.disk
  have hfinal (binary : Binary) : ((deleteArchive fault s').disk.at binary.location).file?
      binary.finalName = (s'.disk.at binary.location).file? binary.finalName :=
    hdelete.file? (temp_apart_final false binary)
  refine ⟨fun l dir q data hwiped hpre hq => ?_, ?_, fun binary hbinary => ?_⟩
  · obtain ⟨root, hroot, hup⟩ := hwiped.root hscanned
    have hsame := hdelete.file? (l := l) (q := q) fun htemp =>
      anyTemp_apart_target hroot (hup.trans hpre) ⟨false, htemp⟩
    exact h.files l dir q data hwiped hpre (hsame.symm.trans hq)
  · obtain ⟨data, header, himage, hfile⟩ := h.os
    exact ⟨data, header, himage, (hfinal _).trans hfile⟩
  · obtain ⟨data, header, last, hlast, himage, hfile⟩ := h.bootloader binary hbinary
    exact ⟨data, header, last, hlast, himage, (hfinal _).trans hfile⟩

/-- After any requests, a request changes no file elsewhere, and a recovery that succeeds leaves
what the manifest vouches for. -/
theorem Run.recovery_vouched (h : Run P s) (request : Request) :
    (∀ l q, ¬ Destination s l q →
      ((handle P request s).2.disk.at l).file? q = (s.disk.at l).file? q) ∧
    ∀ f, request = .startRecovery f → (handle P request s).1 = true →
      ∃ v, s.archive = .copied v ∧ Recovered P f v s (handle P request s).2 := by
  refine ⟨fun l q hq => (handle_good request h.good).2.file? hq, ?_⟩
  rintro f rfl hok
  unfold handle at hok ⊢
  dsimp only at hok ⊢
  split at hok
  next => cases hok
  next s₁ heq =>
    have harchive : ∃ v, s.archive = .copied v := by
      unfold startRecovery at heq
      split at heq
      next v hv => exact ⟨v, hv⟩
      next => cases heq
    obtain ⟨v, hv⟩ := harchive
    exact ⟨v, hv, (startRecovery_recovered h.good hv heq).deleted
      (h.good.scanned v (.inr hv)) f.removeArchive⟩

end

/-! ## 4. An archive without apps -/

/-- A hash -/
def zeros : Hash := .replicate 32 0

/-- The bytes of an archive with an OS binary and a manifest -/
def osArchive : Bytes := [1]

def osImage : Bytes := [2]

def manifestFile : Bytes := [3]

/-- Tools that know one archive, whose OS binary and manifest are signed -/
def osPlatform : Platform where
  production := true
  fold := List.map Char.toUpper
  fold_ascii _ _ := rfl
  entries data :=
    if data = osArchive then
      [⟨"1.0.0/keyos/app.bin".toList, true, osImage⟩,
        ⟨"1.0.0/manifest.json".toList, true, manifestFile⟩]
    else []
  parseManifest _ := some ⟨[⟨"1.0.0/keyos/app.bin".toList, zeros.toList⟩]⟩
  sha256 _ := zeros
  parse data :=
    if data = osImage ∨ data = manifestFile then some ⟨zeros, "1.0.0".toList, 7, .fullyTrusted⟩
    else none
  headerSize := 0

def noWriteFaults : WriteFaults := ⟨none, none, none, false⟩

def noVerifyFaults : VerifyFaults := ⟨false, none, false, noWriteFaults, false, none, none⟩

def noCopyFaults : CopyFaults := ⟨none, false, noWriteFaults, noVerifyFaults, noVerifyFaults⟩

def noBinaryFaults : BinaryFaults :=
  ⟨none, false, noWriteFaults, none, none, false, false, false, fun _ => none, false⟩

def noFileFaults : FileFaults := ⟨false, false, none, noWriteFaults, false, false⟩

def noDirFaults : DirFaults := ⟨fun _ => false, fun _ => none⟩

def noStartFaults : StartFaults where
  os := noBinaryFaults
  readback := false
  marker := ⟨none, fun _ => none, none, none, none, false, none⟩
  bootloader := noBinaryFaults
  wipe := ⟨none, fun _ => none⟩
  apps _ := ⟨noFileFaults, noDirFaults, noFileFaults⟩
  assets _ := ⟨noFileFaults, noDirFaults⟩
  removeArchive := none

/-- A device with an OS and an app -/
def device : State where
  archive := .none
  osBinary := .none
  bootloader := .none
  disk := {
    system := .ofList [([], .dir), ([KEYOS], .dir), ([KEYOS, "APP.BIN".toList], .file [9]),
      (APPS, .dir), (APPS ++ ["OLD".toList], .dir),
      (APPS ++ ["OLD".toList, "APP.ELF".toList], .file [9])]
    boot := .ofList [([], .dir)] }
  firmwareTimestamp := 5
  bootloaderBuildDate := none

theorem device_mounted : Mounted device.disk := by
  refine ⟨fun l => ?_, fun l => ?_⟩
  · cases l
    · exact Tree.ofList_closed (by decide)
    · exact Tree.ofList_closed (by decide)
  · cases l <;> decide

/-- The archive, read and copied -/
def ready : State :=
  (handle osPlatform (.copyArchive noCopyFaults osArchive)
    (handle osPlatform (.readArchive false osArchive) device).2).2

theorem ready_run : Run osPlatform ready :=
  .step (.step (.start device_mounted rfl) (.readArchive false osArchive))
    (.copyArchive noCopyFaults osArchive)

theorem Run.recovery_vouched_ready : ∃ v, ready.archive = .copied v ∧
    Recovered osPlatform noStartFaults v ready
      (handle osPlatform (.startRecovery noStartFaults) ready).2 :=
  (Run.recovery_vouched ready_run (.startRecovery noStartFaults)).2 noStartFaults rfl
    (by decide +kernel)

/-- An archive without apps leaves the apps that are there. -/
theorem old_app_left : ¬ ∀ (P : Platform) (s : State) (f : StartFaults) (v : ValidArchive),
    Run P s → s.archive = .copied v → (handle P (.startRecovery f) s).1 = true →
    ∀ l q data, Target l q →
      ((handle P (.startRecovery f) s).2.disk.at l).file? q = some data → Vouched P v l q data := by
  intro hall
  have hvouched := hall osPlatform ready noStartFaults
    ⟨"1.0.0".toList, [], [], .app, none, ⟨[⟨"1.0.0/keyos/app.bin".toList, zeros.toList⟩]⟩⟩ ready_run
    (by decide +kernel) (by decide +kernel) .system (APPS ++ ["OLD".toList, "APP.ELF".toList]) [9]
    ⟨APPS, apps_mem, List.prefix_append _ _⟩ (by decide +kernel)
  rcases hvouched with ⟨-, app, happ, -⟩ | ⟨asset, hasset, -⟩
  · cases happ
  · cases hasset

end Recovery
