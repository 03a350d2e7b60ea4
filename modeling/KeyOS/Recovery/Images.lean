import KeyOS.Recovery.Files

/-!
# Verified images

While a binary counts as valid, its temporary file holds an image that was verified for the archive
that is copied, with a timestamp that is not below the recorded one. No request breaks this
(`Good`), and what is swapped in is that image.
-/

namespace Recovery

open FatTree

variable (P : Platform)

/-! ## 1. Images -/

/-- The OS binary of an archive, or its bootloader -/
def ValidArchive.binary (v : ValidArchive) (isBootloader : Bool) : Option Binary :=
  if isBootloader then v.bootloader else some v.osBinary

/-- What is recorded of the OS, or of the bootloader -/
def State.recorded (s : State) (isBootloader : Bool) : Option Nat :=
  if isBootloader then s.bootloaderBuildDate else some s.firmwareTimestamp

/-- The image is genuine, listed for the binary, and not older than `last`. -/
structure IsImage (v : ValidArchive) (binary : Binary) (last : Nat) (data : Bytes) (header : Header) :
    Prop where
  verified : verifyCosign2 P data = some header
  listed : verifyManifestHash v.manifest (binaryTarPath v.version binary) header.binaryHash = true
  recent : last ≤ header.timestamp

/-- The temporary file of a binary holds this image, which is the one in the archive. -/
structure Held (s : State) (isBootloader : Bool) (v : ValidArchive) (binary : Binary)
    (hash : Hash) (size timestamp : Nat) (data : Bytes) (header : Header) (last : Nat) : Prop where
  file : (s.disk.at (tempLocation isBootloader)).file? (tempFile isBootloader) = some data
  size : size = data.length
  hash : hash = header.binaryHash
  timestamp : timestamp = header.timestamp
  recorded : s.recorded isBootloader = some last
  source : tarReadFile P false (binaryTarPath v.version binary) s.disk = some data
  image : IsImage P v binary last data header

/-- What every request keeps -/
structure Good (s : State) : Prop where
  mounted : Mounted s.disk
  scanned : ∀ v, s.archive = .valid v ∨ s.archive = .copied v → Scanned v
  held : ∀ isBootloader v binary hash size timestamp pre, s.archive = .copied v →
    v.binary isBootloader = some binary →
    s.binary isBootloader = .valid hash size timestamp pre →
    ∃ data header last, Held P s isBootloader v binary hash size timestamp data header last

/-- No image is held for this state. -/
def RecoveryState.IsValid : RecoveryState → Prop
  | .valid .. => True
  | _ => False

section

variable {P} {s s' : State} {S : Location → Path → Prop} {b : Bool} {binary : Binary}
  {v : ValidArchive}

@[simp] theorem setBinary_disk (s : State) (b : Bool) (x : RecoveryState) :
    (s.setBinary b x).disk = s.disk := by cases b <;> rfl

@[simp] theorem setBinary_archive (s : State) (b : Bool) (x : RecoveryState) :
    (s.setBinary b x).archive = s.archive := by cases b <;> rfl

@[simp] theorem setBinary_recorded (s : State) (b c : Bool) (x : RecoveryState) :
    (s.setBinary b x).recorded c = s.recorded c := by cases b <;> rfl

@[simp] theorem setBinary_self (s : State) (b : Bool) (x : RecoveryState) :
    (s.setBinary b x).binary b = x := by cases b <;> rfl

theorem setBinary_of_ne (s : State) {b c : Bool} (x : RecoveryState) (h : c ≠ b) :
    (s.setBinary b x).binary c = s.binary c := by
  cases b <;> cases c <;> first | rfl | exact (h rfl).elim

theorem temp_plain (b : Bool) : Plain (tempFile b) := by
  unfold Plain
  cases b <;> decide

theorem temp_ne_nil (b : Bool) : tempFile b ≠ [] := by
  cases b <;> decide

theorem tempArchive_plain : Plain TEMP_ARCHIVE_PATH := by
  unfold Plain
  decide

/-- A read that succeeds did not fail. -/
theorem tarReadFile_of_fault {d : Disk} {fault : Bool} {path : TarPath} {data : Bytes}
    (h : tarReadFile P fault path d = some data) : tarReadFile P false path d = some data := by
  cases fault with
  | false => exact h
  | true => cases h

/-- What is read from the archive depends on the temporary archive. -/
theorem tarReadFile_congr {d d' : Disk} (h : d'.system.file? TEMP_ARCHIVE_PATH =
    d.system.file? TEMP_ARCHIVE_PATH) (fault : Bool) (path : TarPath) :
    tarReadFile P fault path d' = tarReadFile P fault path d := by
  unfold tarReadFile readFile
  rw [tempArchive_plain.resolve, tempArchive_plain.resolve, h]

theorem tarReadFile_kept {d d' : Disk} (hc : Confined S d d') (hS : ¬ S .system TEMP_ARCHIVE_PATH)
    (fault : Bool) (path : TarPath) : tarReadFile P fault path d' = tarReadFile P fault path d :=
  tarReadFile_congr (hc.file? (l := .system) hS) fault path

/-- A request that leaves the images alone, or no longer holds them, keeps what is good. -/
theorem Good.next (h : Good P s) (hc : Confined S s.disk s'.disk) (harchive : s'.archive = s.archive)
    (htemp : ¬ S .system TEMP_ARCHIVE_PATH)
    (hbinary : ∀ b, ¬ (s'.binary b).IsValid ∨
      ¬ S (tempLocation b) (tempFile b) ∧ s'.binary b = s.binary b ∧ s'.recorded b = s.recorded b) :
    Good P s' := by
  refine ⟨hc.mounted h.mounted, fun v hv => h.scanned v (by rwa [harchive] at hv), ?_⟩
  intro b v binary hash size timestamp pre hv hb hvalid
  rcases hbinary b with hnot | ⟨hplace, hsame, hrecorded⟩
  · rw [hvalid] at hnot
    exact (hnot trivial).elim
  · rw [harchive] at hv
    rw [hsame] at hvalid
    obtain ⟨data, header, last, hheld⟩ := h.held b v binary hash size timestamp pre hv hb hvalid
    exact ⟨data, header, last, { hheld with
      file := (hc.file? hplace).trans hheld.file
      recorded := hrecorded.trans hheld.recorded
      source := (tarReadFile_kept hc htemp false _).trans hheld.source }⟩

/-- With no archive that is copied, no image is held. -/
theorem Good.dropped (hm : Mounted s.disk)
    (hscanned : ∀ v, s.archive = .valid v → Scanned v) (hnone : ∀ v, s.archive ≠ .copied v) :
    Good P s := by
  refine ⟨hm, fun v hv => ?_, fun b v _ _ _ _ _ hv => (hnone v hv).elim⟩
  rcases hv with hv | hv
  · exact hscanned v hv
  · exact (hnone v hv).elim

/-! ## 2. Plain files -/

theorem remove_confined {d : Disk} {l : Location} {path : Path} (fault : Option (Path → Bool))
    (hplain : Plain path) (hne : path ≠ []) (hS : ∀ q, path <+: q → S l q) :
    Confined S d (d.set l ((d.at l).remove fault path).2) :=
  .set (remove_kept fault hne fun q hq => hS q (by rwa [hplain.resolve] at hq))

theorem writeFile_confined {d : Disk} {l : Location} {path : Path} (f : WriteFaults)
    (payload : Bytes) (hplain : Plain path) (hne : path ≠ []) (hS : ∀ q, path <+: q → S l q) :
    Confined S d (d.set l (writeFile f path payload (d.at l)).2) :=
  .set ((writeFile_atPlace f payload hne).kept (by
    rw [hplain.resolve]
    exact hS _ (List.prefix_refl path)))

/-- Below the temporary file of a binary -/
def TempFile (b : Bool) (l : Location) (q : Path) : Prop := l = tempLocation b ∧ tempFile b <+: q

/-- The files of the worker that verifying a binary changes -/
def Temp (b : Bool) (l : Location) (q : Path) : Prop :=
  TempFile b l q ∨ l = .system ∧ TEMP_ARCHIVE_PATH <+: q

theorem tempFile_apart {b c : Bool} (h : c ≠ b) : ¬ TempFile b (tempLocation c) (tempFile c) := by
  unfold TempFile
  cases b <;> cases c <;> first | decide | exact (h rfl).elim

theorem tempFile_apart_archive (b : Bool) : ¬ TempFile b .system TEMP_ARCHIVE_PATH := by
  unfold TempFile
  cases b <;> decide

theorem removeTemp_confined (fault : Option (Path → Bool)) (b : Bool) (d : Disk) :
    Confined (TempFile b) d (d.set (tempLocation b)
      ((d.at (tempLocation b)).remove fault (tempFile b)).2) :=
  remove_confined fault (temp_plain b) (temp_ne_nil b) fun _ hq => ⟨rfl, hq⟩

theorem removeArchive_confined (fault : Option (Path → Bool)) (b : Bool) (d : Disk) :
    Confined (Temp b) d (d.set .system (d.system.remove fault TEMP_ARCHIVE_PATH).2) :=
  remove_confined (l := .system) fault tempArchive_plain (by decide) fun _ hq => .inr ⟨rfl, hq⟩

/-! ## 3. Verifying -/

/-- What verifying a binary does -/
structure Verified (P : Platform) (b : Bool) (v : ValidArchive) (binary : Binary) (s s' : State) :
    Prop where
  confined : Confined (Temp b) s.disk s'.disk
  recorded : ∀ c, s'.recorded c = s.recorded c
  other : ∀ c, c ≠ b → s'.binary c = s.binary c
  archive : s'.archive = .none ∨ s'.archive = .error ∨ s'.archive = .copied v
  kept : s'.archive = .copied v → Confined (TempFile b) s.disk s'.disk
  held : s'.archive = .copied v → ∀ hash size timestamp pre,
    s'.binary b = .valid hash size timestamp pre →
    ∃ data header last, Held P s' b v binary hash size timestamp data header last

theorem rejectBinary_confined (f : VerifyFaults) (b : Bool) (s : State) :
    Confined (Temp b) s.disk (rejectBinary f b s).disk :=
  ((removeTemp_confined f.removeInvalid b s.disk).mono fun _ _ => .inl).trans
    (removeArchive_confined _ b _)

/-- An archive that is rejected -/
theorem Verified.rejected {f : VerifyFaults} (hc : Confined (TempFile b) s.disk s'.disk)
    (hrecorded : ∀ c, s'.recorded c = s.recorded c) (hother : ∀ c, c ≠ b → s'.binary c = s.binary c) :
    Verified P b v binary s (rejectBinary f b s') :=
  ⟨(hc.mono fun _ _ => .inl).trans (rejectBinary_confined f b s'), hrecorded, hother, .inl rfl,
    nofun, nofun⟩

theorem Verified.failed {f : VerifyFaults} (hc : Confined (TempFile b) s.disk s'.disk)
    (hrecorded : ∀ c, s'.recorded c = s.recorded c) (hother : ∀ c, c ≠ b → s'.binary c = s.binary c) :
    Verified P b v binary s
      { (rejectBinary f b s').setBinary b .invalid with archive := .error } := by
  refine ⟨?_, fun c => ?_, fun c hne => ?_, .inr (.inl rfl), nofun, nofun⟩
  · show Confined _ _ ((rejectBinary f b s').setBinary b .invalid).disk
    rw [setBinary_disk]
    exact (hc.mono fun _ _ => .inl).trans (rejectBinary_confined f b s')
  · show ((rejectBinary f b s').setBinary b .invalid).recorded c = _
    rw [setBinary_recorded]
    exact hrecorded c
  · show ((rejectBinary f b s').setBinary b .invalid).binary c = _
    rw [setBinary_of_ne _ _ hne]
    exact hother c hne

theorem checkBinary_verified {f : VerifyFaults} {last : Nat} {data : Bytes}
    (hc : Confined (TempFile b) s.disk s'.disk) (hrecorded : ∀ c, s'.recorded c = s.recorded c)
    (hother : ∀ c, c ≠ b → s'.binary c = s.binary c) (harchive : s'.archive = .copied v)
    (hlast : s.recorded b = some last)
    (hsource : tarReadFile P false (binaryTarPath v.version binary) s'.disk = some data)
    (hdata : (s'.disk.at (tempLocation b)).file? (tempFile b) = some data) :
    Verified P b v binary s (checkBinary P f b binary v last data.length s') := by
  unfold checkBinary
  dsimp only
  split
  next => exact .failed hc hrecorded hother
  next header hheader =>
    have hverified : verifyCosign2 P data = some header := by
      unfold readFile at hheader
      rw [(temp_plain b).resolve, hdata] at hheader
      split at hheader
      next => cases hheader
      next data' hread =>
        split at hread
        · cases hread
        · rwa [← Option.some.inj hread] at hheader
    split
    next hlisted =>
      split
      next => exact .failed hc hrecorded hother
      next hrecent =>
        refine ⟨by rw [setBinary_disk]; exact hc.mono fun _ _ => .inl, fun c => by rw [setBinary_recorded, hrecorded],
          fun c hne => by rw [setBinary_of_ne _ _ hne, hother c hne],
          .inr (.inr (by rw [setBinary_archive, harchive])), fun _ => by rwa [setBinary_disk],
          fun _ hash size timestamp pre hvalid => ?_⟩
        rw [setBinary_self] at hvalid
        cases hvalid
        refine ⟨data, header, last, ?_⟩
        exact {
          file := by rw [setBinary_disk, hdata]
          size := rfl
          hash := rfl
          timestamp := rfl
          recorded := by rw [setBinary_recorded, hrecorded, hlast]
          source := by rw [setBinary_disk, hsource]
          image := ⟨hverified, hlisted, Nat.le_of_not_lt hrecent⟩ }
    next => exact .failed hc hrecorded hother

theorem verifyBinary_verified (f : VerifyFaults) (b : Bool) (binary : Binary)
    (harchive : s.archive = .copied v) : Verified P b v binary s (verifyBinary P f b binary s) := by
  unfold verifyBinary
  rw [harchive]
  dsimp only
  have hother : ∀ c, c ≠ b → (s.setBinary b .none).binary c = s.binary c :=
    fun c hne => setBinary_of_ne _ _ hne
  have hrecorded : ∀ c, (s.setBinary b .none).recorded c = s.recorded c :=
    fun c => setBinary_recorded s b c _
  have hnone : (s.setBinary b .none).binary b = .none := setBinary_self s b _
  have hdisk : (s.setBinary b .none).disk = s.disk := setBinary_disk s b _
  have hcopied : (s.setBinary b .none).archive = .copied v := by rw [setBinary_archive, harchive]
  generalize s.setBinary b .none = s₀ at *
  split
  next =>
    refine ⟨by rw [hdisk]; exact .refl _ _, hrecorded, hother, .inr (.inr hcopied),
      fun _ => by rw [hdisk]; exact .refl _ _, fun _ hash size timestamp pre hvalid => ?_⟩
    rw [hnone] at hvalid
    cases hvalid
  next last hlast =>
    have hlast' : s.recorded b = some last := by
      rw [← hrecorded]
      unfold lastTimestamp at hlast
      split at hlast
      · cases hlast
      · unfold State.recorded
        exact hlast
    have hremoved : Confined (TempFile b) s.disk (s₀.setTree (tempLocation b)
        ((s₀.disk.at (tempLocation b)).remove f.removeTemp (tempFile b)).2).disk := by
      rw [← hdisk]
      exact removeTemp_confined f.removeTemp b s₀.disk
    have hrecorded₁ : ∀ c, (s₀.setTree (tempLocation b)
        ((s₀.disk.at (tempLocation b)).remove f.removeTemp (tempFile b)).2).recorded c =
          s.recorded c := hrecorded
    have hother₁ : ∀ c, c ≠ b → (s₀.setTree (tempLocation b)
        ((s₀.disk.at (tempLocation b)).remove f.removeTemp (tempFile b)).2).binary c =
          s.binary c := hother
    have hcopied₁ : (s₀.setTree (tempLocation b)
        ((s₀.disk.at (tempLocation b)).remove f.removeTemp (tempFile b)).2).archive =
          .copied v := hcopied
    generalize s₀.setTree (tempLocation b)
      ((s₀.disk.at (tempLocation b)).remove f.removeTemp (tempFile b)).2 = s₁ at *
    split
    next => exact .rejected hremoved hrecorded₁ hother₁
    next data hdata =>
      have hwrite : Confined (TempFile b) s₁.disk (s₁.disk.set (tempLocation b)
          (writeFile f.write (tempFile b) data (s₁.disk.at (tempLocation b))).2) :=
        writeFile_confined f.write data (temp_plain b) (temp_ne_nil b) fun _ hq => ⟨rfl, hq⟩
      split
      next t heq =>
        rw [heq] at hwrite
        have hwritten : Confined (TempFile b) s.disk (s₁.setTree (tempLocation b) t).disk :=
          hremoved.trans hwrite
        exact .rejected hwritten hrecorded₁ hother₁
      next t heq =>
        rw [heq] at hwrite
        have hwritten : Confined (TempFile b) s.disk (s₁.setTree (tempLocation b) t).disk :=
          hremoved.trans hwrite
        refine checkBinary_verified hwritten hrecorded₁ hother₁ hcopied₁ hlast' ?_ ?_
        · rw [← tarReadFile_of_fault hdata]
          exact tarReadFile_kept hwrite (tempFile_apart_archive b) false _
        show ((s₁.disk.set (tempLocation b) t).at (tempLocation b)).file? _ = _
        have hholds := writeFile_holds heq
        rw [(temp_plain b).resolve] at hholds
        rw [Disk.at_set_self, hholds]

/-! ## 4. Copying an archive -/

/-- The temporary files of the worker -/
def AnyTemp (l : Location) (q : Path) : Prop := ∃ b, Temp b l q

theorem verifyBinary_of_not_copied {f : VerifyFaults} (h : ∀ v, s.archive ≠ .copied v) :
    verifyBinary P f b binary s = s := by
  unfold verifyBinary
  split
  next v hv => exact (h v hv).elim
  next => rfl

/-- An image is still held once the other binary was verified. -/
theorem Held.other {w : ValidArchive} {other : Binary} {c : Bool} {hash : Hash}
    {size timestamp : Nat} {data : Bytes} {header : Header} {last : Nat}
    (h : Held P s b v binary hash size timestamp data header last) (hne : b ≠ c)
    (hverified : Verified P c w other s s') (hcopied : s'.archive = .copied w) :
    Held P s' b v binary hash size timestamp data header last :=
  { h with
    file := ((hverified.kept hcopied).file? (tempFile_apart hne)).trans h.file
    recorded := (hverified.recorded b).trans h.recorded
    source := (tarReadFile_kept (hverified.kept hcopied) (tempFile_apart_archive c) false _).trans
      h.source }

theorem verifyBinaries_good {f g : VerifyFaults} (hm : Mounted s.disk) (hscanned : Scanned v)
    (harchive : s.archive = .copied v) :
    let s₁ := verifyBinary P f false v.osBinary s
    let s₂ := match v.bootloader with
      | none => s₁
      | some bootloader => verifyBinary P g true bootloader s₁
    Good P s₂ ∧ Confined AnyTemp s.disk s₂.disk := by
  have hos := verifyBinary_verified (P := P) f false v.osBinary harchive
  have hosKept := hos.confined.mono (U := AnyTemp) fun _ _ h => ⟨false, h⟩
  dsimp only
  generalize verifyBinary P f false v.osBinary s = s₁ at *
  have hm₁ : Mounted s₁.disk := hos.confined.mounted hm
  -- an archive that was rejected holds nothing
  have hrejected (s₂ : State) (hm₂ : Mounted s₂.disk)
      (h : s₂.archive = .none ∨ s₂.archive = .error) : Good P s₂ := by
    rcases h with h | h
    · exact .dropped hm₂ (fun v hv => by rw [h] at hv; cases hv) fun v hv => by
        rw [h] at hv
        cases hv
    · exact .dropped hm₂ (fun v hv => by rw [h] at hv; cases hv) fun v hv => by
        rw [h] at hv
        cases hv
  have hscannedOf (s₂ : State) (h : s₂.archive = .copied v) (w : ValidArchive)
      (hw : s₂.archive = .valid w ∨ s₂.archive = .copied w) : Scanned w := by
    rw [h] at hw
    rcases hw with hw | hw
    · cases hw
    · cases hw
      exact hscanned
  split
  next hboot =>
    refine ⟨?_, hosKept⟩
    rcases hos.archive with h | h | h
    · exact hrejected s₁ hm₁ (.inl h)
    · exact hrejected s₁ hm₁ (.inr h)
    · refine ⟨hm₁, hscannedOf s₁ h, fun b w binary hash size timestamp pre hw hbinary hvalid => ?_⟩
      rw [h] at hw
      cases hw
      cases b with
      | false =>
        cases hbinary
        exact hos.held h hash size timestamp pre hvalid
      | true =>
        rw [ValidArchive.binary, if_pos rfl, hboot] at hbinary
        cases hbinary
  next bootloader hboot =>
    by_cases hcopied : s₁.archive = .copied v
    · have hbl := verifyBinary_verified (P := P) g true bootloader hcopied
      have hblKept := hbl.confined.mono (U := AnyTemp) fun _ _ h => ⟨true, h⟩
      refine ⟨?_, hosKept.trans hblKept⟩
      have hm₂ := hbl.confined.mounted hm₁
      rcases hbl.archive with h | h | h
      · exact hrejected _ hm₂ (.inl h)
      · exact hrejected _ hm₂ (.inr h)
      · refine ⟨hm₂, hscannedOf _ h, fun b w binary hash size timestamp pre hw hbinary hvalid => ?_⟩
        rw [h] at hw
        cases hw
        cases b with
        | false =>
          cases hbinary
          rw [hbl.other false (by decide)] at hvalid
          obtain ⟨data, header, last, hheld⟩ := hos.held hcopied hash size timestamp pre hvalid
          exact ⟨data, header, last, hheld.other (by decide) hbl h⟩
        | true =>
          rw [ValidArchive.binary, if_pos rfl, hboot] at hbinary
          cases hbinary
          exact hbl.held h hash size timestamp pre hvalid
    · have hnot : ∀ w, s₁.archive ≠ .copied w := by
        intro w hw
        rcases hos.archive with h | h | h
        · rw [h] at hw
          cases hw
        · rw [h] at hw
          cases hw
        · exact hcopied h
      rw [verifyBinary_of_not_copied hnot]
      exact ⟨hrejected s₁ hm₁ (by
        rcases hos.archive with h | h | h
        · exact .inl h
        · exact .inr h
        · exact (hcopied h).elim), hosKept⟩

/-- Copying an archive leaves verified images, and changes temporary files only. -/
theorem copyArchive_good (f : CopyFaults) (archive : Bytes) (h : Good P s) :
    Good P (copyArchive P f archive s) ∧
      Confined AnyTemp s.disk (copyArchive P f archive s).disk := by
  unfold copyArchive
  split
  next v hv =>
    have hscanned := h.scanned v (.inl hv)
    have hremove : Confined AnyTemp s.disk
        (s.disk.set .system (s.disk.system.remove f.removeOld TEMP_ARCHIVE_PATH).2) :=
      (removeArchive_confined f.removeOld false s.disk).mono fun _ _ h => ⟨false, h⟩
    have hm := hremove.mounted h.mounted
    dsimp only [State.setTree]
    generalize s.disk.set .system (s.disk.system.remove f.removeOld TEMP_ARCHIVE_PATH).2 = d₁ at *
    have hwrite : Confined AnyTemp d₁
        (d₁.set .system (writeFile f.write TEMP_ARCHIVE_PATH archive d₁.system).2) :=
      writeFile_confined (l := .system) f.write archive tempArchive_plain (by decide)
        fun _ hq => ⟨false, .inr ⟨rfl, hq⟩⟩
    -- nothing was copied
    have hfailed (d₂ : Disk) (hm₂ : Mounted d₂) :
        Good P { s with osBinary := .none, disk := d₂ } := by
      refine .dropped hm₂ (fun w hw => h.scanned w (.inl hw)) fun w hw => ?_
      dsimp only at hw
      rw [hv] at hw
      cases hw
    split
    next => exact ⟨hfailed d₁ hm, hremove⟩
    next =>
      split
      next t heq =>
        rw [heq] at hwrite
        exact ⟨hfailed _ (hwrite.mounted hm), hremove.trans hwrite⟩
      next t heq =>
        rw [heq] at hwrite
        obtain ⟨hgood, hconfined⟩ := verifyBinaries_good (P := P) (f := f.os) (g := f.bootloader)
          (s := { s with osBinary := .none, disk := d₁.set .system t, archive := .copied v })
          (hwrite.mounted hm) hscanned rfl
        exact ⟨hgood, (hremove.trans hwrite).trans hconfined⟩
  next => exact ⟨h, .refl _ _⟩

end

end Recovery
