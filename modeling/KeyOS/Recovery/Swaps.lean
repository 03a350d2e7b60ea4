import KeyOS.Recovery.Images

/-!
# Binaries are swapped

A binary is copied to its new name from the image that is held, and the names are swapped. What has
the final name after a swap is the image.
-/

namespace Recovery

open FatTree

variable {P : Platform} {s s' : State} {S : Location → Path → Prop} {b : Bool} {binary : Binary}
  {v : ValidArchive} {t t' : Tree} {data : Bytes} {header : Header} {last : Nat}

/-! ## 1. Names of binaries -/

theorem finalName_plain (binary : Binary) : Plain binary.finalName := by
  unfold Plain
  cases binary <;> decide

theorem oldName_plain (binary : Binary) : Plain binary.oldName := by
  unfold Plain
  cases binary <;> decide

theorem newName_plain (binary : Binary) : Plain binary.newName := by
  unfold Plain
  cases binary <;> decide

/-- Below the new name of a binary -/
def NewName (binary : Binary) (l : Location) (q : Path) : Prop :=
  l = binary.location ∧ binary.newName <+: q

/-- Below one of the three names of a binary -/
def SwapName (binary : Binary) (q : Path) : Prop :=
  binary.oldName <+: q ∨ binary.newName <+: q ∨ binary.finalName <+: q

def Names (binary : Binary) (l : Location) (q : Path) : Prop :=
  l = binary.location ∧ SwapName binary q

/-- What copying a binary changes -/
def Copying (b : Bool) (binary : Binary) (l : Location) (q : Path) : Prop :=
  NewName binary l q ∨ TempFile b l q

theorem newName_apart_temp (binary : Binary) (c : Bool) :
    ¬ NewName binary (tempLocation c) (tempFile c) := by
  unfold NewName
  cases binary <;> cases c <;> decide

theorem names_apart_temp (binary : Binary) (c : Bool) :
    ¬ Names binary (tempLocation c) (tempFile c) := by
  unfold Names SwapName
  cases binary <;> cases c <;> decide

theorem copying_apart_temp (binary : Binary) {b c : Bool} (h : c ≠ b) :
    ¬ Copying b binary (tempLocation c) (tempFile c) := by
  unfold Copying NewName TempFile
  cases binary <;> cases b <;> cases c <;> first | decide | exact (h rfl).elim

theorem newName_apart_archive (binary : Binary) : ¬ NewName binary .system TEMP_ARCHIVE_PATH := by
  unfold NewName
  cases binary <;> decide

theorem names_apart_archive (binary : Binary) : ¬ Names binary .system TEMP_ARCHIVE_PATH := by
  unfold Names SwapName
  cases binary <;> decide

theorem copying_apart_archive (b : Bool) (binary : Binary) :
    ¬ Copying b binary .system TEMP_ARCHIVE_PATH := fun h =>
  h.elim (newName_apart_archive binary) (tempFile_apart_archive b)

/-! ## 2. Copying a binary -/

/-- What a binary that was copied leaves -/
structure Copied (P : Platform) (b : Bool) (v : ValidArchive) (binary : Binary) (s s' : State) :
    Prop where
  archive : s'.archive = s.archive
  other : ∀ c, c ≠ b → s'.binary c = s.binary c
  recorded : ∀ c, s'.recorded c = s.recorded c
  image : ∃ data header last size pre,
    Held P s b v binary header.binaryHash size header.timestamp data header last ∧
    s.binary b = .valid header.binaryHash size header.timestamp pre ∧
    s'.binary b = .copied header.binaryHash header.timestamp pre ∧
    (s'.disk.at binary.location).file? binary.newName = some (copiedBytes P b size data)

theorem removeNew_confined (fault : Option (Path → Bool)) (binary : Binary) (d : Disk) :
    Confined (NewName binary) d (d.set binary.location
      ((d.at binary.location).remove fault binary.newName).2) :=
  remove_confined fault (newName_plain binary) (by cases binary <;> decide) fun _ hq => ⟨rfl, hq⟩

theorem writeNew_confined (f : WriteFaults) (payload : Bytes) (binary : Binary) (d : Disk) :
    Confined (NewName binary) d (d.set binary.location
      (writeFile f binary.newName payload (d.at binary.location)).2) :=
  writeFile_confined f payload (newName_plain binary) (by cases binary <;> decide)
    fun _ hq => ⟨rfl, hq⟩

/-- A state whose disk has changed at the new name only is as good. -/
theorem Good.newName {d : Disk} (h : Good P s) (hc : Confined (NewName binary) s.disk d) :
    Good P { s with disk := d } :=
  h.next hc rfl (newName_apart_archive binary) fun c => .inr ⟨newName_apart_temp binary c, rfl, rfl⟩

/-- The first step of copying a binary -/
def withoutNew (f : BinaryFaults) (binary : Binary) (s : State) : State :=
  s.setTree binary.location ((s.disk.at binary.location).remove f.removeNew binary.newName).2

theorem withoutNew_confined (f : BinaryFaults) (binary : Binary) (s : State) :
    Confined (NewName binary) s.disk (withoutNew f binary s).disk :=
  removeNew_confined f.removeNew binary s.disk

/-- Copying fails and keeps the image, or leaves it under the new name. -/
theorem copyBinary_cases (P : Platform) (s : State) (b : Bool) (binary : Binary)
    (f : BinaryFaults) :
    (∃ d, Confined (NewName binary) s.disk d ∧
      copyBinary P f b binary s = (false, { s with disk := d })) ∨
    ∃ hash size timestamp pre data t, s.binary b = .valid hash size timestamp pre ∧
      readFile f.source (tempFile b) ((withoutNew f binary s).disk.at (tempLocation b)) =
        some data ∧
      writeFile f.write binary.newName (copiedBytes P b size data)
        ((withoutNew f binary s).disk.at binary.location) = (true, t) ∧
      copyBinary P f b binary s =
        (true, (((withoutNew f binary s).setTree binary.location t).setTree (tempLocation b)
          ((((withoutNew f binary s).setTree binary.location t).disk.at (tempLocation b)).remove
            f.removeTemp (tempFile b)).2).setBinary b (.copied hash timestamp pre)) := by
  have hremove := withoutNew_confined f binary s
  unfold copyBinary
  split
  next hash size timestamp pre hvalid =>
    show _ ∨ _
    dsimp only
    rw [show s.setTree binary.location
      ((s.disk.at binary.location).remove f.removeNew binary.newName).2 = withoutNew f binary s from
        rfl]
    split
    next => exact .inl ⟨_, hremove, rfl⟩
    next data hread =>
      have hwrite := writeNew_confined f.write (copiedBytes P b size data) binary
        (withoutNew f binary s).disk
      split
      next t heq =>
        rw [heq] at hwrite
        exact .inl ⟨_, hremove.trans hwrite, rfl⟩
      next t heq =>
        exact .inr ⟨hash, size, timestamp, pre, data, t, hvalid, hread, heq, rfl⟩
  next => exact .inl ⟨s.disk, .refl _ _, rfl⟩

theorem copyBinary_copied {f : BinaryFaults} (h : Good P s) (hv : s.archive = .copied v)
    (hb : v.binary b = some binary) (heq : copyBinary P f b binary s = (true, s')) :
    Good P s' ∧ Confined (Copying b binary) s.disk s'.disk ∧ Copied P b v binary s s' := by
  rcases copyBinary_cases P s b binary f with
    ⟨d, -, hfalse⟩ | ⟨hash, size, timestamp, pre, data, t, hvalid, hread, hwrite, htrue⟩
  · rw [hfalse] at heq
    cases heq
  · rw [htrue] at heq
    cases heq
    obtain ⟨held, header, last, hheld⟩ := h.held b v binary hash size timestamp pre hv hb hvalid
    have hremove := withoutNew_confined f binary s
    -- the image that is copied is the one that is held
    have hdata : data = held := by
      unfold readFile at hread
      split at hread
      · cases hread
      · rw [(temp_plain b).resolve, hremove.file? (newName_apart_temp binary b), hheld.file] at hread
        exact (Option.some.inj hread).symm
    subst hdata
    have hnew := writeNew_confined f.write (copiedBytes P b size data) binary
      (withoutNew f binary s).disk
    rw [hwrite] at hnew
    have htemp := removeTemp_confined f.removeTemp b
      ((withoutNew f binary s).setTree binary.location t).disk
    have hconfined : Confined (Copying b binary) s.disk _ :=
      ((hremove.trans hnew).mono fun _ _ hq => .inl hq).trans
        (htemp.mono fun _ _ hq => .inr hq)
    have hcopied : Copied P b v binary s
        ((((withoutNew f binary s).setTree binary.location t).setTree (tempLocation b)
          ((((withoutNew f binary s).setTree binary.location t).disk.at (tempLocation b)).remove
            f.removeTemp (tempFile b)).2).setBinary b (.copied hash timestamp pre)) := by
      refine ⟨by rw [setBinary_archive]; rfl, fun c hne => by rw [setBinary_of_ne _ _ hne]; rfl,
        fun c => by rw [setBinary_recorded]; rfl, data, header, last, size, pre, ?_, ?_, ?_, ?_⟩
      · rw [← hheld.hash, ← hheld.timestamp]
        exact hheld
      · rw [hvalid, hheld.hash, hheld.timestamp]
      · rw [setBinary_self, hheld.hash, hheld.timestamp]
      · rw [setBinary_disk]
        have hplace : ¬ TempFile b binary.location binary.newName := by
          unfold TempFile
          cases binary <;> cases b <;> decide
        refine (htemp.file? hplace).trans ?_
        show ((Disk.set _ binary.location t).at binary.location).file? _ = _
        have hholds := writeFile_holds hwrite
        rw [(newName_plain binary).resolve] at hholds
        rw [Disk.at_set_self, hholds]
    refine ⟨h.next (S := Copying b binary) ?_ hcopied.archive (copying_apart_archive b binary)
      fun c => ?_, ?_, hcopied⟩
    · rw [setBinary_disk]
      exact hconfined
    · rcases eq_or_ne c b with rfl | hne
      · refine .inl ?_
        rw [setBinary_self]
        exact id
      · exact .inr ⟨copying_apart_temp binary hne, hcopied.other c hne, hcopied.recorded c⟩
    · rw [setBinary_disk]
      exact hconfined

/-! ## 3. Swapping names -/

theorem names_apart (binary : Binary) :
    ¬ binary.oldName <+: binary.newName ∧ ¬ binary.finalName <+: binary.newName ∧
      ¬ binary.oldName <+: binary.finalName ∧ ¬ binary.newName <+: binary.finalName ∧
      ¬ binary.finalName <+: binary.oldName ∧ ¬ binary.newName <+: binary.oldName := by
  cases binary <;> decide

theorem names_length (binary : Binary) :
    binary.oldName.length = binary.finalName.length ∧
      binary.newName.length = binary.finalName.length ∧ binary.finalName ≠ [] ∧
      binary.oldName ≠ [] := by
  cases binary <;> decide

/-- The tree before the new name is given away -/
def setAside (f : BinaryFaults) (binary : Binary) (t : Tree) : Tree :=
  ((t.remove f.removeOld binary.oldName).2.rename (renameFault f.renameOld)
    (f.shorts binary.oldName) binary.finalName binary.oldName).2

theorem setAside_kept (f : BinaryFaults) (binary : Binary) (t : Tree) :
    Kept (fun q => binary.oldName <+: q ∨ binary.finalName <+: q) t (setAside f binary t) := by
  obtain ⟨hold, -, -, hne⟩ := names_length binary
  refine (remove_kept f.removeOld hne fun q hq => .inl ?_).trans
    (rename_kept _ _ (finalName_plain binary) (oldName_plain binary) hold.symm hne fun q hq => hq.symm)
  rwa [(oldName_plain binary).resolve] at hq

theorem swapBinary_kept (f : BinaryFaults) (binary : Binary) (t : Tree) :
    Kept (SwapName binary) t (swapBinary f binary t).2 := by
  obtain ⟨hold, hnew, hne, -⟩ := names_length binary
  have haside := (setAside_kept f binary t).mono (U := SwapName binary) fun q hq =>
    hq.elim .inl fun hq => .inr (.inr hq)
  have hswap := haside.trans (rename_kept (renameFault f.renameNew) (f.shorts binary.finalName)
    (newName_plain binary) (finalName_plain binary) hnew hne fun q hq =>
      hq.elim (fun hq => .inr (.inl hq)) fun hq => .inr (.inr hq))
  unfold swapBinary
  dsimp only
  rw [show ((t.remove f.removeOld binary.oldName).2.rename (renameFault f.renameOld)
    (f.shorts binary.oldName) binary.finalName binary.oldName).2 = setAside f binary t from rfl]
  split
  next heq => rw [heq] at hswap; exact hswap
  next heq =>
    rw [heq] at hswap
    exact hswap.trans (rename_kept _ _ (oldName_plain binary) (finalName_plain binary) hold hne
      fun q hq => hq.elim .inl fun hq => .inr (.inr hq))

/-- A swap that succeeds gives the new file the final name. -/
theorem swapBinary_ok {f : BinaryFaults} (hfile : t.file? binary.newName = some data)
    (h : swapBinary f binary t = (true, t')) : t'.file? binary.finalName = some data := by
  obtain ⟨hold, hfinal, -⟩ := names_apart binary
  have haside : (setAside f binary t).file? binary.newName = some data := by
    rw [(setAside_kept f binary t).files _ fun hq => hq.elim hold hfinal, hfile]
  unfold swapBinary at h
  dsimp only at h
  rw [show ((t.remove f.removeOld binary.oldName).2.rename (renameFault f.renameOld)
    (f.shorts binary.oldName) binary.finalName binary.oldName).2 = setAside f binary t from rfl] at h
  split at h
  next t₁ heq =>
    cases h
    refine rename_moves (newName_plain binary) (finalName_plain binary) ?_ haside heq
    exact fun heq => hfinal (heq ▸ List.prefix_refl _)
  next => cases h

/-! ## 4. Finalizing a binary -/

/-- What finalizing a binary does -/
structure Finalizing (b : Bool) (binary : Binary) (s : State) (result : Finalized) (s' : State) :
    Prop where
  confined : Confined (Names binary) s.disk s'.disk
  archive : s'.archive = s.archive
  binaries : ∀ c, s'.binary c = s.binary c
  recorded : ∀ c, c ≠ b → s'.recorded c = s.recorded c
  final : result = .done → ∀ data,
    (s.disk.at binary.location).file? binary.newName = some data →
    (s'.disk.at binary.location).file? binary.finalName = some data

theorem recordTimestamp_disk (fault : Bool) (timestamp : Nat) (s : State) :
    (recordTimestamp fault timestamp s).disk = s.disk := by
  unfold recordTimestamp
  split <;> rfl

theorem recordTimestamp_archive (fault : Bool) (timestamp : Nat) (s : State) :
    (recordTimestamp fault timestamp s).archive = s.archive := by
  unfold recordTimestamp
  split <;> rfl

theorem recordTimestamp_binary (fault : Bool) (timestamp : Nat) (s : State) (c : Bool) :
    (recordTimestamp fault timestamp s).binary c = s.binary c := by
  unfold recordTimestamp
  split <;> rfl

theorem recordTimestamp_recorded (fault : Bool) (timestamp : Nat) (s : State) :
    (recordTimestamp fault timestamp s).recorded true = s.recorded true := by
  unfold recordTimestamp
  split <;> rfl

theorem finalizeOsBinary_finalizing (f : BinaryFaults) (b : Bool) (binary : Binary) (s : State) :
    Finalizing b binary s (finalizeOsBinary f b binary s).1 (finalizeOsBinary f b binary s).2 := by
  have hswap : Confined (Names binary) s.disk (s.disk.set binary.location
      (swapBinary f binary (s.disk.at binary.location)).2) :=
    .set ((swapBinary_kept f binary _).mono fun _ hq => ⟨rfl, hq⟩)
  unfold finalizeOsBinary
  split
  next hash timestamp pre _ =>
    split
    next renamed t heq =>
    rw [heq] at hswap
    have hfinal (hrenamed : renamed = true) (data : Bytes)
        (hnew : (s.disk.at binary.location).file? binary.newName = some data) :
        ((s.disk.set binary.location t).at binary.location).file? binary.finalName =
          some data := by
      rw [Disk.at_set_self]
      exact swapBinary_ok hnew (hrenamed ▸ heq)
    have hdone {x : Finalized} (hx : (if renamed = false then Finalized.beforeSwap else x) = .done) :
        renamed = true := by
      cases renamed with
      | true => rfl
      | false => cases hx
    by_cases hrecord : (pre || b) = true
    · dsimp only
      rw [if_pos hrecord]
      exact ⟨hswap, rfl, fun _ => rfl, fun _ _ => rfl, fun h => hfinal (hdone h)⟩
    · dsimp only
      rw [if_neg hrecord]
      have hb : b = false := by
        cases b with
        | false => rfl
        | true =>
          rw [Bool.or_true] at hrecord
          exact (hrecord rfl).elim
      refine ⟨by rw [recordTimestamp_disk]; exact hswap, recordTimestamp_archive _ _ _,
        recordTimestamp_binary _ _ _, fun c hne => ?_, fun h data hnew => ?_⟩
      · cases c with
        | true => exact recordTimestamp_recorded _ _ _
        | false => exact (hne hb.symm).elim
      · rw [recordTimestamp_disk]
        exact hfinal (hdone h) data hnew
  next => exact ⟨.refl _ _, rfl, fun _ => rfl, fun _ _ => rfl, nofun⟩

/-- Finalizing a binary that was copied keeps what is good. -/
theorem Finalizing.good {result : Finalized} (h : Good P s) (hf : Finalizing b binary s result s')
    (hcopied : ¬ (s.binary b).IsValid) : Good P s' := by
  refine h.next hf.confined hf.archive (names_apart_archive binary) fun c => ?_
  rcases eq_or_ne c b with rfl | hne
  · exact .inl (by rwa [hf.binaries])
  · exact .inr ⟨names_apart_temp binary c, hf.binaries c, hf.recorded c hne⟩

/-! ## 5. The OS -/

def Marker (l : Location) (q : Path) : Prop :=
  l = .system ∧ UPDATE_STATE_INVALIDATED_MARKER_PATH <+: q

/-- What replacing the OS changes -/
def OsPlace (binary : Binary) (l : Location) (q : Path) : Prop :=
  Copying false binary l q ∨ Marker l q ∨ Names binary l q

theorem marker_apart (c : Bool) : ¬ Marker (tempLocation c) (tempFile c) := by
  unfold Marker
  cases c <;> decide

theorem marker_apart_archive : ¬ Marker .system TEMP_ARCHIVE_PATH := by
  unfold Marker
  decide

theorem marker_apart_new (binary : Binary) : ¬ Marker binary.location binary.newName := by
  unfold Marker
  cases binary <;> decide

theorem marker_apart_final (binary : Binary) : ¬ Marker binary.location binary.finalName := by
  unfold Marker
  cases binary <;> decide

theorem Good.marker {d : Disk} (h : Good P s) (hc : Confined Marker s.disk d) :
    Good P { s with disk := d } :=
  h.next hc rfl marker_apart_archive fun c => .inr ⟨marker_apart c, rfl, rfl⟩

theorem mark_confined (f : MarkerFaults) {d : Disk} (hd : Mounted d) :
    Confined Marker d (d.set .system (markUpdateStateInvalidated f d.system).2) :=
  .set (l := .system) (markUpdateStateInvalidated_kept f (hd.closed .system) (hd.root .system)
    fun _ hq => ⟨rfl, hq⟩)

theorem removeMarker_confined (fault : Option (Path → Bool)) (d : Disk) :
    Confined Marker d
      (d.set .system (d.system.remove fault UPDATE_STATE_INVALIDATED_MARKER_PATH).2) :=
  remove_confined (l := .system) fault marker_plain (by decide) fun _ hq => ⟨rfl, hq⟩

/-- What replacing the OS does -/
structure OsReplaced (P : Platform) (v : ValidArchive) (s : State) (done : Bool) (s' : State) :
    Prop where
  good : Good P s'
  confined : Confined (OsPlace v.osBinary) s.disk s'.disk
  archive : s'.archive = s.archive
  recorded : s'.recorded true = s.recorded true
  bootloader : s'.binary true = s.binary true
  image : done = true → ∃ data header,
    IsImage P v v.osBinary s.firmwareTimestamp data header ∧
    (s'.disk.at v.osBinary.location).file? v.osBinary.finalName = some data

theorem replaceOs_replaced (f : StartFaults) (h : Good P s) (hv : s.archive = .copied v) :
    OsReplaced P v s (replaceOs P f v s).1 (replaceOs P f v s).2 := by
  unfold replaceOs
  split
  next s₁ heq =>
    rcases copyBinary_cases P s false v.osBinary f.os with
      ⟨d, hd, hfalse⟩ | ⟨_, _, _, _, _, _, -, -, -, htrue⟩
    · rw [hfalse] at heq
      cases heq
      exact ⟨h.newName hd, hd.mono fun _ _ hq => .inl (.inl hq), rfl, rfl, rfl, (by intro h; cases h)⟩
    · rw [htrue] at heq
      cases heq
  next s₁ heq =>
    obtain ⟨hgood₁, hconfined₁, hcopied⟩ := copyBinary_copied h hv rfl heq
    have hplace₁ : Confined (OsPlace v.osBinary) s.disk s₁.disk :=
      hconfined₁.mono fun _ _ hq => .inl hq
    have hrecorded₁ := hcopied.recorded true
    have hboot₁ := hcopied.other true (by decide)
    split
    next => exact ⟨hgood₁, hplace₁, hcopied.archive, hrecorded₁, hboot₁, (by intro h; cases h)⟩
    next =>
      have hmark := mark_confined f.marker hgood₁.mounted
      split
      next t heq' =>
        rw [heq'] at hmark
        exact ⟨hgood₁.marker hmark, hplace₁.trans (hmark.mono fun _ _ hq => .inr (.inl hq)),
          hcopied.archive, hrecorded₁, hboot₁, (by intro h; cases h)⟩
      next t heq' =>
        rw [heq'] at hmark
        have hgood₂ := hgood₁.marker hmark
        have hplace₂ := hplace₁.trans (hmark.mono fun _ _ hq => .inr (.inl hq))
        have hfinalizing := finalizeOsBinary_finalizing f.os false v.osBinary (s₁.setTree .system t)
        obtain ⟨data, header, last, size, pre, hheld, -, hstate, hnew⟩ := hcopied.image
        have hnot : ¬ (State.binary { s₁ with disk := s₁.disk.set .system t } false).IsValid := by
          show ¬ (s₁.binary false).IsValid
          rw [hstate]
          exact id
        have hnew₂ : ((s₁.disk.set .system t).at v.osBinary.location).file? v.osBinary.newName =
            some data := by
          rw [hmark.file? (marker_apart_new v.osBinary), hnew]
          rfl
        have hgood₃ := hfinalizing.good hgood₂ hnot
        have hplace₃ := hplace₂.trans (hfinalizing.confined.mono fun _ _ hq => .inr (.inr hq))
        have hrecorded₃ := (hfinalizing.recorded true (by decide)).trans hrecorded₁
        have hboot₃ := (hfinalizing.binaries true).trans hboot₁
        split
        next s₃ heq₃ =>
          rw [heq₃] at hfinalizing hgood₃ hplace₃ hrecorded₃ hboot₃
          refine ⟨hgood₃, hplace₃, hfinalizing.archive.trans hcopied.archive, hrecorded₃, hboot₃,
            fun _ => ⟨data, header, ?_, hfinalizing.final rfl data hnew₂⟩⟩
          have hlast : s.firmwareTimestamp = last := Option.some.inj hheld.recorded
          rw [hlast]
          exact hheld.image
        next s₃ heq₃ =>
          rw [heq₃] at hfinalizing hgood₃ hplace₃ hrecorded₃ hboot₃
          exact ⟨hgood₃, hplace₃, hfinalizing.archive.trans hcopied.archive, hrecorded₃, hboot₃,
            (by intro h; cases h)⟩
        next s₃ heq₃ =>
          rw [heq₃] at hfinalizing hgood₃ hplace₃ hrecorded₃ hboot₃
          have hunmark := removeMarker_confined f.marker.remove s₃.disk
          exact ⟨hgood₃.marker hunmark, hplace₃.trans (hunmark.mono fun _ _ hq => .inr (.inl hq)),
            hfinalizing.archive.trans hcopied.archive, hrecorded₃, hboot₃, (by intro h; cases h)⟩

/-! ## 6. The bootloader -/

/-- What replacing the bootloader changes -/
def BootloaderPlace (v : ValidArchive) (l : Location) (q : Path) : Prop :=
  ∃ binary, v.bootloader = some binary ∧ (Copying true binary l q ∨ Names binary l q)

/-- What replacing the bootloader does -/
structure BootloaderReplaced (P : Platform) (v : ValidArchive) (s : State) (done : Bool)
    (s' : State) : Prop where
  good : Good P s'
  confined : Confined (BootloaderPlace v) s.disk s'.disk
  archive : s'.archive = s.archive
  recorded : ∀ c, s'.recorded c = s.recorded c
  image : done = true → ∀ binary, v.bootloader = some binary → ∃ data header last,
    s.bootloaderBuildDate = some last ∧ IsImage P v binary last data header ∧
    (s'.disk.at binary.location).file? binary.finalName = some (data.drop P.headerSize)

theorem finalizeBootloader_recorded (f : BinaryFaults) (binary : Binary) (s : State) (c : Bool) :
    (finalizeOsBinary f true binary s).2.recorded c = s.recorded c := by
  unfold finalizeOsBinary
  split
  · split
    dsimp only
    rw [if_pos (Bool.or_true _)]
    rfl
  · rfl

theorem replaceBootloader_replaced (f : StartFaults) (h : Good P s) (hv : s.archive = .copied v) :
    BootloaderReplaced P v s (replaceBootloader P f v s).1 (replaceBootloader P f v s).2 := by
  unfold replaceBootloader
  split
  next hnone =>
    refine ⟨h, .refl _ _, rfl, fun _ => rfl, fun _ binary hbinary => ?_⟩
    rw [hnone] at hbinary
    cases hbinary
  next binary hbinary =>
    split
    next s₁ heq =>
      rcases copyBinary_cases P s true binary f.bootloader with
        ⟨d, hd, hfalse⟩ | ⟨_, _, _, _, _, _, -, -, -, htrue⟩
      · rw [hfalse] at heq
        cases heq
        exact ⟨h.newName hd, hd.mono fun _ _ hq => ⟨binary, hbinary, .inl (.inl hq)⟩, rfl,
          fun _ => rfl, nofun⟩
      · rw [htrue] at heq
        cases heq
    next s₁ heq =>
      have hlisted : v.binary true = some binary := hbinary
      obtain ⟨hgood₁, hconfined₁, hcopied⟩ := copyBinary_copied h hv hlisted heq
      obtain ⟨data, header, last, size, pre, hheld, -, hstate, hnew⟩ := hcopied.image
      have hfinalizing := finalizeOsBinary_finalizing f.bootloader true binary s₁
      have hrecorded := finalizeBootloader_recorded f.bootloader binary s₁
      have hnot : ¬ (s₁.binary true).IsValid := by
        rw [hstate]
        exact id
      have hgood₂ := hfinalizing.good hgood₁ hnot
      have hplace₂ := (hconfined₁.mono (U := BootloaderPlace v)
        fun _ _ hq => ⟨binary, hbinary, .inl hq⟩).trans
          (hfinalizing.confined.mono fun _ _ hq => ⟨binary, hbinary, .inr hq⟩)
      split
      next s₂ heq₂ =>
        rw [heq₂] at hfinalizing hgood₂ hplace₂ hrecorded
        refine ⟨hgood₂, hplace₂, hfinalizing.archive.trans hcopied.archive,
          fun c => (hrecorded c).trans (hcopied.recorded c), fun _ other hother => ?_⟩
        rw [hbinary] at hother
        cases hother
        refine ⟨data, header, last, hheld.recorded, hheld.image, ?_⟩
        have hbytes : copiedBytes P true size data = data.drop P.headerSize := by
          unfold copiedBytes
          rw [if_pos rfl, hheld.size, List.take_of_length_le]
          rw [List.length_drop]
        rw [← hbytes]
        exact hfinalizing.final rfl _ hnew
      next result s₂ hresult heq₂ =>
        rw [heq₂] at hfinalizing hgood₂ hplace₂ hrecorded
        exact ⟨hgood₂, hplace₂, hfinalizing.archive.trans hcopied.archive,
          fun c => (hrecorded c).trans (hcopied.recorded c), nofun⟩

end Recovery
