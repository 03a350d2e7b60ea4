import KeyOS.Recovery.Vouched

/-!
# Replacing the OS

A swap that fails gives the old binary its name back, unless the rename back fails too. The recorded
timestamp and the marker stay in step with the OS if no call on them fails (`CarefulOs`).
-/

namespace Recovery

open FatTree

variable {P : Platform} {s s' : State} {v : ValidArchive} {binary : Binary} {t t' : Tree}
  {data : Bytes} {f : BinaryFaults}

/-! ## 1. Renames -/

/-- A rename within a directory fails if it is made to or the new name is taken. -/
theorem rename_within (fault : Bool) {src dst : Path} (short : Option Name) (hsrc : Plain src)
    (hdst : Plain dst) (hne : src ≠ dst) (hsrcNil : src ≠ []) (hdstNil : dst ≠ [])
    (hdir : src.dropLast = dst.dropLast) (hc : t.Closed) (hsome : (t.node src).isSome) :
    (t.rename (renameFault fault) short src dst = (.error .io, t) ∧
        (fault = true ∨ (t.node dst).isSome)) ∨
      (t.rename (renameFault fault) short src dst = (.ok (), t.move src dst short) ∧
        fault = false ∧ t.node dst = none) := by
  cases fault with
  | true => exact .inl ⟨rfl, .inl rfl⟩
  | false =>
    have hparent : t.node dst.dropLast = some .dir := by
      rw [← hdir]
      refine hc src.dropLast (src.getLast hsrcNil) ?_
      rwa [List.dropLast_append_getLast]
    obtain ⟨v, hv⟩ := Option.isSome_iff_exists.1 hsome
    show (t.moveTo short src dst = _ ∧ _) ∨ (t.moveTo short src dst = _ ∧ _)
    unfold Tree.moveTo
    rw [hsrc.resolve, hdst.resolve, hv]
    cases hnode : t.node dst with
    | some w =>
      refine .inl ⟨?_, .inr rfl⟩
      dsimp only
      rw [if_neg hne]
    | none =>
      refine .inr ⟨?_, rfl, rfl⟩
      dsimp only
      rw [if_pos ⟨hparent, hdstNil⟩]

/-- A rename of what is not there has no effect. -/
theorem rename_missing (fault : Bool) {src : Path} (dst : Path) (short : Option Name) (hsrc : Plain src)
    (hnone : t.node src = none) : ∃ e, t.rename (renameFault fault) short src dst = (.error e, t) := by
  cases fault with
  | true => exact ⟨_, rfl⟩
  | false =>
    refine ⟨t.missing src, ?_⟩
    show t.moveTo short src dst = _
    unfold Tree.moveTo
    rw [hsrc.resolve, hnone]

theorem names_dropLast (binary : Binary) :
    binary.oldName.dropLast = binary.finalName.dropLast ∧
      binary.newName.dropLast = binary.finalName.dropLast ∧
      binary.newName ≠ [] ∧ binary.oldName ≠ binary.finalName ∧
      binary.newName ≠ binary.finalName := by
  cases binary <;> decide

theorem isSome_of_file {q : Path} (h : t.file? q = some data) : (t.node q).isSome := by
  rw [node_of_file? h]
  rfl

theorem removeOld_file (f : BinaryFaults) {q : Path} (h : ¬ binary.oldName <+: q) :
    (t.remove f.removeOld binary.oldName).2.file? q = t.file? q :=
  file?_congr (Tree.remove_outside (by rwa [(oldName_plain binary).resolve]))

/-- The old binary is set aside, or stays. -/
theorem setAside_cases (f : BinaryFaults) (hc : t.Closed) {old : Bytes}
    (hfinal : t.file? binary.finalName = some old) :
    (setAside f binary t).file? binary.finalName = some old ∨
      (setAside f binary t).node binary.finalName = none ∧
        (setAside f binary t).file? binary.oldName = some old ∧ f.renameOld = false := by
  obtain ⟨-, -, hapart, -, hapart', -⟩ := names_apart binary
  obtain ⟨hdir, -, -, hne, -⟩ := names_dropLast binary
  obtain ⟨-, -, hfinalNil, holdNil⟩ := names_length binary
  have hthere := removeOld_file (t := t) f hapart
  rw [hfinal] at hthere
  have hc₁ : (t.remove f.removeOld binary.oldName).2.Closed := Tree.remove_closed hc
  unfold setAside
  generalize (t.remove f.removeOld binary.oldName).2 = t₁ at *
  rcases rename_within f.renameOld (f.shorts binary.oldName) (finalName_plain binary)
    (oldName_plain binary) hne.symm hfinalNil holdNil hdir.symm hc₁ (isSome_of_file hthere)
    with ⟨heq, -⟩ | ⟨heq, hfault, -⟩
  · rw [heq]
    exact .inl hthere
  · rw [heq]
    refine .inr ⟨Tree.move_of_source _ hapart (List.prefix_refl _), ?_, hfault⟩
    rw [Tree.file?, Tree.move_self, ← Tree.file?, hthere]

/-- A swap that fails leaves the old binary, if not every rename but the first fails. -/
theorem swapBinary_back (hc : t.Closed) {old new : Bytes}
    (hfinal : t.file? binary.finalName = some old) (hnew : t.file? binary.newName = some new)
    (hback : f.renameNew = true → f.renameBack = true → f.renameOld = true)
    (h : swapBinary f binary t = (false, t')) : t'.file? binary.finalName = some old := by
  obtain ⟨hdirOld, hdirNew, hnewNil, hneOld, hneNew⟩ := names_dropLast binary
  obtain ⟨-, -, hfinalNil, holdNil⟩ := names_length binary
  obtain ⟨holdNew, hfinalNew, -⟩ := names_apart binary
  have haside := setAside_cases f hc hfinal
  have hkept := setAside_kept f binary t
  have hnew' : (setAside f binary t).file? binary.newName = some new := by
    rw [hkept.files _ fun hq => hq.elim holdNew hfinalNew, hnew]
  have hc' := hkept.closed hc
  unfold swapBinary at h
  dsimp only at h
  rw [show ((t.remove f.removeOld binary.oldName).2.rename (renameFault f.renameOld)
    (f.shorts binary.oldName) binary.finalName binary.oldName).2 = setAside f binary t from rfl] at h
  generalize setAside f binary t = t₁ at *
  rcases rename_within f.renameNew (f.shorts binary.finalName) (newName_plain binary)
    (finalName_plain binary) hneNew hnewNil hfinalNil hdirNew hc' (isSome_of_file hnew')
    with ⟨heq, hwhy⟩ | ⟨heq, -⟩
  · rw [heq] at h
    obtain ⟨-, rfl⟩ := Prod.mk.injEq .. ▸ h
    rcases haside with hthere | ⟨hgone, hold, hfault⟩
    · -- the name is still taken
      cases hnode : t₁.node binary.oldName with
      | none =>
        obtain ⟨e, he⟩ := rename_missing f.renameBack binary.finalName
          (f.shorts binary.finalName) (oldName_plain binary) hnode
        rw [he]
        exact hthere
      | some w =>
        rcases rename_within f.renameBack (f.shorts binary.finalName)
          (oldName_plain binary) (finalName_plain binary) hneOld holdNil hfinalNil hdirOld hc'
          (by rw [hnode]; rfl) with ⟨he, -⟩ | ⟨-, -, hfree⟩
        · rw [he]
          exact hthere
        · rw [node_of_file? hthere] at hfree
          cases hfree
    · -- it is free, and the old binary gets it back
      have hnewFault : f.renameNew = true := by
        rcases hwhy with hwhy | hwhy
        · exact hwhy
        · rw [hgone] at hwhy
          cases hwhy
      rcases rename_within f.renameBack (f.shorts binary.finalName)
        (oldName_plain binary) (finalName_plain binary) hneOld holdNil hfinalNil hdirOld hc'
        (isSome_of_file hold) with ⟨-, hbackFault | htaken⟩ | ⟨he, -⟩
      · have hfirst := hback hnewFault hbackFault
        rw [hfault] at hfirst
        cases hfirst
      · rw [hgone] at htaken
        cases htaken
      · rw [he, Tree.file?, Tree.move_self, ← Tree.file?, hold]
  · rw [heq] at h
    cases h

/-- No call fails that gives the new binary its name. -/
structure Swaps (f : BinaryFaults) : Prop where
  removeOld : f.removeOld = none
  renameOld : f.renameOld = false
  renameNew : f.renameNew = false

theorem swapBinary_succeeds (hc : t.Closed) {new : Bytes} (hnew : t.file? binary.newName = some new)
    (hf : Swaps f) : (swapBinary f binary t).1 = true := by
  obtain ⟨hdirOld, hdirNew, hnewNil, hneOld, hneNew⟩ := names_dropLast binary
  obtain ⟨-, -, hfinalNil, holdNil⟩ := names_length binary
  obtain ⟨holdNew, hfinalNew, hapart, -⟩ := names_apart binary
  have hkept := setAside_kept f binary t
  have hnew' : (setAside f binary t).file? binary.newName = some new := by
    rw [hkept.files _ fun hq => hq.elim holdNew hfinalNew, hnew]
  have hc' := hkept.closed hc
  -- the name is free once the old binary is set aside
  have hfree : (setAside f binary t).node binary.finalName = none := by
    have hc₁ : (t.remove f.removeOld binary.oldName).2.Closed := Tree.remove_closed hc
    have hgone : (t.remove f.removeOld binary.oldName).2.node binary.oldName = none := by
      rw [hf.removeOld]
      exact remove_none_gone hc (by rw [(oldName_plain binary).resolve])
    unfold setAside
    generalize (t.remove f.removeOld binary.oldName).2 = t₁ at *
    cases hnode : t₁.node binary.finalName with
    | none =>
      obtain ⟨e, he⟩ := rename_missing f.renameOld binary.oldName
        (f.shorts binary.oldName) (finalName_plain binary) hnode
      rw [he]
      exact hnode
    | some w =>
      rcases rename_within f.renameOld (f.shorts binary.oldName) (finalName_plain binary)
        (oldName_plain binary) hneOld.symm hfinalNil holdNil hdirOld.symm hc₁ (by rw [hnode]; rfl)
        with ⟨-, hfault | htaken⟩ | ⟨he, -⟩
      · rw [hf.renameOld] at hfault
        cases hfault
      · rw [hgone] at htaken
        cases htaken
      · rw [he]
        exact Tree.move_of_source _ hapart (List.prefix_refl _)
  unfold swapBinary
  dsimp only
  rw [show ((t.remove f.removeOld binary.oldName).2.rename (renameFault f.renameOld)
    (f.shorts binary.oldName) binary.finalName binary.oldName).2 = setAside f binary t from rfl]
  generalize setAside f binary t = t₁ at *
  rcases rename_within f.renameNew (f.shorts binary.finalName) (newName_plain binary)
    (finalName_plain binary) hneNew hnewNil hfinalNil hdirNew hc' (isSome_of_file hnew')
    with ⟨-, hfault | htaken⟩ | ⟨he, -⟩
  · rw [hf.renameNew] at hfault
    cases hfault
  · rw [hfree] at htaken
    cases htaken
  · rw [he]

/-! ## 2. The marker -/

/-- A marker that is there stays as it is. -/
theorem mark_present (f : MarkerFaults) (hc : t.Closed) (hroot : t.node [] = some .dir)
    (hmark : t.file? UPDATE_STATE_INVALIDATED_MARKER_PATH = some MARK) :
    (markUpdateStateInvalidated f t).2.file? UPDATE_STATE_INVALIDATED_MARKER_PATH = some MARK := by
  obtain ⟨hprepared, -⟩ := Tree.ensureParentDirExists_spec f.dirShorts f.parents
    UPDATE_STATE_INVALIDATED_MARKER_PATH hc hroot
  unfold markUpdateStateInvalidated
  split
  next heq =>
    rw [heq] at hprepared
    rw [hprepared.file?, hmark]
  next t₁ heq =>
    rw [heq] at hprepared
    have hmark₁ : t₁.file? UPDATE_STATE_INVALIDATED_MARKER_PATH = some MARK := by
      rw [hprepared.file?, hmark]
    -- opening it does not change it
    have hopen : (t₁.openFile f.openFile f.short UPDATE_STATE_INVALIDATED_MARKER_PATH).2 = t₁ := by
      rcases Tree.openFile_eq_or f.short t₁ f.openFile UPDATE_STATE_INVALIDATED_MARKER_PATH
        with h | h
      · exact h
      · rw [h]
        unfold Tree.create
        rw [marker_plain.resolve, node_of_file? hmark₁]
    split
    next heq' =>
      rw [heq'] at hopen
      obtain rfl : _ = t₁ := hopen
      exact hmark₁
    next file t₂ heq' =>
      rw [heq'] at hopen
      obtain rfl : t₂ = t₁ := hopen
      obtain ⟨rfl, -⟩ := openFile_place heq'
      have hwrite : (t₂.writeAll f.write (t₂.resolve UPDATE_STATE_INVALIDATED_MARKER_PATH) 0
          MARK).2.1.file? UPDATE_STATE_INVALIDATED_MARKER_PATH = some MARK := by
        rw [marker_plain.resolve]
        unfold Tree.writeAll
        rw [hmark₁]
        dsimp only
        rw [Tree.file?, Tree.put_self]
        cases Tree.writable f.write 0 MARK with
        | zero => rfl
        | succ n => cases n <;> rfl
      split
      next heq'' => rw [heq''] at hwrite; exact hwrite
      next heq'' => rw [heq''] at hwrite; exact hwrite

/-- No call on the marker fails half way. -/
structure Marks (f : MarkerFaults) : Prop where
  openFile : f.openFile ≠ some true
  write : f.write = none
  flush : f.flush = false

theorem mark_failed {f : MarkerFaults} (hf : Marks f) (hc : t.Closed)
    (hroot : t.node [] = some .dir) (h : markUpdateStateInvalidated f t = (false, t')) :
    t'.file? UPDATE_STATE_INVALIDATED_MARKER_PATH =
      t.file? UPDATE_STATE_INVALIDATED_MARKER_PATH := by
  obtain ⟨hprepared, -⟩ := Tree.ensureParentDirExists_spec f.dirShorts f.parents
    UPDATE_STATE_INVALIDATED_MARKER_PATH hc hroot
  unfold markUpdateStateInvalidated at h
  split at h
  next heq =>
    rw [heq] at hprepared
    cases h
    exact hprepared.file? _
  next t₁ heq =>
    rw [heq] at hprepared
    split at h
    next e t₂ heq' =>
      cases h
      have hsame : t' = t₁ := by
        unfold Tree.openFile at heq'
        split at heq'
        · rcases Tree.create_eq_or f.short t₁ UPDATE_STATE_INVALIDATED_MARKER_PATH
            with hcreate | ⟨-, -, -, hcreate⟩
          · rw [heq'] at hcreate
            exact hcreate
          · rw [heq'] at hcreate
            cases hcreate
        next htrue => exact (hf.openFile htrue).elim
        · cases heq'
          rfl
      rw [hsame]
      exact hprepared.file? _
    next file t₂ heq' =>
      obtain ⟨rfl, data, hdata⟩ := openFile_place heq'
      have hwrite : (t₂.writeAll f.write (t₁.resolve UPDATE_STATE_INVALIDATED_MARKER_PATH) 0
          MARK).1 = .ok () := by
        unfold Tree.writeAll
        rw [hdata]
        dsimp only
        rw [if_pos ⟨hf.write, by decide⟩]
      split at h
      next heq'' =>
        rw [heq''] at hwrite
        cases hwrite
      next =>
        rw [hf.flush] at h
        cases h

/-! ## 3. The OS -/

/-- The OS is the image that was verified for the archive. -/
def Swapped (P : Platform) (v : ValidArchive) (s s' : State) : Prop :=
  ∃ data header, IsImage P v v.osBinary s.firmwareTimestamp data header ∧
    (s'.disk.at v.osBinary.location).file? v.osBinary.finalName = some data

/-- What replacing the OS leaves -/
structure OsConsistent (P : Platform) (v : ValidArchive) (s s' : State) : Prop where
  names : ∀ old, (s.disk.at v.osBinary.location).file? v.osBinary.finalName = some old →
    (s'.disk.at v.osBinary.location).file? v.osBinary.finalName = some old ∨ Swapped P v s s'
  timestamp : s.firmwareTimestamp < s'.firmwareTimestamp → Swapped P v s s'
  marker : s'.disk.system.file? UPDATE_STATE_INVALIDATED_MARKER_PATH =
      s.disk.system.file? UPDATE_STATE_INVALIDATED_MARKER_PATH ∨
    s'.disk.system.file? UPDATE_STATE_INVALIDATED_MARKER_PATH = none ∨ Swapped P v s s'

/-- No call fails that would leave the OS, its timestamp or the marker behind. -/
structure CarefulOs (f : StartFaults) (s : State) : Prop where
  back : f.os.renameNew = true → f.os.renameBack = true → f.os.renameOld = true
  timestamp : ∀ hash size timestamp, s.osBinary = .valid hash size timestamp false →
    s.firmwareTimestamp < timestamp → f.os.timestamp = false → Swaps f.os
  marker : s.disk.system.file? UPDATE_STATE_INVALIDATED_MARKER_PATH = some MARK ∨
    Marks f.marker ∧ (Swaps f.os ∨ f.marker.remove = none)

theorem copying_apart_final (b : Bool) (binary other : Binary) :
    ¬ Copying b binary other.location other.finalName := by
  unfold Copying NewName TempFile
  cases b <;> cases binary <;> cases other <;> decide

theorem copying_apart_marker (b : Bool) (binary : Binary) :
    ¬ Copying b binary .system UPDATE_STATE_INVALIDATED_MARKER_PATH := by
  unfold Copying NewName TempFile
  cases b <;> cases binary <;> decide

theorem names_apart_marker (binary : Binary) :
    ¬ Names binary .system UPDATE_STATE_INVALIDATED_MARKER_PATH := by
  unfold Names SwapName
  cases binary <;> decide

/-- A request that stops before the OS is swapped -/
theorem OsConsistent.before (hfinal : (s'.disk.at v.osBinary.location).file? v.osBinary.finalName =
      (s.disk.at v.osBinary.location).file? v.osBinary.finalName)
    (htimestamp : s'.firmwareTimestamp = s.firmwareTimestamp)
    (hmarker : s'.disk.system.file? UPDATE_STATE_INVALIDATED_MARKER_PATH =
        s.disk.system.file? UPDATE_STATE_INVALIDATED_MARKER_PATH ∨
      s'.disk.system.file? UPDATE_STATE_INVALIDATED_MARKER_PATH = none) : OsConsistent P v s s' :=
  ⟨fun _ hold => .inl (hfinal.trans hold), fun hlt => (hlt.ne htimestamp.symm).elim,
    hmarker.imp_right .inl⟩

/-- The OS as it is finalized -/
theorem finalizeOsBinary_copied {hash : Hash} {timestamp : Nat} {pre : Bool}
    (hstate : s.osBinary = .copied hash timestamp pre) :
    finalizeOsBinary f false binary s =
      (if (swapBinary f binary (s.disk.at binary.location)).1 = false then .beforeSwap
        else if !pre && f.timestamp then .afterSwap
        else .done,
      if pre then s.setTree binary.location (swapBinary f binary (s.disk.at binary.location)).2
        else recordTimestamp f.timestamp timestamp
          (s.setTree binary.location (swapBinary f binary (s.disk.at binary.location)).2)) := by
  unfold finalizeOsBinary State.binary
  rw [if_neg Bool.false_ne_true, hstate]
  dsimp only
  rw [Bool.or_false, Bool.not_false, Bool.and_true]

/-- The end of replacing the OS, once the marker was set -/
def finishOs (f : StartFaults) (v : ValidArchive) (s : State) : Bool × State :=
  match finalizeOsBinary f.os false v.osBinary s with
  | (.done, s) => (true, s)
  | (.afterSwap, s) => (false, s)
  | (.beforeSwap, s) =>
    (false, s.setTree .system
      (s.disk.system.remove f.marker.remove UPDATE_STATE_INVALIDATED_MARKER_PATH).2)

/-- The OS was copied, and its marker set. -/
structure Prepared (P : Platform) (v : ValidArchive) (s s' : State) (data : Bytes) (header : Header)
    (size : Nat) (pre : Bool) : Prop where
  mounted : Mounted s'.disk
  valid : s.osBinary = .valid header.binaryHash size header.timestamp pre
  copied : s'.osBinary = .copied header.binaryHash header.timestamp pre
  image : IsImage P v v.osBinary s.firmwareTimestamp data header
  recorded : s'.firmwareTimestamp = s.firmwareTimestamp
  new : (s'.disk.at v.osBinary.location).file? v.osBinary.newName = some data
  final : (s'.disk.at v.osBinary.location).file? v.osBinary.finalName =
    (s.disk.at v.osBinary.location).file? v.osBinary.finalName
  marker : s.disk.system.file? UPDATE_STATE_INVALIDATED_MARKER_PATH = some MARK →
    s'.disk.system.file? UPDATE_STATE_INVALIDATED_MARKER_PATH = some MARK

theorem finishOs_consistent {f : StartFaults} {s₂ : State} {header : Header} {size : Nat} {pre : Bool}
    (h : Prepared P v s s₂ data header size pre) (hf : CarefulOs f s) :
    OsConsistent P v s (finishOs f v s₂).2 := by
  have hclosed := h.mounted.closed v.osBinary.location
  unfold finishOs
  rw [finalizeOsBinary_copied h.copied]
  rcases hswap : swapBinary f.os v.osBinary (s₂.disk.at v.osBinary.location) with ⟨renamed, t⟩
  dsimp only
  generalize hs₃ : (if pre then s₂.setTree v.osBinary.location t
    else recordTimestamp f.os.timestamp header.timestamp (s₂.setTree v.osBinary.location t)) = s₃
  have hdisk : s₃.disk = s₂.disk.set v.osBinary.location t := by
    rw [← hs₃]
    split
    · rfl
    · rw [recordTimestamp_disk]
      rfl
  cases renamed with
  | true =>
    -- the new binary has the final name
    have hswapped : Swapped P v s s₃ := by
      refine ⟨data, header, h.image, ?_⟩
      rw [hdisk, Disk.at_set_self]
      exact swapBinary_ok h.new hswap
    have hconsistent : OsConsistent P v s s₃ :=
      ⟨fun _ _ => .inr hswapped, fun _ => hswapped, .inr (.inr hswapped)⟩
    rw [if_neg (show ¬ (true = false) by decide)]
    cases !pre && f.os.timestamp with
    | true => exact hconsistent
    | false => exact hconsistent
  | false =>
    rw [if_pos rfl]
    have hfails (hswaps : Swaps f.os) : False := by
      have hsucceeds := swapBinary_succeeds hclosed h.new hswaps
      rw [hswap] at hsucceeds
      cases hsucceeds
    have hkept : Confined (Names v.osBinary) s₂.disk s₃.disk := by
      have hswapKept := swapBinary_kept f.os v.osBinary (s₂.disk.at v.osBinary.location)
      rw [hswap] at hswapKept
      rw [hdisk]
      exact .set (hswapKept.mono fun _ hq => ⟨rfl, hq⟩)
    have hunmark := removeMarker_confined f.marker.remove s₃.disk
    refine ⟨fun old hold => .inl ?_, fun hlt => ?_, ?_⟩
    · refine (hunmark.file? (marker_apart_final v.osBinary)).trans ?_
      rw [hdisk, Disk.at_set_self]
      exact swapBinary_back hclosed (h.final.trans hold) h.new hf.back hswap
    · -- the timestamp is recorded only if the renames do not fail
      have hlt' : s.firmwareTimestamp < s₃.firmwareTimestamp := hlt
      have hsame : (s₂.setTree v.osBinary.location t).firmwareTimestamp = s.firmwareTimestamp :=
        h.recorded
      rw [← hs₃] at hlt'
      unfold recordTimestamp at hlt'
      split at hlt'
      · exact (hlt'.ne hsame.symm).elim
      next hpre =>
        split at hlt'
        · exact (hlt'.ne hsame.symm).elim
        next htimestamp =>
          refine (hfails (hf.timestamp header.binaryHash size header.timestamp ?_ hlt'
            (Bool.eq_false_iff.2 htimestamp))).elim
          rw [h.valid, Bool.eq_false_iff.2 hpre]
    · rcases hf.marker with hthere | ⟨-, hswaps | hremove⟩
      · have hthere₃ : s₃.disk.system.file? UPDATE_STATE_INVALIDATED_MARKER_PATH = some MARK := by
          exact (hkept.file? (l := .system) (names_apart_marker v.osBinary)).trans
            (h.marker hthere)
        rcases Tree.remove_file? s₃.disk.system f.marker.remove
          UPDATE_STATE_INVALIDATED_MARKER_PATH UPDATE_STATE_INVALIDATED_MARKER_PATH with hgone | hsame
        · exact .inr (.inl hgone)
        · exact .inl (hsame.trans (hthere₃.trans hthere.symm))
      · exact (hfails hswaps).elim
      · refine .inr (.inl ?_)
        have hclosed₃ : s₃.disk.system.Closed := (hkept.mounted h.mounted).closed .system
        show (s₃.disk.system.remove f.marker.remove UPDATE_STATE_INVALIDATED_MARKER_PATH).2.file?
          UPDATE_STATE_INVALIDATED_MARKER_PATH = none
        rw [hremove]
        exact file?_of_gone (remove_none_gone hclosed₃ (by rw [marker_plain.resolve]))

theorem replaceOs_consistent {f : StartFaults} (h : Good P s) (hv : s.archive = .copied v)
    (hf : CarefulOs f s) : OsConsistent P v s (replaceOs P f v s).2 := by
  unfold replaceOs
  split
  next s₁ heq =>
    rcases copyBinary_cases P s false v.osBinary f.os with
      ⟨d, hd, hfalse⟩ | ⟨_, _, _, _, _, _, -, -, -, htrue⟩
    · rw [hfalse] at heq
      cases heq
      exact .before (hd.file? fun hq => copying_apart_final false v.osBinary v.osBinary (.inl hq))
        rfl (.inl (hd.file? (l := .system) fun hq =>
          copying_apart_marker false v.osBinary (.inl hq)))
    · rw [htrue] at heq
      cases heq
  next s₁ heq =>
    obtain ⟨hgood₁, hconfined₁, hcopied⟩ := copyBinary_copied h hv rfl heq
    obtain ⟨data, header, last, size, pre, hheld, hvalid, hstate, hnew⟩ := hcopied.image
    have hfinal₁ := hconfined₁.file? (copying_apart_final false v.osBinary v.osBinary)
    have hmarker₁ : s₁.disk.system.file? UPDATE_STATE_INVALIDATED_MARKER_PATH =
        s.disk.system.file? UPDATE_STATE_INVALIDATED_MARKER_PATH :=
      hconfined₁.file? (l := .system) (copying_apart_marker false v.osBinary)
    have htimestamp₁ : s₁.firmwareTimestamp = s.firmwareTimestamp :=
      Option.some.inj (hcopied.recorded false)
    split
    next => exact .before hfinal₁ htimestamp₁ (.inl hmarker₁)
    next =>
      have hmark := mark_confined f.marker hgood₁.mounted
      have hroot : s₁.disk.system.node [] = some .dir := hgood₁.mounted.root .system
      have hclosed : s₁.disk.system.Closed := hgood₁.mounted.closed .system
      have hfinal₂ := hmark.file? (marker_apart_final v.osBinary)
      -- a marker that was there still is
      have hpresent (hthere : s.disk.system.file? UPDATE_STATE_INVALIDATED_MARKER_PATH =
          some MARK) : (markUpdateStateInvalidated f.marker s₁.disk.system).2.file?
            UPDATE_STATE_INVALIDATED_MARKER_PATH = some MARK :=
        mark_present f.marker hclosed hroot (hmarker₁.trans hthere)
      split
      next t heq' =>
        rw [heq'] at hfinal₂ hpresent
        refine .before (hfinal₂.trans hfinal₁) htimestamp₁ (.inl ?_)
        rcases hf.marker with hthere | ⟨hmarks, -⟩
        · exact (hpresent hthere).trans hthere.symm
        · exact (mark_failed hmarks hclosed hroot heq').trans hmarker₁
      next t heq' =>
        rw [heq'] at hmark hfinal₂ hpresent
        have hlast : s.firmwareTimestamp = last := Option.some.inj hheld.recorded
        have hprepared : Prepared P v s (s₁.setTree .system t) data header size pre := {
          mounted := hmark.mounted hgood₁.mounted
          valid := hvalid
          copied := hstate
          image := by rw [hlast]; exact hheld.image
          recorded := htimestamp₁
          new := (hmark.file? (marker_apart_new v.osBinary)).trans hnew
          final := hfinal₂.trans hfinal₁
          marker := hpresent }
        exact finishOs_consistent hprepared hf

end Recovery
