import KeyOS.Update.Downloader

/-!
# The update server

The server owns the downloader, a persisted record of what is ready to be applied, and at
most one install worker. Events of the peer go to the downloader; requests of the user start
the worker; the worker applies releases one after the other and removes the file of each.
-/

namespace Update

open Exec

/-! ## 1. State -/

structure UpdateState where
  /-- Files downloaded and ready to apply. -/
  downloaded : Option (List ReleasePath) := none
  /-- Remaining files to apply after a reboot. -/
  pendingApply : List ReleasePath := []
  updateApplied : Bool := false
  expectedVersionOnResume : Option String := none
  finalizeUpdatePending : Bool := false
  resumeProgressPercentage : UInt32 := 0
deriving DecidableEq, Repr

/-- The release files that the record names. -/
def UpdateState.listed (s : UpdateState) : List ReleasePath :=
  s.downloaded.getD [] ++ s.pendingApply

/-- `InstallTask` of the worker: the releases it was given, whether it has opened and verified
all of them, and how many it has applied and removed. -/
structure InstallTask where
  paths : List ReleasePath
  verified : Bool := false
  applied : Nat := 0
deriving DecidableEq, Repr

structure UpdateServer where
  downloader : Downloader
  state : UpdateState
  task : Option InstallTask

namespace UpdateServer

def installRunning (s : UpdateServer) : Bool := s.task.isSome

def files (s : UpdateServer) : Files := s.downloader.files

def setFiles (f : Files) (s : UpdateServer) : UpdateServer :=
  { s with downloader := { s.downloader with files := f } }

def setState (state : UpdateState) (s : UpdateServer) : UpdateServer := { s with state }

/-! ## 2. Events of the peer -/

/-- The handler of `FirmwareFetchEvent`. When it asks for a resume, `resume` is the failure to
send the request. -/
def handleFetchEvent (replies : FsReplies) (now : Nat) (event : FwEvent) (resume : Option String)
    (s : UpdateServer) : UpdateServer :=
  if s.installRunning then s
  else
    match Downloader.handleEvent replies now event s.downloader with
    | (.ok (.retry _), d) => { s with downloader := (Downloader.handleResumeResult resume d).2 }
    | (.ok (.done files), d) =>
      { s with downloader := d, state := { s.state with downloaded := some files.paths } }
    | (_, d) => { s with downloader := d }

def handleStallTick (now : Nat) (s : UpdateServer) : UpdateServer :=
  { s with downloader := s.downloader.handleStallMonitor now }

/-! ## 3. Requests of the user -/

abbrev UpdateM := Prog UpdateServer Empty Error

def canStartInstall (battery : Bool) : UpdateM Bool := do
  let s ← Prog.get
  if s.installRunning then pure false
  else if !battery then Prog.throw .insufficientBattery
  else pure true

def canStartNewUpdate (battery : Bool) : UpdateM Bool := do
  let ok ← canStartInstall battery
  let s ← Prog.get
  pure (ok && s.state.pendingApply.isEmpty)

def spawnApplyReleases (paths : List ReleasePath) : UpdateM Unit :=
  Prog.modify fun s =>
    { s with task := some { paths }, downloader := s.downloader.resetState }

def startUpdate (battery : Bool) (paths : List ReleasePath) : UpdateM Unit := do
  let ok ← canStartNewUpdate battery
  Prog.onlyIf ok (spawnApplyReleases paths)

def applyDownloadedUpdate (battery : Bool) : UpdateM Unit := do
  let ok ← canStartNewUpdate battery
  Prog.onlyIf ok do
    let s ← Prog.get
    Prog.modify (setState { s.state with downloaded := none })
    let paths ← Prog.okOr .noUpdateDownloaded s.state.downloaded
    spawnApplyReleases paths

/-- `remove_release_files`; a removal that fails is logged. -/
def removeReleaseFiles (removed : ReleasePath → Bool) (paths : List ReleasePath)
    (s : UpdateServer) : UpdateServer :=
  s.setFiles fun path => if path ∈ paths ∧ removed path then none else s.files path

/-- The pending update is abandoned when another firmware runs than the one it was left for. -/
def abandonOtherVersion (actual : Except Error String) (removed : ReleasePath → Bool) :
    UpdateM Unit := do
  let s ← Prog.get
  match s.state.expectedVersionOnResume with
  | none => pure ()
  | some expected => do
    let actual ← Prog.ofExcept actual
    Prog.onlyIf (actual ≠ expected) do
      Prog.modify (removeReleaseFiles removed s.state.pendingApply)
      Prog.modify (setState { s.state with
        expectedVersionOnResume := none
        finalizeUpdatePending := false
        pendingApply := []
        resumeProgressPercentage := 0 })
      Prog.throw (.unexpectedVersionAfterReboot expected actual)

/-- `finalized` is the failure of `finalize_update`, `actual` what `firmware_version` returns. -/
def continueUpdate (battery : Bool) (finalized : Option Error) (actual : Except Error String)
    (removed : ReleasePath → Bool) : UpdateM Unit := do
  let ok ← canStartInstall battery
  Prog.onlyIf ok do
    let s ← Prog.get
    Prog.onlyIf s.state.finalizeUpdatePending do
      match finalized with
      | some e => Prog.throw e
      | none => Prog.modify (setState { s.state with finalizeUpdatePending := false })
    abandonOtherVersion actual removed
    let s ← Prog.get
    Prog.modify (setState { s.state with
      expectedVersionOnResume := none
      finalizeUpdatePending := false
      pendingApply := []
      resumeProgressPercentage := 0 })
    spawnApplyReleases s.state.pendingApply

/-! ## 4. The install worker -/

/-- The worker opens every release with write access and verifies it. A file that is missing,
or is open already, is an error. -/
def workerVerify (accepted : Bool) (s : UpdateServer) : UpdateServer :=
  match s.task with
  | none => s
  | some task =>
    if accepted ∧ task.paths.Nodup ∧ ∀ path ∈ task.paths, (s.files path).isSome then
      { s with task := some { task with verified := true } }
    else { s with task := none }

/-- The worker has applied the next release and removes its file. -/
def workerApply (s : UpdateServer) : UpdateServer :=
  match s.task with
  | none => s
  | some task =>
    match task.verified, task.paths[task.applied]? with
    | true, some path =>
      { s.setFiles (Function.update s.files path none) with
        task := some { task with applied := task.applied + 1 } }
    | _, _ => s

/-- The handler of the worker's error. -/
def workerFails (s : UpdateServer) : UpdateServer := { s with task := none }

/-- The handler of `UpdateOutcome::Done`; `swapped` is whether `finalize_update` succeeds. -/
def workerDone (swapped : Bool) (s : UpdateServer) : UpdateServer :=
  match s.task with
  | none => s
  | some task =>
    if task.verified ∧ 0 < task.applied ∧ task.applied = task.paths.length then
      { s with
        task := none
        state := { s.state with
          resumeProgressPercentage := 0
          updateApplied := s.state.updateApplied || swapped } }
    else s

/-- The handler of `UpdateOutcome::Partial`: the remaining releases are left for the time
after the reboot. `version` is what `firmware_version_at` finds in the staged firmware. -/
def workerPartial (version : Option String) (progress : UInt32) (s : UpdateServer) :
    UpdateServer :=
  match s.task with
  | none => s
  | some task =>
    if task.verified ∧ 0 < task.applied ∧ task.applied < task.paths.length then
      match version with
      | none => { s with task := none }
      | some expected =>
        { s with
          task := none
          state := { s.state with
            pendingApply := task.paths.drop task.applied
            expectedVersionOnResume := some expected
            finalizeUpdatePending := true
            resumeProgressPercentage := progress } }
    else s

/-! ## 5. Restarts -/

/-- The server starts anew. What the record says has survived. -/
def restart (s : UpdateServer) : UpdateServer :=
  { s with task := none, downloader := { s.downloader with state := .idle } }

/-- `consume_update_state_invalidated_marker`: the user has recovered to another firmware. -/
def recover (removed : ReleasePath → Bool) (kept : Nat → Bool) (s : UpdateServer) :
    UpdateServer :=
  let s := (removeReleaseFiles removed s.state.pendingApply s).setState {}
  s.setFiles fun path => match path with
    | .patch i => if kept i then s.files path else none
    | .other _ => s.files path

end UpdateServer

end Update
