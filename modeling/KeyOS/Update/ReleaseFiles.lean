import KeyOS.Update.UpdateServer
import KeyOS.Update.DownloadRuns

/-!
# The record and the release files

A world is the update server with its history: the events that its downloader has handled,
the content that each release file had when it was last completed or handed over, and
whether it was handed over by the user. In a sound world each file that the record names,
and each that the worker has still to apply, has that content.
-/

namespace Update

open Exec

namespace UpdateServer

/-! ## 1. Inputs -/

inductive Input where
  | fetch (replies : FsReplies) (now : Nat) (event : FwEvent) (resume : Option String)
  | stallTick (now : Nat)
  | startUpdate (battery : Bool) (paths : List ReleasePath)
  | applyDownloaded (battery : Bool)
  | continueUpdate (battery : Bool) (finalized : Option Error) (actual : Except Error String)
      (removed : ReleasePath → Bool)
  | clearUpdateApplied
  | workerVerify (accepted : Bool)
  | workerApply
  | workerFails
  | workerPartial (version : Option String) (progress : UInt32)
  | workerDone (swapped : Bool)
  | restart
  /-- The server starts anew and finds the marker of a recovery. -/
  | recover (removed : ReleasePath → Bool) (kept : Nat → Bool)
  /-- The power goes after some pending release files are removed, before the record says so. -/
  | cutRemoval (removed : ReleasePath → Bool)

def step : Input → UpdateServer → UpdateServer
  | .fetch replies now event resume, s => s.handleFetchEvent replies now event resume
  | .stallTick now, s => s.handleStallTick now
  | .startUpdate battery paths, s => (UpdateServer.startUpdate battery paths s).2
  | .applyDownloaded battery, s => (applyDownloadedUpdate battery s).2
  | .continueUpdate battery finalized actual removed, s =>
    (UpdateServer.continueUpdate battery finalized actual removed s).2
  | .clearUpdateApplied, s => s.setState { s.state with updateApplied := false }
  | .workerVerify accepted, s => s.workerVerify accepted
  | .workerApply, s => s.workerApply
  | .workerFails, s => s.workerFails
  | .workerPartial version progress, s => s.workerPartial version progress
  | .workerDone swapped, s => s.workerDone swapped
  | .restart, s => s.restart
  | .recover removed kept, s => s.restart.recover removed kept
  | .cutRemoval removed, s => (removeReleaseFiles removed s.state.pendingApply s).restart

/-! ## 2. Histories -/

structure World where
  server : UpdateServer
  /-- What the downloader has handled. -/
  history : List Downloader.Input
  /-- The content of a release file when it was last completed or handed over. -/
  expected : Files
  handed : ReleasePath → Bool

/-- The files that a fetch event completes. -/
def completes (input : Input) (s : UpdateServer) : List ReleasePath :=
  match input with
  | .fetch replies now event _ =>
    if s.installRunning then []
    else
      match Downloader.handleEvent replies now event s.downloader with
      | (.ok (.done files), _) => files.paths
      | _ => []
  | _ => []

/-- The files that the user hands over to the worker. -/
def handsOver (input : Input) (s : UpdateServer) : List ReleasePath :=
  match input with
  | .startUpdate _ paths =>
    if s.installRunning = false ∧ (step input s).installRunning then paths else []
  | _ => []

/-- The events that reach the downloader. -/
def handled (input : Input) (s : UpdateServer) : List Downloader.Input :=
  match input with
  | .fetch replies now event _ => if s.installRunning then [] else [.event replies now event]
  | _ => []

def World.step (input : Input) (w : World) : World :=
  let server := UpdateServer.step input w.server
  { server
    history := w.history ++ handled input w.server
    expected := fun path =>
      if path ∈ completes input w.server then server.files path
      else if path ∈ handsOver input w.server then w.server.files path
      else w.expected path
    handed := fun path =>
      if path ∈ completes input w.server then false
      else if path ∈ handsOver input w.server then true
      else w.handed path }

/-- The chunks that the downloader has been given. -/
def chunksOf (history : List Downloader.Input) : List FirmwareChunk :=
  history.filterMap fun input => match input with
    | .event _ _ (.chunk c) => some c
    | _ => none

/-- `bytes` is the concatenation of all the chunks of a patch, as they have come. -/
def Received (history : List Downloader.Input) (path : ReleasePath) (bytes : Bytes) : Prop :=
  ∃ (i : Nat) (chunks : List FirmwareChunk) (total : UInt16), path = .patch i ∧
    chunks.Sublist (chunksOf history) ∧
    (∀ c ∈ chunks, c.patchIndex.toNat = i ∧ c.totalChunks = total) ∧
    Downloader.indicesOf chunks = List.range total.toNat ∧ bytes = Downloader.bytesOf chunks

/-- The file at `path` has the content that it was completed or handed over with. -/
def World.Intact (w : World) (path : ReleasePath) : Prop :=
  ∃ bytes, w.server.files path = some bytes ∧ w.expected path = some bytes ∧
    (w.handed path = false → Received w.history path bytes)

/-! ## 3. The invariant -/

/-- The releases of the task that the worker has still to apply. -/
def InstallTask.rest (t : InstallTask) : List ReleasePath := t.paths.drop t.applied

structure World.Sound (w : World) : Prop where
  accounted : Downloader.Accounted w.history w.server.downloader
  /-- While a download is in progress there is nothing to lose. -/
  exclusive : ∀ dl, w.server.downloader.state = .inProgress dl →
    w.server.state.listed = [] ∧ w.server.task = none
  listed : ∀ path ∈ w.server.state.listed, w.Intact path
  /-- What the worker finds of its releases is intact. -/
  found : ∀ t, w.server.task = some t → ∀ path ∈ InstallTask.rest t,
    (w.server.files path).isSome → w.Intact path
  verified : ∀ t, w.server.task = some t → t.verified = true →
    t.paths.Nodup ∧ ∀ path ∈ InstallTask.rest t, (w.server.files path).isSome
  noPending : ∀ t, w.server.task = some t → w.server.state.pendingApply = []
  /-- No file is both downloaded and pending. -/
  separate : ∀ path ∈ w.server.state.pendingApply, path ∉ w.server.state.downloaded.getD []
  apart : ∀ t, w.server.task = some t → ∀ path ∈ t.paths,
    path ∉ w.server.state.downloaded.getD []

/-- The condition on a step: the peer starts a download only while the record names no file,
the user does not hand over a file that is listed as downloaded, and the power does not go
between the removal of pending release files and the record of it. -/
def Input.Careful : Input → UpdateServer → Prop
  | .fetch replies _ (.starting metadata) _, s =>
    s.installRunning = false → s.state.listed = [] ∧
      Downloader.Cleared replies metadata s.downloader
  | .startUpdate _ paths, s => ∀ path ∈ paths, path ∉ s.state.downloaded.getD []
  | .cutRemoval removed, s => ∀ path ∈ s.state.pendingApply, removed path = false
  | _, _ => True

/-! ## 4. What a request does -/

theorem canStartInstall_run (battery : Bool) (s : UpdateServer) :
    canStartInstall battery s =
      (if s.installRunning then .ok false else if battery then .ok true
        else .err .insufficientBattery, s) := by
  show (if s.installRunning then pure false
    else if !battery then Prog.throw .insufficientBattery else pure true : UpdateM Bool) s = _
  cases s.installRunning with
  | true => rfl
  | false => cases battery <;> rfl

/-- A request for a new update does nothing, or the server is idle and has nothing pending. -/
theorem canStartNewUpdate_cases (battery : Bool) (s : UpdateServer) :
    (∃ e, canStartNewUpdate battery s = (.err e, s)) ∨
    canStartNewUpdate battery s = (.ok false, s) ∨
    (canStartNewUpdate battery s = (.ok true, s) ∧ s.task = none ∧ s.state.pendingApply = []) := by
  unfold canStartNewUpdate
  rw [Prog.bind_run, canStartInstall_run]
  cases htask : s.task with
  | some t =>
    have hrun : s.installRunning = true := by rw [installRunning, htask]; rfl
    rw [if_pos hrun]
    exact .inr (.inl rfl)
  | none =>
    have hrun : ¬ s.installRunning = true := by rw [installRunning, htask]; nofun
    rw [if_neg hrun]
    cases battery with
    | false => exact .inl ⟨_, rfl⟩
    | true =>
      cases hp : s.state.pendingApply with
      | nil =>
        refine .inr (.inr ⟨?_, rfl, rfl⟩)
        show (Outcome.ok (true && s.state.pendingApply.isEmpty), s) = _
        rw [hp]
        rfl
      | cons path paths =>
        refine .inr (.inl ?_)
        show (Outcome.ok (true && s.state.pendingApply.isEmpty), s) = _
        rw [hp]
        rfl

theorem startUpdate_cases (battery : Bool) (paths : List ReleasePath) (s : UpdateServer) :
    (startUpdate battery paths s).2 = s ∨
    (s.task = none ∧ s.state.pendingApply = [] ∧ (startUpdate battery paths s).2 =
      { s with task := some { paths }, downloader := s.downloader.resetState }) := by
  unfold startUpdate
  rw [Prog.bind_run]
  rcases canStartNewUpdate_cases battery s with ⟨e, h⟩ | h | ⟨h, htask, hpending⟩
  · rw [h]
    exact .inl rfl
  · rw [h]
    exact .inl rfl
  · rw [h]
    exact .inr ⟨htask, hpending, rfl⟩

theorem applyDownloadedUpdate_cases (battery : Bool) (s : UpdateServer) :
    (applyDownloadedUpdate battery s).2 = s ∨
    (s.task = none ∧ s.state.pendingApply = [] ∧ ∃ paths, s.state.downloaded = some paths ∧
      (applyDownloadedUpdate battery s).2 =
        { downloader := s.downloader.resetState, state := { s.state with downloaded := none },
          task := some { paths } }) := by
  unfold applyDownloadedUpdate
  rw [Prog.bind_run]
  rcases canStartNewUpdate_cases battery s with ⟨e, h⟩ | h | ⟨h, htask, hpending⟩
  · rw [h]
    exact .inl rfl
  · rw [h]
    exact .inl rfl
  · rw [h]
    dsimp only
    rw [Prog.onlyIf_true_run rfl, Prog.bind_run, Prog.get_run]
    dsimp only
    cases hd : s.state.downloaded with
    | none =>
      refine .inl ?_
      show ({ s with state := { s.state with downloaded := none } } : UpdateServer) = s
      rw [← hd]
    | some paths => exact .inr ⟨htask, hpending, paths, rfl, rfl⟩

/-- The record has changed in fields that name no file. -/
def SameListing (s s' : UpdateServer) : Prop :=
  ∃ state, s' = { s with state } ∧ state.downloaded = s.state.downloaded ∧
    state.pendingApply = s.state.pendingApply

/-- What `continue_update` can do: nothing to the files and the record of them, abandon the
pending update, or hand it to the worker. -/
inductive Continued (removed : ReleasePath → Bool) (s : UpdateServer) : UpdateServer → Prop where
  | refused (s' : UpdateServer) (h : SameListing s s') : Continued removed s s'
  | abandoned (state : UpdateState) (htask : s.task = none)
      (hd : state.downloaded = s.state.downloaded) (hp : state.pendingApply = []) :
      Continued removed s
        { removeReleaseFiles removed s.state.pendingApply s with state, task := none }
  | started (state : UpdateState) (htask : s.task = none)
      (hd : state.downloaded = s.state.downloaded) (hp : state.pendingApply = []) :
      Continued removed s
        { downloader := s.downloader.resetState, state,
          task := some { paths := s.state.pendingApply } }

theorem abandonOtherVersion_spec {actual : Except Error String} {removed : ReleasePath → Bool}
    {s : UpdateServer} (htask : s.task = none) :
    Prog.Triple (SameListing s) (abandonOtherVersion actual removed) (fun _ => SameListing s)
      (fun _ => Continued removed s) fun _ => True := by
  refine Prog.Triple.get_bind fun s₁ hs₁ => ?_
  cases s₁.state.expectedVersionOnResume with
  | none => exact Prog.Triple.pure fun s' hs' => hs' ▸ hs₁
  | some expected =>
    refine Prog.Triple.bind (Q := fun _ => (· = s₁)) (Prog.Triple.ofExcept (fun _ _ _ h => h)
      fun _ _ s' h => .refused s' (h ▸ hs₁)) fun version => ?_
    refine Prog.Triple.onlyIf (fun _ => ?_) fun _ s' hs' => hs' ▸ hs₁
    rintro s' rfl
    obtain ⟨state, rfl, hd, hp⟩ := hs₁
    obtain ⟨d, st, task⟩ := s
    obtain rfl : task = none := htask
    have h : Continued removed ⟨d, st, none⟩ _ := .abandoned { state with
      expectedVersionOnResume := none
      finalizeUpdatePending := false
      pendingApply := []
      resumeProgressPercentage := 0 } rfl hd rfl
    rw [← hp] at h
    exact h

theorem continueUpdate_spec {battery : Bool} {finalized : Option Error}
    {actual : Except Error String} {removed : ReleasePath → Bool} {s : UpdateServer} :
    Prog.Triple (· = s) (continueUpdate battery finalized actual removed)
      (fun _ => Continued removed s) (fun _ => Continued removed s) fun _ => True := by
  have hsame : SameListing s s := ⟨s.state, rfl, rfl, rfl⟩
  refine Prog.Triple.bind (Q := fun ok s' => (ok = true → s.task = none) ∧ s' = s) ?_ fun ok =>
    Prog.Triple.assume fun htask => ?_
  · intro s' hs'
    rw [canStartInstall_run]
    subst hs'
    cases htask : s'.task with
    | some t =>
      rw [if_pos (by rw [installRunning, htask]; rfl)]
      exact ⟨(by intro h; cases h), rfl⟩
    | none =>
      rw [if_neg (by rw [installRunning, htask]; intro h; cases h)]
      cases battery with
      | true => exact ⟨fun _ => rfl, rfl⟩
      | false => exact .refused s' hsame
  refine Prog.Triple.onlyIf (fun hok => ?_) fun _ s' hs' => .refused s' (hs' ▸ hsame)
  refine Prog.Triple.get_bind fun s₀ hs₀ => ?_
  subst hs₀
  refine Prog.Triple.bind (Q := fun _ => SameListing s₀) ?_ fun _ => ?_
  · refine Prog.Triple.onlyIf (fun _ => ?_) fun _ s' hs' => hs' ▸ hsame
    cases finalized with
    | some e => exact Prog.Triple.throw fun s' hs' => .refused s' (hs' ▸ hsame)
    | none => exact Prog.Triple.modify fun s' hs' => hs' ▸ ⟨_, rfl, rfl, rfl⟩
  refine Prog.Triple.bind (abandonOtherVersion_spec (htask hok)) fun _ => ?_
  refine Prog.Triple.get_bind fun s₁ hs₁ => ?_
  obtain ⟨state, rfl, hd, hp⟩ := hs₁
  rintro s' rfl
  have h : Continued removed s₀ _ := .started { state with
    expectedVersionOnResume := none
    finalizeUpdatePending := false
    pendingApply := []
    resumeProgressPercentage := 0 } (htask hok) hd rfl
  rw [← hp] at h
  exact h

theorem continueUpdate_continued (battery : Bool) (finalized : Option Error)
    (actual : Except Error String) (removed : ReleasePath → Bool) (s : UpdateServer) :
    Continued removed s (continueUpdate battery finalized actual removed s).2 := by
  exact Prog.Triple.snd continueUpdate_spec rfl

/-! ## 5. Steps that complete nothing and hand nothing over -/

section Plain

variable {w : World} {s' : UpdateServer}

def World.withServer (w : World) (s' : UpdateServer) : World := { w with server := s' }

theorem step_plain {input : Input} (hc : completes input w.server = [])
    (hh : handsOver input w.server = []) (hd : handled input w.server = []) :
    w.step input = w.withServer (UpdateServer.step input w.server) := by
  simp only [World.step, World.withServer, hc, hh, hd, List.append_nil, List.not_mem_nil, if_false]

theorem World.Intact.frame {path : ReleasePath} (h : w.Intact path)
    (hfile : s'.files path = w.server.files path) : (w.withServer s').Intact path := by
  obtain ⟨bytes, hbytes, hexpected, horigin⟩ := h
  exact ⟨bytes, hfile.trans hbytes, hexpected, horigin⟩

theorem mem_downloaded {s : UpdateState} {path : ReleasePath} (h : path ∈ s.downloaded.getD []) :
    path ∈ s.listed := List.mem_append_left _ h

theorem mem_pending {s : UpdateState} {path : ReleasePath} (h : path ∈ s.pendingApply) :
    path ∈ s.listed := List.mem_append_right _ h

/-- The worker runs only while no download is in progress. -/
theorem World.Sound.idle {t : InstallTask} (h : w.Sound) (ht : w.server.task = some t) (dl : Download) :
    w.server.downloader.state ≠ .inProgress dl := by
  intro hdl
  rw [(h.exclusive dl hdl).2] at ht
  cases ht

/-- Without a worker. -/
theorem World.Sound.of_no_task (htask : w.server.task = none)
    (haccounted : Downloader.Accounted w.history w.server.downloader)
    (hexclusive : ∀ dl, w.server.downloader.state = .inProgress dl → w.server.state.listed = [])
    (hlisted : ∀ path ∈ w.server.state.listed, w.Intact path)
    (hseparate : ∀ path ∈ w.server.state.pendingApply, path ∉ w.server.state.downloaded.getD []) :
    w.Sound := by
  refine ⟨haccounted, fun dl hdl => ⟨hexclusive dl hdl, htask⟩, hlisted, ?_, ?_, ?_, hseparate, ?_⟩
  all_goals
    intro t ht
    rw [htask] at ht
    cases ht

/-- A new worker, which has verified nothing yet. -/
theorem World.Sound.of_new_task {paths : List ReleasePath} (htask : w.server.task = some { paths })
    (hidle : w.server.downloader.state = .idle)
    (hlisted : ∀ path ∈ w.server.state.downloaded.getD [], w.Intact path)
    (hpending : w.server.state.pendingApply = [])
    (hfound : ∀ path ∈ paths, (w.server.files path).isSome → w.Intact path)
    (hapart : ∀ path ∈ paths, path ∉ w.server.state.downloaded.getD []) : w.Sound := by
  have hidle' : ∀ dl, w.server.downloader.state ≠ .inProgress dl := fun dl h => by
    rw [hidle] at h
    cases h
  refine ⟨Downloader.accounted_of_not_inProgress hidle', fun dl h => absurd h (hidle' dl), ?_,
    ?_, ?_, ?_, ?_, ?_⟩
  · intro path hpath
    rw [UpdateState.listed, hpending, List.append_nil] at hpath
    exact hlisted path hpath
  · intro t ht
    rw [htask] at ht
    cases ht
    exact hfound
  · intro t ht hverified
    rw [htask] at ht
    cases ht
    cases hverified
  · exact fun _ _ => hpending
  · rw [hpending]
    exact nofun
  · intro t ht
    rw [htask] at ht
    cases ht
    exact hapart

theorem World.Sound.sameListing (h : w.Sound) (hs : SameListing w.server s') :
    (w.withServer s').Sound := by
  obtain ⟨state, rfl, hd, hp⟩ := hs
  have hl : state.listed = w.server.state.listed := by rw [UpdateState.listed, hd, hp]; rfl
  refine ⟨h.accounted, fun dl hdl => ⟨hl.trans (h.exclusive dl hdl).1, (h.exclusive dl hdl).2⟩,
    fun path hpath => ?_, fun t ht path hpath hsome => ?_, h.verified, fun t ht => ?_, ?_,
    fun t ht path hpath => ?_⟩
  · exact (h.listed path (hl ▸ hpath)).frame rfl
  · exact (h.found t ht path hpath hsome).frame rfl
  · exact hp.trans (h.noPending t ht)
  · show ∀ path ∈ state.pendingApply, path ∉ state.downloaded.getD []
    rw [hd, hp]
    exact h.separate
  · show path ∉ state.downloaded.getD []
    rw [hd]
    exact h.apart t ht path hpath

/-- The downloader gives up, or does nothing. -/
theorem World.Sound.givesUp (h : w.Sound) {d : Downloader}
    (hfiles : d.files = w.server.downloader.files)
    (hstate : d.state = w.server.downloader.state ∨ ∀ dl, d.state ≠ .inProgress dl) :
    (w.withServer { w.server with downloader := d }).Sound := by
  have hf : ∀ path, ({ w.server with downloader := d } : UpdateServer).files path =
      w.server.files path := fun path => congrFun hfiles path
  have hprogress : ∀ dl, d.state = .inProgress dl → w.server.downloader.state = .inProgress dl := by
    intro dl hdl
    rcases hstate with hs | hs
    · exact hs.symm.trans hdl
    · exact absurd hdl (hs dl)
  refine ⟨fun dl hdl => ?_, fun dl hdl => h.exclusive dl (hprogress dl hdl),
    fun path hpath => (h.listed path hpath).frame (hf path),
    fun t ht path hpath hsome => (h.found t ht path hpath (hf path ▸ hsome)).frame (hf path),
    fun t ht hv => ⟨(h.verified t ht hv).1, fun path hpath => ?_⟩, h.noPending, h.separate,
    h.apart⟩
  · obtain ⟨log, hlog, hrest⟩ := h.accounted dl (hprogress dl hdl)
    exact ⟨log, hfiles.symm ▸ hlog, hrest⟩
  · rw [show (w.withServer { w.server with downloader := d }).server.files path = _ from hf path]
    exact (h.verified t ht hv).2 path hpath

theorem handleStallMonitor_cases (now : Nat) (d : Downloader) :
    (d.handleStallMonitor now).files = d.files ∧
    ((d.handleStallMonitor now).state = d.state ∨
      ∀ dl, (d.handleStallMonitor now).state ≠ .inProgress dl) := by
  have hfailed : ∀ dl, d.markFailed.state ≠ .inProgress dl := fun dl h => by
    obtain ⟨logged, hlogged⟩ := Downloader.markFailed_state d
    rw [hlogged] at h
    cases h
  unfold Downloader.handleStallMonitor
  split
  · split
    · exact ⟨rfl, .inl rfl⟩
    · exact ⟨Downloader.markFailed_files d, .inr hfailed⟩
  · exact ⟨rfl, .inl rfl⟩

end Plain

/-! ## 6. One lemma for each step -/

section Steps

variable {w : World}

theorem restart_sound (h : w.Sound) : (w.withServer w.server.restart).Sound :=
  .of_no_task rfl (Downloader.accounted_of_not_inProgress fun _ => nofun) (fun _ => nofun)
    (fun path hpath => (h.listed path hpath).frame rfl) h.separate

theorem removeReleaseFiles_files {removed : ReleasePath → Bool} {paths : List ReleasePath}
    {s : UpdateServer} {path : ReleasePath} (h : path ∉ paths ∨ removed path = false) :
    (removeReleaseFiles removed paths s).files path = s.files path := by
  refine if_neg fun hc => ?_
  rcases h with h | h
  · exact h hc.1
  · rw [h] at hc
    cases hc.2

theorem recover_sound (removed : ReleasePath → Bool) (kept : Nat → Bool) :
    (w.withServer (w.server.restart.recover removed kept)).Sound :=
  .of_no_task rfl (Downloader.accounted_of_not_inProgress fun _ => nofun) (fun _ => nofun) nofun
    nofun

theorem cutRemoval_sound (h : w.Sound) {removed : ReleasePath → Bool}
    (hr : ∀ path ∈ w.server.state.pendingApply, removed path = false) :
    (w.withServer (removeReleaseFiles removed w.server.state.pendingApply w.server).restart).Sound := by
  have hfiles : ∀ path, (removeReleaseFiles removed w.server.state.pendingApply w.server).files path =
      w.server.files path := fun path => removeReleaseFiles_files (by
    by_cases hp : path ∈ w.server.state.pendingApply
    · exact .inr (hr path hp)
    · exact .inl hp)
  exact .of_no_task rfl (Downloader.accounted_of_not_inProgress fun _ => nofun) (fun _ => nofun)
    (fun path hpath => (h.listed path hpath).frame (hfiles path)) h.separate

theorem applyDownloaded_sound (h : w.Sound) (battery : Bool) :
    (w.withServer (applyDownloadedUpdate battery w.server).2).Sound := by
  rcases applyDownloadedUpdate_cases battery w.server with hs | ⟨htask, hp, paths, hd, hs⟩
  · rw [hs]
    exact h
  · rw [hs]
    have hpaths : ∀ path ∈ paths, path ∈ w.server.state.listed := fun path hpath =>
      mem_downloaded (by rw [hd]; exact hpath)
    exact .of_new_task rfl rfl nofun hp
      (fun path hpath _ => (h.listed path (hpaths path hpath)).frame rfl) fun _ _ => nofun

theorem continue_sound (h : w.Sound) (battery : Bool) (finalized : Option Error)
    (actual : Except Error String) (removed : ReleasePath → Bool) :
    (w.withServer (UpdateServer.continueUpdate battery finalized actual removed w.server).2).Sound := by
  have hcontinued := continueUpdate_continued battery finalized actual removed w.server
  generalize (UpdateServer.continueUpdate battery finalized actual removed w.server).2 = s'
    at hcontinued ⊢
  cases hcontinued with
  | refused _ hs => exact h.sameListing hs
  | abandoned state htask hd hp =>
    refine .of_no_task rfl (fun dl hdl => ?_) (fun dl hdl => ?_) (fun path hpath => ?_) ?_
    · -- With a download in progress nothing is pending, and nothing is removed.
      have hl := (h.exclusive dl hdl).1
      rw [UpdateState.listed, List.append_eq_nil_iff] at hl
      have hfiles : (removeReleaseFiles removed w.server.state.pendingApply w.server).files =
          w.server.files := by
        funext path
        exact removeReleaseFiles_files (.inl (by rw [hl.2]; nofun))
      obtain ⟨log, hlog, hrest⟩ := h.accounted dl hdl
      have hlog' : Downloader.Assembled
          (removeReleaseFiles removed w.server.state.pendingApply w.server).files dl log := by
        rw [hfiles]
        exact hlog
      exact ⟨log, hlog', hrest⟩
    · have hl := (h.exclusive dl hdl).1
      rw [UpdateState.listed, List.append_eq_nil_iff] at hl
      show state.listed = []
      rw [UpdateState.listed, hd, hp, hl.1]
      rfl
    · have hpath' : path ∈ w.server.state.downloaded.getD [] := by
        change path ∈ state.listed at hpath
        rwa [UpdateState.listed, hd, hp, List.append_nil] at hpath
      refine (h.listed path (mem_downloaded hpath')).frame ?_
      exact removeReleaseFiles_files (.inl fun hmem => h.separate path hmem hpath')
    · show ∀ path ∈ state.pendingApply, _
      rw [hp]
      exact nofun
  | started state htask hd hp =>
    refine .of_new_task rfl rfl (fun path hpath => ?_) hp (fun path hpath _ => ?_)
      fun path hpath => ?_
    · change path ∈ state.downloaded.getD [] at hpath
      rw [hd] at hpath
      exact (h.listed path (mem_downloaded hpath)).frame rfl
    · exact (h.listed path (mem_pending hpath)).frame rfl
    · show path ∉ state.downloaded.getD []
      rw [hd]
      exact h.separate path hpath

/-- The worker is gone. -/
theorem World.Sound.taskEnds {t : InstallTask} (h : w.Sound) (ht : w.server.task = some t) :
    (w.withServer { w.server with task := none }).Sound :=
  .of_no_task rfl (Downloader.accounted_of_not_inProgress (h.idle ht))
    (fun dl hdl => absurd hdl (h.idle ht dl)) (fun path hpath => (h.listed path hpath).frame rfl)
    h.separate

theorem workerVerify_sound (h : w.Sound) (accepted : Bool) :
    (w.withServer (w.server.workerVerify accepted)).Sound := by
  unfold UpdateServer.workerVerify
  split
  · exact h
  · next task ht =>
    split
    · next hok =>
      refine ⟨h.accounted, fun dl hdl => absurd hdl (h.idle ht dl), h.listed, ?_, ?_, ?_,
        h.separate, ?_⟩
      · intro t ht' path hpath hsome
        cases ht'
        exact h.found task ht path hpath hsome
      · intro t ht' _
        cases ht'
        exact ⟨hok.2.1, fun path hpath => hok.2.2 path (List.mem_of_mem_drop hpath)⟩
      · exact fun _ _ => h.noPending task ht
      · intro t ht'
        cases ht'
        exact h.apart task ht
    · exact h.taskEnds ht

theorem workerApply_sound (h : w.Sound) : (w.withServer w.server.workerApply).Sound := by
  unfold UpdateServer.workerApply
  split
  · exact h
  · next task ht =>
    split
    · next path hverified hpath =>
      obtain ⟨hnodup, hsome⟩ := h.verified task ht hverified
      have hmem : path ∈ task.paths := List.mem_of_getElem? hpath
      have hdrop : InstallTask.rest task = path :: task.paths.drop (task.applied + 1) := by
        obtain ⟨hlt, hget⟩ := List.getElem?_eq_some_iff.mp hpath
        rw [InstallTask.rest, List.drop_eq_getElem_cons hlt, hget]
      have hfresh : path ∉ task.paths.drop (task.applied + 1) := by
        have hsub : (InstallTask.rest task).Nodup := hnodup.sublist (List.drop_sublist _ _)
        rw [hdrop] at hsub
        exact (List.nodup_cons.mp hsub).1
      have hfiles : ∀ p, p ≠ path → Function.update w.server.files path none p =
          w.server.files p := fun p hp => Function.update_of_ne hp _ _
      have hlisted : ∀ p ∈ w.server.state.listed, p ≠ path := by
        rintro p hp rfl
        rw [UpdateState.listed, h.noPending task ht, List.append_nil] at hp
        exact h.apart task ht p hmem hp
      refine ⟨Downloader.accounted_of_not_inProgress (h.idle ht),
        fun dl hdl => absurd hdl (h.idle ht dl),
        fun p hp => (h.listed p hp).frame (hfiles p (hlisted p hp)), ?_, ?_, ?_, h.separate, ?_⟩
      · intro t ht' p hp hsome'
        cases ht'
        have hne : p ≠ path := fun he => hfresh (he ▸ hp)
        refine (h.found task ht p (hdrop ▸ List.mem_cons_of_mem _ hp) ?_).frame (hfiles p hne)
        exact hfiles p hne ▸ hsome'
      · intro t ht' _
        cases ht'
        refine ⟨hnodup, fun p hp => ?_⟩
        have hne : p ≠ path := fun he => hfresh (he ▸ hp)
        show (Function.update w.server.files path none p).isSome
        rw [hfiles p hne]
        exact hsome p (hdrop ▸ List.mem_cons_of_mem _ hp)
      · exact fun _ _ => h.noPending task ht
      · intro t ht'
        cases ht'
        exact h.apart task ht
    · exact h

theorem workerPartial_sound (h : w.Sound) (version : Option String) (progress : UInt32) :
    (w.withServer (w.server.workerPartial version progress)).Sound := by
  unfold UpdateServer.workerPartial
  split
  · exact h
  · next task ht =>
    split
    · next hok =>
      cases version with
      | none => exact h.taskEnds ht
      | some expected =>
        obtain ⟨-, hsome⟩ := h.verified task ht hok.1
        refine .of_no_task rfl (Downloader.accounted_of_not_inProgress (h.idle ht))
          (fun dl hdl => absurd hdl (h.idle ht dl)) (fun path hpath => ?_) fun path hpath => ?_
        · rcases List.mem_append.mp hpath with hd | hp
          · exact (h.listed path (mem_downloaded hd)).frame rfl
          · exact (h.found task ht path hp (hsome path hp)).frame rfl
        · exact h.apart task ht path (List.mem_of_mem_drop hpath)
    · exact h

theorem workerDone_sound (h : w.Sound) (swapped : Bool) :
    (w.withServer (w.server.workerDone swapped)).Sound := by
  unfold UpdateServer.workerDone
  split
  · exact h
  · next task ht =>
    split
    · exact (h.taskEnds ht).sameListing ⟨_, rfl, rfl, rfl⟩
    · exact h

theorem workerFails_sound (h : w.Sound) : (w.withServer w.server.workerFails).Sound := by
  cases ht : w.server.task with
  | none =>
    have hs : w.server.workerFails = w.server := by
      unfold UpdateServer.workerFails
      rw [← ht]
    rw [hs]
    exact h
  | some task => exact h.taskEnds ht

end Steps

/-! ## 7. Handing over and fetching -/

section Fetch

variable {w : World}

theorem handsOver_refused {battery : Bool} {paths : List ReleasePath} {s : UpdateServer}
    (h : (startUpdate battery paths s).2 = s) : handsOver (.startUpdate battery paths) s = [] := by
  refine if_neg fun hc => ?_
  have hrun : (startUpdate battery paths s).2.installRunning = true := hc.2
  rw [h, hc.1] at hrun
  cases hrun

theorem startUpdate_sound (h : w.Sound) {battery : Bool} {paths : List ReleasePath}
    (hapart : ∀ path ∈ paths, path ∉ w.server.state.downloaded.getD []) :
    (w.step (.startUpdate battery paths)).Sound := by
  rcases startUpdate_cases battery paths w.server with hs | ⟨htask, hp, hs⟩
  · rw [step_plain rfl (handsOver_refused hs) rfl]
    show (w.withServer (startUpdate battery paths w.server).2).Sound
    rw [hs]
    exact h
  · have hserver : (w.step (.startUpdate battery paths)).server =
        { w.server with task := some { paths }, downloader := w.server.downloader.resetState } := hs
    have hover : handsOver (.startUpdate battery paths) w.server = paths := by
      refine if_pos ⟨by rw [installRunning, htask]; rfl, ?_⟩
      show (startUpdate battery paths w.server).2.installRunning = true
      rw [hs]
      rfl
    have hfiles : (w.step (.startUpdate battery paths)).server.files = w.server.files := by
      rw [hserver]
      rfl
    have hexpected : ∀ path, (w.step (.startUpdate battery paths)).expected path =
        if path ∈ paths then w.server.files path else w.expected path := by
      intro path
      simp only [World.step, hover, completes, List.not_mem_nil, if_false]
    have hhanded : ∀ path, (w.step (.startUpdate battery paths)).handed path =
        if path ∈ paths then true else w.handed path := by
      intro path
      simp only [World.step, hover, completes, List.not_mem_nil, if_false]
    refine .of_new_task (by rw [hserver]) (by rw [hserver]; rfl) (fun path hpath => ?_)
      (by rw [hserver]; exact hp) (fun path hpath hsome => ?_) (fun path hpath => ?_)
    · have hd : path ∈ w.server.state.downloaded.getD [] := by rwa [hserver] at hpath
      have hnot : path ∉ paths := fun hmem => hapart path hmem hd
      obtain ⟨bytes, hbytes, he, ho⟩ := h.listed path (mem_downloaded hd)
      refine ⟨bytes, by rw [hfiles]; exact hbytes, ?_, ?_⟩
      · rw [hexpected, if_neg hnot]
        exact he
      · rw [hhanded, if_neg hnot]
        show _ → Received (w.history ++ []) path bytes
        rw [List.append_nil]
        exact ho
    · rw [hfiles] at hsome
      obtain ⟨bytes, hbytes⟩ := Option.isSome_iff_exists.mp hsome
      refine ⟨bytes, by rw [hfiles]; exact hbytes, ?_, ?_⟩
      · rw [hexpected, if_pos hpath]
        exact hbytes
      · rw [hhanded, if_pos hpath]
        exact nofun
    · rw [hserver]
      exact hapart path hpath

theorem chunksOf_append (history inputs : List Downloader.Input) :
    (chunksOf history).Sublist (chunksOf (history ++ inputs)) := by
  rw [chunksOf, chunksOf, List.filterMap_append]
  exact List.sublist_append_left _ _

theorem Received.mono {history : List Downloader.Input} {path : ReleasePath} {bytes : Bytes}
    (h : Received history path bytes) (inputs : List Downloader.Input) :
    Received (history ++ inputs) path bytes := by
  obtain ⟨i, chunks, total, hpath, hsub, hrest⟩ := h
  exact ⟨i, chunks, total, hpath, hsub.trans (chunksOf_append history inputs), hrest⟩

/-- A step that leaves a file alone. -/
theorem World.Intact.step {input : Input} {path : ReleasePath} (h : w.Intact path)
    (hfile : (UpdateServer.step input w.server).files path = w.server.files path)
    (hc : path ∉ completes input w.server) (hh : path ∉ handsOver input w.server) :
    (w.step input).Intact path := by
  obtain ⟨bytes, hbytes, hexpected, horigin⟩ := h
  refine ⟨bytes, hfile.trans hbytes, ?_, ?_⟩
  · simp only [World.step, if_neg hc, if_neg hh, hexpected]
  · simp only [World.step, if_neg hc, if_neg hh]
    exact fun hhanded => (horigin hhanded).mono _

/-- The chunks that have come since the last start are among all that have come. -/
theorem received_sublist (history : List Downloader.Input) :
    (Downloader.received history).Sublist (chunksOf history) := by
  induction history using List.reverseRecOn with
  | nil => exact List.Sublist.refl _
  | append_singleton history input ih =>
    rw [Downloader.received_append]
    cases input with
    | event replies now event =>
      cases event with
      | starting m => exact List.nil_sublist _
      | chunk c =>
        rw [chunksOf, List.filterMap_append]
        exact ih.append (List.Sublist.refl _)
      | updateNotAvailable => exact ih.trans (chunksOf_append _ _)
      | downloading => exact ih.trans (chunksOf_append _ _)
      | error message => exact ih.trans (chunksOf_append _ _)
    | resumeResult result => exact ih.trans (chunksOf_append _ _)
    | stallTick now => exact ih.trans (chunksOf_append _ _)
    | reset => exact ih.trans (chunksOf_append _ _)

/-- A reassembled file was received. -/
theorem received_of_reassembled {history : List Downloader.Input} {files : Files}
    {result : UpdateFiles} {log : List FirmwareChunk} (h : Downloader.Reassembled files result log)
    (hlog : log.Sublist (chunksOf history)) {path : ReleasePath} (hpath : path ∈ result.paths) :
    ∃ bytes, files path = some bytes ∧ Received history path bytes := by
  rw [h.paths] at hpath
  obtain ⟨i, hi, rfl⟩ := List.mem_map.mp hpath
  obtain ⟨total, htotal, hindices, hfile⟩ := h.patches i (List.mem_range.mp hi)
  refine ⟨_, hfile, i, Downloader.ofPatch i log, total, rfl, ?_, fun c hc => ⟨?_, htotal c hc⟩,
    hindices, rfl⟩
  · exact List.filter_sublist.trans hlog
  · exact beq_iff_eq.mp (List.mem_filter.mp hc).2

end Fetch

/-! ## 8. Fetch events -/

section FetchStep

variable {w : World} {replies : FsReplies} {now : Nat} {event : FwEvent} {resume : Option String}

theorem handleResumeResult_cases (result : Option String) (d : Downloader) :
    (Downloader.handleResumeResult result d).2 = d ∨
      (Downloader.handleResumeResult result d).2 = d.markFailed := by
  unfold Downloader.handleResumeResult
  rw [Prog.bind_run, Prog.get_run]
  dsimp only
  cases d.state with
  | idle => exact .inl rfl
  | failed logged => exact .inl rfl
  | inProgress dl =>
    obtain ⟨metadata, patches, lastProgressAt, resync⟩ := dl
    cases resync with
    | none => exact .inl rfl
    | some resumedAt =>
      cases result with
      | none => exact .inl rfl
      | some message => exact .inr rfl

/-- What a fetch event does to an idle server: either the download is finished, or only the
downloader has changed. -/
theorem handleFetchEvent_cases (resume : Option String) {s : UpdateServer}
    (hrun : s.installRunning = false) :
    (∃ result d, Downloader.handleEvent replies now event s.downloader = (.ok (.done result), d) ∧
      completes (.fetch replies now event resume) s = result.paths ∧
      s.handleFetchEvent replies now event resume =
        { s with downloader := d, state := { s.state with downloaded := some result.paths } }) ∨
    (completes (.fetch replies now event resume) s = [] ∧
      ∃ d, (d = (Downloader.handleEvent replies now event s.downloader).2 ∨
          d = (Downloader.handleEvent replies now event s.downloader).2.markFailed) ∧
        s.handleFetchEvent replies now event resume = { s with downloader := d }) := by
  simp only [completes, handleFetchEvent, hrun, Bool.false_eq_true, if_false]
  rcases Downloader.handleEvent replies now event s.downloader with ⟨o, d⟩
  cases o with
  | ok outcome =>
    cases outcome with
    | none => exact .inr ⟨rfl, d, .inl rfl, rfl⟩
    | done result => exact .inl ⟨result, d, rfl, rfl, rfl⟩
    | retry offset => exact .inr ⟨rfl, _, handleResumeResult_cases resume d, rfl⟩
  | err e => exact .inr ⟨rfl, d, .inl rfl, rfl⟩
  | panic p => exact p.elim

/-- The downloader's accounts after the event. -/
theorem accounted_after (h : w.Sound) (hrun : w.server.installRunning = false)
    (hc : Input.Careful (.fetch replies now event resume) w.server) :
    Downloader.Accounted (w.history ++ [.event replies now event])
      (Downloader.handleEvent replies now event w.server.downloader).2 := by
  have hclears : Downloader.Input.Clears (.event replies now event) w.server.downloader := by
    cases event with
    | starting m => exact (hc hrun).2
    | chunk c => trivial
    | updateNotAvailable => trivial
    | downloading => trivial
    | error message => trivial
  exact Prog.Triple.snd (Downloader.step_accounted (.event replies now event))
    ⟨h.accounted, hclears⟩

/-- A finished download: nothing else was listed, and its files were received. -/
theorem finished (h : w.Sound) {result : UpdateFiles} {d : Downloader}
    (hrun : Downloader.handleEvent replies now event w.server.downloader =
      (.ok (.done result), d)) :
    w.server.state.listed = [] ∧ d.state = .idle ∧ ∀ path ∈ result.paths,
      ∃ bytes, d.files path = some bytes ∧
        Received (w.history ++ [.event replies now event]) path bytes := by
  obtain hnone | ⟨c, dl, rfl, hstate⟩ := Downloader.handleEvent_outcome hrun
  · cases hnone
  obtain ⟨log, hlog, hsub, -⟩ := h.accounted dl hstate
  have hspec : Prog.Triple (Downloader.Progress dl.metadata log)
    (Downloader.handleEvent replies now (.chunk c))
    (fun outcome d => Downloader.Handled dl.metadata log c d outcome) _ _ :=
    Downloader.handleEvent_chunk_spec
  have hhandled := hspec _ ⟨dl, hstate, rfl, hlog⟩
  rw [hrun] at hhandled
  cases hhandled with
  | done _ _ hidle hre =>
    refine ⟨(h.exclusive dl hstate).1, hidle, fun path hpath => received_of_reassembled hre ?_ hpath⟩
    rw [chunksOf, List.filterMap_append]
    exact (hsub.trans (received_sublist w.history)).append (List.Sublist.refl _)

/-- While the record names a file, a careful event of the peer writes to no file. -/
theorem quiet_after (h : w.Sound) (hrun : w.server.installRunning = false)
    (hc : Input.Careful (.fetch replies now event resume) w.server)
    (hlisted : w.server.state.listed ≠ []) :
    Downloader.Quiet w.server.files
      (Downloader.handleEvent replies now event w.server.downloader).2 := by
  have hstart : ∀ m, event ≠ .starting m := by
    rintro m rfl
    exact hlisted (hc hrun).1
  exact Prog.Triple.snd (Downloader.handleEvent_quiet hstart)
    ⟨rfl, fun dl hdl => hlisted (h.exclusive dl hdl).1⟩

theorem fetch_sound (h : w.Sound)
    (hc : Input.Careful (.fetch replies now event resume) w.server) :
    (w.step (.fetch replies now event resume)).Sound := by
  cases hrun : w.server.installRunning with
  | true =>
    have hcompletes : completes (.fetch replies now event resume) w.server = [] := if_pos hrun
    have hhandled : handled (.fetch replies now event resume) w.server = [] := if_pos hrun
    rw [step_plain hcompletes rfl hhandled]
    have hs : UpdateServer.step (.fetch replies now event resume) w.server = w.server :=
      if_pos hrun
    rw [hs]
    exact h
  | false =>
    have htask : w.server.task = none := by
      rwa [installRunning, Option.isSome_eq_false_iff, Option.isNone_iff_eq_none] at hrun
    have hhistory : (w.step (.fetch replies now event resume)).history =
        w.history ++ [.event replies now event] := by
      simp only [World.step, handled, hrun, Bool.false_eq_true, if_false]
    rcases handleFetchEvent_cases resume hrun with
      ⟨result, d, hresult, hcompletes, hs⟩ | ⟨hcompletes, d, hd, hs⟩
    · have hserver : (w.step (.fetch replies now event resume)).server = _ := hs
      obtain ⟨hlisted, hidle, hreceived⟩ := finished h hresult
      have hpending : w.server.state.pendingApply = [] :=
        (List.append_eq_nil_iff.mp hlisted).2
      have hnot : ∀ dl, d.state ≠ .inProgress dl := fun dl hdl => by
        rw [hidle] at hdl
        cases hdl
      refine .of_no_task (by rw [hserver]; exact htask) ?_ ?_ (fun path hpath => ?_) ?_
      · rw [hserver]
        exact Downloader.accounted_of_not_inProgress hnot
      · rw [hserver]
        exact fun dl hdl => absurd hdl (hnot dl)
      · have hmem : path ∈ result.paths := by
          rw [hserver, UpdateState.listed] at hpath
          rwa [hpending, List.append_nil] at hpath
        obtain ⟨bytes, hbytes, horigin⟩ := hreceived path hmem
        refine ⟨bytes, by rw [hserver]; exact hbytes, ?_, fun _ => hhistory ▸ horigin⟩
        have hfile : (UpdateServer.step (.fetch replies now event resume) w.server).files path =
            some bytes := by
          rw [show UpdateServer.step (.fetch replies now event resume) w.server = _ from hs]
          exact hbytes
        simp only [World.step, hcompletes, if_pos hmem, hfile]
      · rw [hserver, hpending]
        exact nofun
    · have hserver : (w.step (.fetch replies now event resume)).server = _ := hs
      have hsame : d.files = (Downloader.handleEvent replies now event w.server.downloader).2.files := by
        rcases hd with rfl | rfl
        · rfl
        · exact Downloader.markFailed_files _
      have hprogress : ∀ dl, d.state = .inProgress dl →
          d = (Downloader.handleEvent replies now event w.server.downloader).2 := by
        intro dl hdl
        rcases hd with rfl | rfl
        · rfl
        · obtain ⟨logged, hlogged⟩ := Downloader.markFailed_state
            (Downloader.handleEvent replies now event w.server.downloader).2
          rw [hlogged] at hdl
          cases hdl
      refine .of_no_task (by rw [hserver]; exact htask) ?_ ?_ (fun path hpath => ?_) ?_
      · rw [hserver, hhistory]
        intro dl hdl
        obtain rfl := hprogress dl hdl
        exact accounted_after h hrun hc dl hdl
      · rw [hserver]
        intro dl hdl
        by_contra hlisted
        obtain rfl := hprogress dl hdl
        exact (quiet_after h hrun hc hlisted).2 dl hdl
      · rw [hserver] at hpath
        have hquiet := quiet_after h hrun hc (List.ne_nil_of_mem hpath)
        refine (h.listed path hpath).step ?_ (by rw [hcompletes]; exact nofun) nofun
        show (w.server.handleFetchEvent replies now event resume).files path = _
        rw [hs]
        exact congrFun (hsame.trans hquiet.1) path
      · rw [hserver]
        exact h.separate

end FetchStep

/-! ## 9. Runs -/

theorem step_sound {w : World} {input : Input} (h : w.Sound) (hc : input.Careful w.server) :
    (w.step input).Sound := by
  cases input with
  | fetch replies now event resume => exact fetch_sound h hc
  | stallTick now =>
    rw [step_plain rfl rfl rfl]
    obtain ⟨hfiles, hstate⟩ := handleStallMonitor_cases now w.server.downloader
    exact h.givesUp hfiles hstate
  | startUpdate battery paths => exact startUpdate_sound h hc
  | applyDownloaded battery =>
    rw [step_plain rfl rfl rfl]
    exact applyDownloaded_sound h battery
  | continueUpdate battery finalized actual removed =>
    rw [step_plain rfl rfl rfl]
    exact continue_sound h battery finalized actual removed
  | clearUpdateApplied =>
    rw [step_plain rfl rfl rfl]
    exact h.sameListing ⟨_, rfl, rfl, rfl⟩
  | workerVerify accepted =>
    rw [step_plain rfl rfl rfl]
    exact workerVerify_sound h accepted
  | workerApply =>
    rw [step_plain rfl rfl rfl]
    exact workerApply_sound h
  | workerFails =>
    rw [step_plain rfl rfl rfl]
    exact workerFails_sound h
  | workerPartial version progress =>
    rw [step_plain rfl rfl rfl]
    exact workerPartial_sound h version progress
  | workerDone swapped =>
    rw [step_plain rfl rfl rfl]
    exact workerDone_sound h swapped
  | restart =>
    rw [step_plain rfl rfl rfl]
    exact restart_sound h
  | recover removed kept =>
    rw [step_plain rfl rfl rfl]
    exact recover_sound removed kept
  | cutRemoval removed =>
    rw [step_plain rfl rfl rfl]
    exact cutRemoval_sound h hc

/-- A run from `w`, all of whose inputs satisfy `C`. -/
inductive World.Runs (C : Input → UpdateServer → Prop) : World → World → Prop where
  | refl (w : World) : World.Runs C w w
  | step {w w' : World} (input : Input) (hC : C input w'.server) (h : World.Runs C w w') :
      World.Runs C w (w'.step input)

theorem runs_sound {w w' : World} (h : w.Sound) (hrun : w.Runs Input.Careful w') : w'.Sound := by
  induction hrun with
  | refl => exact h
  | step input hC _ ih => exact step_sound ih hC

/-- A server that starts with a record that names nothing. -/
def World.fresh (files : Files) (kept : UpdateState) : World where
  server := { downloader := ⟨files, .idle⟩, state := kept, task := none }
  history := []
  expected := fun _ => none
  handed := fun _ => false

theorem fresh_sound {files : Files} {kept : UpdateState} (h : kept.listed = []) :
    (World.fresh files kept).Sound := by
  refine .of_no_task rfl (Downloader.accounted_of_not_inProgress fun _ => nofun) (fun _ => nofun)
    (fun path hpath => ?_) fun path hpath => ?_
  · change path ∈ kept.listed at hpath
    rw [h] at hpath
    cases hpath
  · have hmem : path ∈ kept.listed := mem_pending hpath
    rw [h] at hmem
    cases hmem

/-- In every state that a run of careful steps reaches, each file that the record names
exists, with the bytes that were received for it (or that it was handed over with); and a
careful event of the peer leaves the content of each of them as it is. -/
theorem listed_release_files_intact {files : Files} {kept : UpdateState} {w : World}
    (h : (World.fresh files kept).Runs Input.Careful w) (hkept : kept.listed = []) :
    (∀ path ∈ w.server.state.listed, w.Intact path) ∧
    ∀ replies now event resume, Input.Careful (.fetch replies now event resume) w.server →
      ∀ path ∈ w.server.state.listed,
        (UpdateServer.step (.fetch replies now event resume) w.server).files path =
          w.server.files path := by
  have hsound := runs_sound (fresh_sound hkept) h
  refine ⟨hsound.listed, fun replies now event resume hc path hpath => ?_⟩
  cases hrun : w.server.installRunning with
  | true =>
    have hs : UpdateServer.step (.fetch replies now event resume) w.server = w.server :=
      if_pos hrun
    rw [hs]
  | false =>
    have hlisted := List.ne_nil_of_mem hpath
    have hquiet := quiet_after hsound hrun hc hlisted
    show (w.server.handleFetchEvent replies now event resume).files path = _
    rcases handleFetchEvent_cases resume hrun with
      ⟨result, d, hresult, -, -⟩ | ⟨-, d, hd, hs⟩
    · exact absurd (finished hsound hresult).1 hlisted
    · rw [hs]
      rcases hd with rfl | rfl
      · exact congrFun hquiet.1 path
      · exact congrFun ((Downloader.markFailed_files _).trans hquiet.1) path

/-! ## 10. A second start -/

def fetchStart (kept : Bool) : Input :=
  .fetch (Downloader.repliesKeeping kept) 0 (.starting Downloader.onePatch) none

def fetchChunk : Input :=
  .fetch (Downloader.repliesKeeping false) 0 (.chunk Downloader.oneChunk) none

theorem listed_release_files_intact_one :
    ∃ w, (World.fresh (fun _ => none) {}).Runs Input.Careful w ∧
      w.server.state.downloaded = some [.patch 0] ∧ w.Intact (.patch 0) :=
  have hrun : (World.fresh (fun _ => none) {}).Runs Input.Careful _ :=
    .step fetchChunk trivial
      (.step (fetchStart false) (fun _ => ⟨rfl, fun _ _ _ _ => .inl rfl⟩) (.refl _))
  ⟨_, hrun, rfl, (listed_release_files_intact hrun rfl).1 _ (List.mem_singleton.mpr rfl)⟩

/-- After a finished download a second start removes the file that the record names. -/
theorem second_start_loses_download :
    ∃ w, (World.fresh (fun _ => none) {}).Runs (fun _ _ => True) w ∧
      w.server.state.downloaded = some [.patch 0] ∧ ¬ w.Intact (.patch 0) := by
  refine ⟨_, .step (fetchStart false) trivial (.step fetchChunk trivial
    (.step (fetchStart false) trivial (.refl _))), rfl, ?_⟩
  rintro ⟨bytes, hbytes, hexpected, -⟩
  have hempty : some [] = some bytes := hbytes
  have hone : some [1] = some bytes := hexpected
  rw [← hempty] at hone
  cases hone

end UpdateServer

end Update
