import KeyOS.UsbDebug.UploadFiles

/-!
# What an upload leaves

Nothing but a staging directory changes before `LOAD_APP_END`. What `LOAD_APP_END` installs is the
log if all was calm since the session began, and a bundle that was installed survives a
`LOAD_APP_END` that fails only if it fails before anything is removed.
-/

namespace UsbDebug

open FatTree

/-! ## 1. Runs -/

/-- A session, its log, and whether all was calm since it began. -/
structure World where
  state : State
  log : Log
  calm : Prop

def World.step (w : World) (event : Event) : World :=
  let result := dispatch event w.state
  { state := result.2
    log := w.log.next event.command result.1 result.2
    calm :=
      match event.command, result.1 with
      | .loadAppBegin _, .ack => True
      | _, _ => w.calm ∧ Calm event w.state w.log }

/-- Any commands, from a tree in which the directory of the apps exists. -/
inductive Run : World → Prop
  | start {tree : Tree} (hclosed : tree.Closed) (hroot : tree.node SIDELOADED_APPS_DIR = some .dir) :
    Run ⟨⟨none, tree⟩, [], True⟩
  | step {w : World} (h : Run w) (event : Event) : Run (w.step event)

/-- Nothing goes wrong once `LOAD_APP_END` has begun to replace a bundle. -/
def Sound (event : Event) (w : World) : Prop :=
  match event.command with
  | .loadAppEnd =>
    ∀ session, w.state.upload = some session → session.currentFile = none →
      lockedResponse event.faults = none →
      let f := event.faults
      let complete := f.renameApp = none ∧ f.refresh = false ∧
        (w.state.tree.node session.stagingDir).isSome
      (complete → w.calm) ∧
        ((w.state.tree.node session.appDir).isSome →
          f.removeApp = none ∧ complete ∨
            ∃ kept, f.removeApp = some kept ∧ ∀ q, (w.state.tree.node q).isSome → kept q = true)
  | _ => True

/-! ## 2. What a command should do -/

/-- A command before `LOAD_APP_END` changes staging directories only. -/
def Staged (s s' : State) : Prop :=
  ∀ q, (∀ appId, ¬ stagingDir appId <+: q) → s'.tree.node q = s.tree.node q

/-- The bundle has the files of the log and no others, each as long as announced. -/
def Installed (session : UploadSession) (log : Log) (tree : Tree) : Prop :=
  (∀ rel, tree.file? (session.appDir ++ rel) = log.content (session.stagingDir ++ rel)) ∧
    ∀ a ∈ log, a.data.length = a.size

/-- Every bundle is as it was. -/
def Preserved (s s' : State) : Prop :=
  ∀ appId, (s.tree.node (bundleDir appId)).isSome →
    ∀ q, bundleDir appId <+: q → s'.tree.node q = s.tree.node q

/-- What is staged of an app is gone, and a session has begun. -/
def Restarted (appId : AppId) (response : Response) (s' : State) : Prop :=
  response = .ack ∧ (∀ q, stagingDir appId <+: q → s'.tree.node q = none) ∧
    ∃ session, s'.upload = some session ∧ session.appId = appId ∧ session.currentFile = none

/-- A command is handled as it should be. -/
def Right (event : Event) (w : World) : Prop :=
  let result := dispatch event w.state
  match event.command with
  | .loadAppEnd =>
    match result.1 with
    | .ack => ∃ session, w.state.upload = some session ∧ Installed session w.log result.2.tree
    | _ => Preserved w.state result.2
  | .loadAppBegin appId =>
    Staged w.state result.2 ∧
      (event.faults.lockState = .unlocked → event.faults.developerMode = true →
        event.faults.removeStaging = none → Restarted appId result.1 result.2)
  | _ => Staged w.state result.2

section

variable {f : Faults} {appId : AppId} {raw : Path} {n : Name} {tree tree' : Tree} {s s' : State}
  {session : UploadSession} {file : UploadFile}

/-! ## 3. A session begins -/

/-- What is staged of an app is gone once a session has begun. -/
theorem loadAppBegin_ack (h : Shaped s) (hack : (loadAppBegin f appId s).1 = .ack) :
    ∃ tree, (loadAppBegin f appId s).2 = startSession appId tree ∧
      ∀ q, stagingDir appId <+: q → tree.node q = none := by
  unfold loadAppBegin at hack ⊢
  split at hack
  next response hlocked => exact (lockedResponse_ne_ack hlocked hack).elim
  next =>
    split at hack
    next => cases hack
    next hmode =>
      rw [if_neg hmode]
      dsimp only at hack ⊢
      split at hack
      next hremoved =>
        rw [if_pos hremoved]
        exact ⟨_, rfl, startSession_ready (abortLoadAppSession_shaped h).closed hremoved⟩
      next => cases hack

theorem loadAppBegin_held (f : Faults) (appId : AppId) (log : Log) (h : Shaped s) :
    HeldIn (loadAppBegin f appId s).2
        (log.next (.loadAppBegin appId) (loadAppBegin f appId s).1 (loadAppBegin f appId s).2) ∨
      (loadAppBegin f appId s).1 ≠ .ack ∧ (loadAppBegin f appId s).2 = s := by
  by_cases hack : (loadAppBegin f appId s).1 = .ack
  · obtain ⟨tree, hstate, hgone⟩ := loadAppBegin_ack h hack
    rw [hack, hstate]
    refine .inl fun session hsession => ?_
    cases hsession
    exact ⟨fun q hq => file?_of_node_none (hgone q hq), nofun⟩
  · unfold loadAppBegin at hack ⊢
    split
    next => exact .inl abort_heldIn
    next hlocked =>
      rw [hlocked] at hack
      split
      next => exact .inr ⟨nofun, rfl⟩
      next hmode =>
        rw [if_neg hmode] at hack
        dsimp only at hack ⊢
        split
        next hremoved =>
          rw [if_pos hremoved] at hack
          exact (hack rfl).elim
        next => exact .inl (heldIn_none abortLoadAppSession_upload)

/-- Nothing staged is no failure. -/
theorem removed_stagingDir (appId : AppId) (h : Shaped s) :
    removed (s.tree.remove none (stagingDir appId)).1 = true := by
  unfold Tree.remove
  dsimp only
  rw [Tree.resolve_plain (stagingDir_plain appId)]
  cases hnode : s.tree.node (stagingDir appId) with
  | some v => rfl
  | none =>
    have hno : ¬ ∃ d ∈ (stagingDir appId).inits, (s.tree.file? d).isSome := by
      rintro ⟨d, hd, hfile⟩
      rw [List.mem_inits] at hd
      rcases eq_or_ne d (stagingDir appId) with rfl | hne
      · rw [file?_of_node_none hnode] at hfile
        cases hfile
      · -- what is above is a directory
        have hup : d <+: SIDELOADED_APPS_DIR := by
          refine List.prefix_of_prefix_length_le hd (List.prefix_append _ _) ?_
          have hle := hd.length_le
          have hlt : d.length ≠ (stagingDir appId).length := fun heq => hne (hd.eq_of_length heq)
          rw [stagingDir, List.length_append, List.length_singleton] at hle hlt
          omega
        have hdir : s.tree.node d = some .dir := by
          rcases eq_or_ne d SIDELOADED_APPS_DIR with rfl | hne'
          · exact h.root
          · exact h.closed.dir_above hup hne' (by rw [h.root]; rfl)
        rw [Tree.file?, hdir] at hfile
        cases hfile
    show removed (.error (s.tree.missing (stagingDir appId))) = true
    rw [Tree.missing, if_neg hno]
    rfl

theorem loadAppBegin_restarted (h : Shaped s) (hunlocked : f.lockState = .unlocked)
    (hmode : f.developerMode = true) (hfault : f.removeStaging = none) :
    Restarted appId (loadAppBegin f appId s).1 (loadAppBegin f appId s).2 := by
  have hack : (loadAppBegin f appId s).1 = .ack := by
    have hremoved := removed_stagingDir appId (abortLoadAppSession_shaped (f := f) h)
    unfold loadAppBegin
    rw [lockedResponse, hunlocked]
    dsimp only
    rw [hmode, if_neg (by decide), hfault]
    rw [stagingDir] at hremoved
    rw [if_pos hremoved]
  obtain ⟨tree, hstate, hgone⟩ := loadAppBegin_ack h hack
  rw [hstate]
  exact ⟨hack, hgone, _, rfl, rfl, rfl⟩

/-! ## 4. The bundle is replaced -/

/-- Closed trees stay closed, and entries outside the two directories of an app as they are. -/
structure Replaced (appId : AppId) (t t' : Tree) : Prop where
  closed : t.Closed → t'.Closed
  node : ∀ q, ¬ bundleDir appId <+: q → ¬ stagingDir appId <+: q → t'.node q = t.node q

theorem Replaced.root (h : Replaced appId tree tree') :
    tree'.node SIDELOADED_APPS_DIR = tree.node SIDELOADED_APPS_DIR := by
  refine h.node _ (fun hpre => ?_) fun hpre => ?_
  · have hle := hpre.length_le
    rw [bundleDir, List.length_append, List.length_singleton] at hle
    omega
  · have hle := hpre.length_le
    rw [stagingDir, List.length_append, List.length_singleton] at hle
    omega

theorem removeApp_replaced (f : Faults) (appId : AppId) (tree : Tree) :
    Replaced appId tree (tree.remove f.removeApp (bundleDir appId)).2 :=
  ⟨Tree.remove_closed, fun _ hq _ => Tree.remove_outside (by
    rwa [Tree.resolve_plain (bundleDir_plain appId)])⟩

theorem renameApp_replaced (f : Faults) (appId : AppId) (tree : Tree) :
    Replaced appId tree
      (tree.rename f.renameApp f.finalShort (stagingDir appId) (bundleDir appId)).2 := by
  suffices hmove : Replaced appId tree
      (tree.moveTo f.finalShort (stagingDir appId) (bundleDir appId)).2 by
    rcases Tree.rename_eq_or f.finalShort tree f.renameApp (stagingDir appId) (bundleDir appId)
      with h | h
    · rw [h]
      exact ⟨id, fun _ _ _ => rfl⟩
    · rw [h]
      exact hmove
  rcases Tree.moveTo_eq_or f.finalShort tree (stagingDir appId) (bundleDir appId) with h | ⟨-, -, hdir, hne, h⟩
  · rw [h]
    exact ⟨id, fun _ _ _ => rfl⟩
  · rw [h]
    rw [Tree.resolve_plain (bundleDir_plain appId)] at hdir hne ⊢
    rw [Tree.resolve_plain (stagingDir_plain appId)]
    refine ⟨fun hc => Tree.move_closed hc _ hne hdir fun hpre => ?_, fun q hq hs =>
      Tree.move_of_neither _ hq hs⟩
    have hle := hpre.length_le
    rw [List.length_dropLast, bundleDir, stagingDir, List.length_append, List.length_append,
      List.length_singleton, List.length_singleton] at hle
    omega

theorem Replaced.trans {t t' t'' : Tree} (h : Replaced appId t t') (h' : Replaced appId t' t'') :
    Replaced appId t t'' :=
  ⟨fun hc => h'.closed (h.closed hc),
    fun q hq hs => (h'.node q hq hs).trans (h.node q hq hs)⟩

theorem replaceApp_replaced (f : Faults) (tree : Tree) (happ : OfApp session) :
    Replaced session.appId tree (replaceApp f session tree).2 := by
  have hremove := removeApp_replaced f session.appId tree
  unfold replaceApp
  rw [happ.appDir, happ.stagingDir]
  split
  next result t heq =>
  rw [heq] at hremove
  split
  next =>
    have hrename := hremove.trans (renameApp_replaced f session.appId t)
    split
    next heq' => rw [heq'] at hrename; exact hrename
    next heq' => rw [heq'] at hrename; exact hrename
  next => exact hremove

/-- What a `LOAD_APP_END` that is acknowledged has done. -/
theorem replaceApp_ack (h : Shaped s) (hupload : s.upload = some session)
    (hack : (replaceApp f session s.tree).1 = .ack) :
    (f.renameApp = none ∧ f.refresh = false ∧
        (s.tree.node (stagingDir session.appId)).isSome) ∧
      ∀ rel, (replaceApp f session s.tree).2.node (bundleDir session.appId ++ rel) =
        s.tree.node (stagingDir session.appId ++ rel) := by
  have happ := h.session session hupload
  have hkept : ∀ rel, (s.tree.remove f.removeApp (bundleDir session.appId)).2.node
      (stagingDir session.appId ++ rel) = s.tree.node (stagingDir session.appId ++ rel) := by
    refine fun rel => Tree.remove_outside fun hpre => ?_
    rw [Tree.resolve_plain (bundleDir_plain _)] at hpre
    have heq := List.prefix_of_prefix_length_le hpre (List.prefix_append _ rel) (by
      rw [bundleDir, stagingDir, List.length_append, List.length_append]
      rfl)
    exact bundleDir_ne_stagingDir _ _ (heq.eq_of_length (by
      rw [bundleDir, stagingDir, List.length_append, List.length_append]
      rfl))
  unfold replaceApp at hack ⊢
  rw [happ.appDir, happ.stagingDir] at hack ⊢
  split at hack
  next result t heq =>
  rw [heq] at hkept
  dsimp only at hkept
  split at hack
  next hremoved =>
    rw [if_pos hremoved]
    split at hack
    next => cases hack
    next t' heq' =>
      have hrename : (t.rename f.renameApp f.finalShort (stagingDir session.appId)
          (bundleDir session.appId)).1 = .ok () := by rw [heq']
      have hok := Tree.rename_ok _ hrename
      rw [Tree.resolve_plain (bundleDir_plain _), Tree.resolve_plain (stagingDir_plain _),
        heq'] at hok
      dsimp only at hack
      have hrefresh : f.refresh = false := by
        cases hr : f.refresh with
        | false => rfl
        | true =>
          rw [hr] at hack
          cases hack
      rcases hok with ⟨hsame, -⟩ | ⟨-, hsome, hfault, hmove⟩
      · exact (bundleDir_ne_stagingDir _ _ hsame.symm).elim
      · have hself := hkept []
        rw [List.append_nil] at hself
        rw [hself] at hsome
        refine ⟨⟨hfault, hrefresh, hsome⟩, fun rel => ?_⟩
        dsimp only at hmove ⊢
        rw [hmove, Tree.move_inside _ _ (List.prefix_append _ rel), List.drop_left, hkept]
  next => cases hack

/-- A `LOAD_APP_END` whose calls succeed is acknowledged. -/
theorem replaceApp_complete (h : Shaped s) (hupload : s.upload = some session)
    (hremove : f.removeApp = none) (hrename : f.renameApp = none) (hrefresh : f.refresh = false)
    (hinstalled : (s.tree.node session.appDir).isSome)
    (hstaged : (s.tree.node session.stagingDir).isSome) :
    (replaceApp f session s.tree).1 = .ack := by
  have happ := h.session session hupload
  obtain ⟨v, hv⟩ := Option.isSome_iff_exists.1 hinstalled
  obtain ⟨w, hw⟩ := Option.isSome_iff_exists.1 hstaged
  rw [happ.appDir] at hv
  rw [happ.stagingDir] at hw
  have hbundle : bundleDir session.appId <+: bundleDir session.appId := List.prefix_refl _
  have hstaging : ¬ bundleDir session.appId <+: stagingDir session.appId := fun hpre =>
    bundleDir_ne_stagingDir _ _ (hpre.eq_of_length (by
      rw [bundleDir, stagingDir, List.length_append, List.length_append]
      rfl))
  have hroot : ¬ bundleDir session.appId <+: SIDELOADED_APPS_DIR := fun hpre => by
    have hle := hpre.length_le
    rw [bundleDir, List.length_append, List.length_singleton] at hle
    omega
  have herase : s.tree.remove f.removeApp (bundleDir session.appId) =
      (.ok (), s.tree.erase (bundleDir session.appId)) := by
    rw [hremove]
    unfold Tree.remove
    dsimp only
    rw [Tree.resolve_plain (bundleDir_plain _), hv]
  have hmove : ((s.tree.erase (bundleDir session.appId)).rename f.renameApp f.finalShort
      (stagingDir session.appId) (bundleDir session.appId)).1 = .ok () := by
    rw [hrename, Tree.rename]
    unfold Tree.moveTo
    rw [Tree.resolve_plain (bundleDir_plain _), Tree.resolve_plain (stagingDir_plain _),
      Tree.erase_inside hbundle, Tree.erase_outside hstaging, hw]
    dsimp only
    rw [if_pos]
    refine ⟨?_, by simp [bundleDir]⟩
    rw [bundleDir, List.dropLast_concat, ← bundleDir, Tree.erase_outside hroot, h.root]
  unfold replaceApp
  rw [happ.appDir, happ.stagingDir, herase]
  dsimp only
  rw [if_pos (show removed (.ok ()) = true from rfl)]
  split
  next heq => rw [heq] at hmove; cases hmove
  next => rw [hrefresh]; rfl

/-- A removal that fails before it removes anything changes nothing. -/
theorem prune_all {kept : Path → Bool} (hc : tree.Closed)
    (hkept : ∀ q, (tree.node q).isSome → kept q = true) (p : Path) : tree.prune p kept = tree := by
  have hsame : (tree.prune p kept).node = tree.node := by
    funext q
    show (if _ then none else tree.node q) = tree.node q
    split
    next hgone =>
      obtain ⟨-, r, hr, -, hrkept⟩ := hgone
      rw [List.mem_inits] at hr
      have hnone : tree.node r = none := by
        by_contra hsome
        rw [hkept r (Option.ne_none_iff_isSome.1 hsome)] at hrkept
        cases hrkept
      exact (hc.none_below hr hnone).symm
    next => rfl
  show { tree with node := (tree.prune p kept).node } = tree
  rw [hsame]

/-- A `LOAD_APP_END` that fails before it removes anything keeps the bundle. -/
theorem replaceApp_kept {kept : Path → Bool} (hc : tree.Closed) (hremove : f.removeApp = some kept)
    (hkept : ∀ q, (tree.node q).isSome → kept q = true) :
    (replaceApp f session tree).2 = tree := by
  unfold replaceApp
  rw [hremove, Tree.remove]
  dsimp only
  rw [prune_all hc hkept]
  rfl

/-- `LOAD_APP_END` refuses, or replaces the bundle of a session without an open file. -/
theorem loadAppEnd_cases :
    (∃ response, response ≠ .ack ∧ loadAppEnd f s = (response, abortLoadAppSession f s)) ∨
      loadAppEnd f s = (.err, s) ∨
      ∃ session, s.upload = some session ∧ session.currentFile = none ∧
        lockedResponse f = none ∧
        loadAppEnd f s =
          ((replaceApp f session s.tree).1, ⟨none, (replaceApp f session s.tree).2⟩) := by
  unfold loadAppEnd
  split
  next response hlocked => exact .inl ⟨response, lockedResponse_ne_ack hlocked, rfl⟩
  next hlocked =>
    cases hupload : s.upload with
    | none => exact .inr (.inl rfl)
    | some session =>
      dsimp only
      cases hidle : session.currentFile with
      | some file => exact .inr (.inl rfl)
      | none => exact .inr (.inr ⟨session, rfl, hidle, hlocked, rfl⟩)

theorem loadAppEnd_shaped (h : Shaped s) : Shaped (loadAppEnd f s).2 := by
  rcases loadAppEnd_cases (f := f) (s := s) with ⟨response, -, heq⟩ | heq | ⟨session, hupload, -, -,
    heq⟩
  · rw [heq]
    exact abortLoadAppSession_shaped h
  · rw [heq]
    exact h
  · rw [heq]
    have hreplaced := replaceApp_replaced f s.tree (h.session session hupload)
    exact ⟨hreplaced.closed h.closed, hreplaced.root.trans h.root, nofun⟩

theorem loadAppEnd_held {log : Log} (hheld : HeldIn s log) :
    HeldIn (loadAppEnd f s).2 (log.next .loadAppEnd (loadAppEnd f s).1 (loadAppEnd f s).2) := by
  rcases loadAppEnd_cases (f := f) (s := s) with ⟨response, -, heq⟩ | heq | ⟨session, -, -, -, heq⟩
  · rw [heq]
    exact abort_heldIn
  · rw [heq]
    exact hheld
  · rw [heq]
    exact heldIn_none rfl

/-- Staging directories are beside the bundles. -/
theorem not_prefix_stagingDir {appId' : AppId} {q : Path} (hq : bundleDir appId <+: q) :
    ¬ stagingDir appId' <+: q := by
  intro hpre
  have hlength : (bundleDir appId).length = (stagingDir appId').length := by
    rw [bundleDir, stagingDir, List.length_append, List.length_append]
    rfl
  have heq := List.prefix_of_prefix_length_le hq hpre hlength.le
  exact bundleDir_ne_stagingDir _ _ (heq.eq_of_length hlength)

theorem Staging.preserved (h : Staging s.tree s'.tree) : Preserved s s' :=
  fun _ _ q hq => h.node q fun _ => not_prefix_stagingDir hq

/-- Bundles of other apps stay. -/
theorem Replaced.preserved (h : Replaced appId s.tree s'.tree)
    (hgone : (s.tree.node (bundleDir appId)).isSome = false) : Preserved s s' := by
  intro appId' hinstalled q hq
  refine h.node q (fun hpre => ?_) (not_prefix_stagingDir hq)
  have hlength : (bundleDir appId).length = (bundleDir appId').length := by
    rw [bundleDir, bundleDir, List.length_append, List.length_append]
    rfl
  have heq := (List.prefix_of_prefix_length_le hpre hq hlength.le).eq_of_length hlength
  rw [heq, hinstalled] at hgone
  cases hgone

/-! ## 5. What every run keeps -/

/-- What every run keeps. -/
structure Good (w : World) : Prop where
  shaped : Shaped w.state
  held : w.calm → HeldIn w.state w.log

theorem Good.step {w : World} (h : Good w) (event : Event) : Good (w.step event) := by
  obtain ⟨command, f⟩ := event
  cases command with
  | loadAppBegin appId =>
    refine ⟨(loadAppBegin_handled h.shaped).shaped, fun hcalm => ?_⟩
    rcases loadAppBegin_held f appId w.log h.shaped
      with hheld | ⟨hresponse, hsame⟩
    · exact hheld
    · -- the session goes on
      have hw : w.calm := by
        unfold World.step at hcalm
        dsimp only [dispatch] at hcalm
        split at hcalm
        next hack => exact (hresponse hack).elim
        next => exact hcalm.1
      show HeldIn (loadAppBegin f appId w.state).2 (w.log.next _ (loadAppBegin f appId w.state).1 _)
      rw [next_of_not_ack hresponse, hsame]
      exact h.held hw
  | loadAppFileBegin filename size =>
    refine ⟨(loadAppFileBegin_handled h.shaped).shaped, fun hcalm => ?_⟩
    exact loadAppFileBegin_held h.shaped (h.held hcalm.1) hcalm.2
  | loadAppChunk data =>
    refine ⟨(loadAppChunk_handled h.shaped).shaped, fun hcalm => ?_⟩
    exact loadAppChunk_held h.shaped (h.held hcalm.1) hcalm.2
  | loadAppEnd =>
    refine ⟨loadAppEnd_shaped h.shaped, fun hcalm => ?_⟩
    exact loadAppEnd_held (h.held hcalm.1)

theorem Run.good {w : World} (h : Run w) : Good w := by
  induction h with
  | start hclosed hroot => exact ⟨⟨hclosed, hroot, nofun⟩, fun _ => heldIn_none rfl⟩
  | step _ event ih => exact ih.step event

/-- `LOAD_APP_END` installs what was acknowledged, or leaves the bundles in place. -/
theorem Good.right_end {w : World} (h : Good w) (hsound : Sound ⟨.loadAppEnd, f⟩ w) :
    Right ⟨.loadAppEnd, f⟩ w := by
  have hkeep {response : Response} {s' : State} (hne : response ≠ .ack)
      (heq : loadAppEnd f w.state = (response, s')) (hpreserved : Preserved w.state s') :
      Right ⟨.loadAppEnd, f⟩ w := by
    unfold Right
    dsimp only [dispatch]
    rw [heq]
    cases response with
    | ack => exact (hne rfl).elim
    | err => exact hpreserved
    | locked => exact hpreserved
  rcases loadAppEnd_cases (f := f) (s := w.state) with ⟨response, hne, heq⟩ | heq |
    ⟨session, hupload, hidle, hunlocked, heq⟩
  · exact hkeep hne heq (abortLoadAppSession_staging h.shaped).preserved
  · exact hkeep (by decide) heq (Staging.refl _).preserved
  · obtain ⟨hcalm, hinstalled⟩ := hsound session hupload hidle hunlocked
    have happ := h.shaped.session session hupload
    by_cases hack : (replaceApp f session w.state.tree).1 = .ack
    · obtain ⟨hcomplete, hnodes⟩ := replaceApp_ack h.shaped hupload hack
      rw [← happ.stagingDir] at hcomplete
      have hready := h.held (hcalm hcomplete) session hupload
      rw [Held, hidle] at hready
      unfold Right
      dsimp only [dispatch]
      rw [heq, hack]
      refine ⟨session, hupload, fun rel => ?_, hready.complete⟩
      rw [← hready.staged _ (List.prefix_append _ rel), happ.appDir, happ.stagingDir]
      unfold Tree.file?
      rw [hnodes rel]
    · refine hkeep hack heq ?_
      cases hthere : (w.state.tree.node session.appDir).isSome with
      | false =>
        rw [happ.appDir] at hthere
        exact (replaceApp_replaced f _ happ).preserved hthere
      | true =>
        rcases hinstalled hthere with ⟨hremove, hrename, hrefresh, hstaged⟩ | ⟨kept, hremove, hkept⟩
        · exact (hack (replaceApp_complete h.shaped hupload hremove hrename hrefresh hthere
            hstaged)).elim
        · rw [replaceApp_kept h.shaped.closed hremove hkept]
          exact fun _ _ _ _ => rfl

/-- In every run, a command that is sound is handled as it should be. -/
theorem Run.uploads_right {w : World} (h : Run w) (event : Event) (hsound : Sound event w) :
    Right event w := by
  have hshaped := h.good.shaped
  obtain ⟨command, f⟩ := event
  cases command with
  | loadAppBegin appId =>
    exact ⟨(loadAppBegin_handled hshaped).staging.node,
      fun hunlocked hmode hfault => loadAppBegin_restarted hshaped hunlocked hmode hfault⟩
  | loadAppFileBegin filename size => exact (loadAppFileBegin_handled hshaped).staging.node
  | loadAppChunk data => exact (loadAppChunk_handled hshaped).staging.node
  | loadAppEnd => exact h.good.right_end hsound

end

/-! ## 6. A bundle of one file -/

/-- A device with one bundle, of one file. -/
def oneBundle : Tree where
  node p :=
    if p <+: bundleDir (.replicate 16 0) then some .dir
    else if p = bundleDir (.replicate 16 0) ++ ["OLD".toList] then some (.file [1])
    else none
  short _ _ := none

theorem oneBundle_closed : oneBundle.Closed := by
  intro d n h
  have hpre : d <+: bundleDir (.replicate 16 0) := by
    unfold oneBundle at h
    dsimp only at h
    split at h
    next hpre => exact (List.prefix_append d [n]).trans hpre
    next =>
      split at h
      next heq => exact List.append_inj_left' heq rfl ▸ List.prefix_refl _
      next => cases h
  exact if_pos hpre

def noFaults : Faults where
  lockState := .unlocked
  developerMode := true
  abortTemp := none
  abortStaging := none
  removeStaging := none
  parents := none
  dirShorts _ := none
  tempShort := none
  finalShort := none
  removeTemp := none
  openFile := none
  write := none
  flush := false
  removeFinal := none
  rename := none
  removeApp := none
  renameApp := none
  refresh := false

def began : World :=
  World.step ⟨⟨none, oneBundle⟩, [], True⟩ ⟨.loadAppBegin (.replicate 16 0), noFaults⟩

def uploaded : World :=
  (began.step ⟨.loadAppFileBegin "NEW".toList 2, noFaults⟩).step ⟨.loadAppChunk [2, 3], noFaults⟩

theorem began_run : Run began := (Run.start oneBundle_closed (by decide +kernel)).step _

theorem began_calm : began.calm := by
  have hack : (dispatch ⟨.loadAppBegin (.replicate 16 0), noFaults⟩ ⟨none, oneBundle⟩).1 = .ack := by
    decide +kernel
  unfold began World.step
  dsimp only
  rw [hack]
  trivial

theorem began_log : began.log = [] := by
  unfold began World.step Log.next
  dsimp only
  split <;> first | rfl | contradiction

/-- A session of the device, with this file open. -/
def sessionWith (file : Option UploadFile) : UploadSession where
  appId := .replicate 16 0
  appDir := bundleDir (.replicate 16 0)
  stagingDir := stagingDir (.replicate 16 0)
  currentFile := file

theorem uploaded_calm : uploaded.calm := by
  refine ⟨⟨began_calm, ?_⟩, ?_⟩
  · intro _ session hsession _
    have hshort (d : Path) (n : Name) : began.state.tree.short d n = none := rfl
    refine ⟨⟨?_, ?_, fun k hk => ?_, nofun⟩, nofun, nofun⟩
    · rw [began_log]
      nofun
    · rw [began_log]
      nofun
    · rcases hk with rfl | hk
      · exact name_ne_part _
      · rw [hshort] at hk
        cases hk
  · intro session file hsession hfile _
    have hstate : (began.step ⟨.loadAppFileBegin "NEW".toList 2, noFaults⟩).state.upload =
        some (sessionWith (some {
          finalPath := stagingDir (.replicate 16 0) ++ ["NEW".toList]
          tempPath := stagingDir (.replicate 16 0) ++ ["NEW.PART".toList]
          file := stagingDir (.replicate 16 0) ++ ["NEW.PART".toList]
          offset := 0
          expectedSize := 2
          written := 0 })) := by decide +kernel
    obtain rfl := Option.some.inj (hsession.symm.trans hstate)
    obtain rfl := Option.some.inj hfile
    decide +kernel

theorem uploaded_sound : Sound ⟨.loadAppEnd, noFaults⟩ uploaded := by
  intro session hsession _ _
  have hstate : uploaded.state.upload = some (sessionWith none) := by decide +kernel
  obtain rfl := Option.some.inj (hsession.symm.trans hstate)
  exact ⟨fun _ => uploaded_calm, fun _ => .inl ⟨rfl, rfl, rfl, by decide +kernel⟩⟩

theorem uploaded_run : Run uploaded := by
  unfold uploaded
  exact .step (.step began_run _) _

theorem Run.uploads_right_uploaded : Right ⟨.loadAppEnd, noFaults⟩ uploaded :=
  Run.uploads_right uploaded_run ⟨.loadAppEnd, noFaults⟩ uploaded_sound

/-- The bundle is lost to a session without a file. -/
theorem bundle_lost_without_file : ¬ ∀ w event, Run w → Right event w := by
  intro hright
  have hend := hright began ⟨.loadAppEnd, noFaults⟩ began_run
  unfold Right at hend
  have herr : (dispatch ⟨.loadAppEnd, noFaults⟩ began.state).1 = .err := by decide +kernel
  dsimp only at hend
  rw [herr] at hend
  have hkept := hend (.replicate 16 0) (by decide +kernel) (bundleDir (.replicate 16 0)) (List.prefix_refl _)
  have hgone : (dispatch ⟨.loadAppEnd, noFaults⟩ began.state).2.tree.node
      (bundleDir (.replicate 16 0)) ≠ began.state.tree.node (bundleDir (.replicate 16 0)) := by
    decide +kernel
  exact hgone hkept

end UsbDebug
