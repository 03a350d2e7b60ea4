import KeyOS.UsbDebug.Upload

/-!
# Staging directories

Before `LOAD_APP_END` a command changes entries in the staging directories only, whatever fails.
A session works in the directories of its app.
-/

namespace UsbDebug

open FatTree

/-! ## 1. Names -/

def bundleDir (appId : AppId) : Path := SIDELOADED_APPS_DIR ++ [appIdDirName appId]

def stagingDir (appId : AppId) : Path := SIDELOADED_APPS_DIR ++ [appIdDirName appId ++ part]

theorem hexDigit_plain (n : Nat) : hexDigit n ≠ '~' := by
  unfold hexDigit
  rw [List.getD_eq_getElem?_getD]
  cases h : "0123456789ABCDEF".toList[n]? with
  | none => decide
  | some c =>
    have hmem := List.mem_of_getElem? h
    rintro rfl
    revert hmem
    decide

theorem appIdDirName_plain (appId : AppId) : '~' ∉ appIdDirName appId := by
  intro h
  obtain ⟨byte, -, hbyte⟩ := List.mem_flatMap.1 h
  rcases List.mem_cons.1 hbyte with h | h
  · exact hexDigit_plain _ h.symm
  · exact hexDigit_plain _ (List.mem_singleton.1 h).symm

theorem length_appIdDirName (appId : AppId) : (appIdDirName appId).length = 32 := by
  unfold appIdDirName
  rw [List.length_flatMap]
  simp

theorem bundleDir_ne_stagingDir (appId appId' : AppId) : bundleDir appId ≠ stagingDir appId' := by
  intro h
  have hname := congrArg List.length (List.singleton_inj.1 (List.append_cancel_left h))
  rw [List.length_append, length_appIdDirName, length_appIdDirName] at hname
  exact absurd hname (by decide)

theorem sideloadedAppsDir_plain : ∀ n ∈ SIDELOADED_APPS_DIR, '~' ∉ n := by
  decide

theorem stagingDir_plain (appId : AppId) : ∀ n ∈ stagingDir appId, '~' ∉ n := by
  intro n hn
  rcases List.mem_append.1 hn with hroot | hlast
  · exact sideloadedAppsDir_plain n hroot
  · rw [List.mem_singleton.1 hlast, List.mem_append]
    rintro (h | h)
    · exact appIdDirName_plain appId h
    · revert h
      decide

theorem bundleDir_plain (appId : AppId) : ∀ n ∈ bundleDir appId, '~' ∉ n := by
  intro n hn
  rcases List.mem_append.1 hn with hroot | hlast
  · exact sideloadedAppsDir_plain n hroot
  · rw [List.mem_singleton.1 hlast]
    exact appIdDirName_plain appId

theorem prefix_resolve_staging (tree : Tree) (appId : AppId) (raw : Path) :
    stagingDir appId <+: tree.resolve (stagingDir appId ++ raw) := by
  rw [Tree.resolve_append, Tree.resolve_plain (stagingDir_plain appId)]
  exact Tree.prefix_resolveFrom _ raw

theorem withPart_concat (raw : Path) (n : Name) : withPart (raw ++ [n]) = raw ++ [n ++ part] := by
  unfold withPart
  rw [List.dropLast_concat, List.getLastD_concat]

theorem components_ne_nil (filename : List Char) : components filename ≠ [] :=
  List.splitOn_ne_nil _ _

theorem components_eq_concat (filename : List Char) :
    ∃ raw n, components filename = raw ++ [n] :=
  ⟨_, _, (List.dropLast_append_getLast (components_ne_nil filename)).symm⟩

/-! ## 2. Nothing else changes -/

/-- Closed trees stay closed, and entries outside `S` as they are. -/
structure Stays (S : Path) (t t' : Tree) : Prop where
  closed : t.Closed → t'.Closed
  node : ∀ q, ¬ S <+: q → t'.node q = t.node q

theorem Stays.refl (S : Path) (t : Tree) : Stays S t t := ⟨id, fun _ _ => rfl⟩

section

variable {S raw : Path} {t t' t'' : Tree}

theorem Stays.trans (h : Stays S t t') (h' : Stays S t' t'') : Stays S t t'' :=
  ⟨fun hc => h'.closed (h.closed hc), fun q hq => (h'.node q hq).trans (h.node q hq)⟩

theorem remove_stays (fault : Option (Path → Bool)) (hpre : S <+: t.resolve raw) :
    Stays S t (t.remove fault raw).2 :=
  ⟨Tree.remove_closed, fun _ hq => Tree.remove_outside fun h => hq (hpre.trans h)⟩

theorem create_stays (short : Option Name) (hpre : S <+: t.resolve raw) :
    Stays S t (t.create short raw).2 := by
  refine ⟨Tree.create_closed short, fun q hq => ?_⟩
  rcases Tree.create_eq_or short t raw with heq | ⟨-, -, -, heq⟩
  · rw [heq]
  · rw [heq]
    exact Tree.put_of_ne _ _ fun h => hq (h ▸ hpre)

theorem openFile_stays (fault : Option Bool) (short : Option Name)
    (hpre : S <+: t.resolve raw) :
    Stays S t (t.openFile fault short raw).2 := by
  rcases Tree.openFile_eq_or short t fault raw with h | h
  · rw [h]
    exact .refl S t
  · rw [h]
    exact create_stays short hpre

theorem writeAll_stays (fault : Option Nat) {p : Path} (offset : Nat) (payload : Bytes)
    (hpre : S <+: p) : Stays S t (t.writeAll fault p offset payload).2.1 := by
  rcases Tree.writeAll_eq_or t fault p offset payload with h | ⟨data, data', hnode, h⟩
  · rw [h]
    exact .refl S t
  · rw [h]
    exact ⟨fun hc => Tree.put_file_closed hc hnode,
      fun q hq => Tree.put_of_ne _ _ fun heq => hq (heq ▸ hpre)⟩

/-- An entry that is renamed stays at its depth. -/
theorem rename_stays (fault : Option Bool) (short : Option Name) {src dst : Path}
    (hlength : src.length = dst.length) (hsrc : S <+: t.resolve src) (hdst : S <+: t.resolve dst) :
    Stays S t (t.rename fault short src dst).2 := by
  suffices hmove : Stays S t (t.moveTo short src dst).2 by
    rcases Tree.rename_eq_or short t fault src dst with h | h
    · rw [h]
      exact .refl S t
    · rw [h]
      exact hmove
  rcases Tree.moveTo_eq_or short t src dst with h | ⟨-, -, hdir, hne, h⟩
  · rw [h]
    exact .refl S t
  · rw [h]
    refine ⟨fun hc => Tree.move_closed hc short hne hdir fun hpre => ?_, fun q hq =>
      Tree.move_of_neither short (fun h => hq (hdst.trans h)) fun h => hq (hsrc.trans h)⟩
    have hle := hpre.length_le
    have hpos := List.length_pos_iff.2 hne
    rw [List.length_dropLast] at hle
    unfold Tree.resolve at hle hpos
    rw [Tree.length_resolveFrom, Tree.length_resolveFrom] at hle
    rw [Tree.length_resolveFrom] at hpos
    omega

theorem ensureParentDirExists_stays {fault : Option Nat} {shorts : Path → Option Name}
    (hc : t.Closed) (hne : S ≠ []) (hroot : t.node S.dropLast = some .dir)
    (hpre : S <+: t.resolve raw) : Stays S t (t.ensureParentDirExists fault shorts raw).2 := by
  have htop : t.node [] = some .dir := by
    rcases eq_or_ne S.dropLast [] with h | h
    · rwa [h] at hroot
    · exact hc.dir_above List.nil_prefix h.symm (by rw [hroot]; rfl)
  obtain ⟨hprepared, -⟩ := Tree.ensureParentDirExists_spec shorts fault raw hc htop
  refine ⟨fun _ => hprepared.closed, fun q hq => ?_⟩
  rcases hprepared.node q with hsame | ⟨hnone, -, hway⟩
  · exact hsame
  · -- what is missing on the way to `S` is `S`
    have hqS : q <+: S :=
      (List.prefix_or_prefix_of_prefix (hway.trans (List.dropLast_prefix _)) hpre).resolve_right hq
    have hup : q <+: S.dropLast := by
      refine List.prefix_of_prefix_length_le hqS (List.dropLast_prefix S) ?_
      rw [List.length_dropLast]
      by_contra hlt
      have hle := hqS.length_le
      have hpos := List.length_pos_iff.2 hne
      exact hq ((hqS.eq_of_length (by omega)).symm ▸ List.prefix_refl q)
    rcases eq_or_ne q S.dropLast with heq | hne'
    · rw [heq, hroot] at hnone
      cases hnone
    · rw [hc.dir_above hup hne' (by rw [hroot]; rfl)] at hnone
      cases hnone

end

section

variable {f : Faults} {appId : AppId} {raw : Path} {n : Name} {tree tree' : Tree} {s s' : State}
  {session : UploadSession} {file : UploadFile}

theorem openTemp_stays (f : Faults) (appId : AppId) (raw : Path) (hc : tree.Closed) (hroot : tree.node SIDELOADED_APPS_DIR = some .dir) :
    Stays (stagingDir appId) tree (openTemp f (stagingDir appId ++ raw) tree).2 := by
  have hpre := fun t : Tree => prefix_resolve_staging t appId raw
  have hmake : Stays (stagingDir appId) tree
      (tree.ensureParentDirExists f.parents f.dirShorts (stagingDir appId ++ raw)).2 := by
    refine ensureParentDirExists_stays hc (by simp [stagingDir]) ?_ (hpre tree)
    rwa [stagingDir, List.dropLast_concat]
  unfold openTemp
  split
  next e t heq =>
    rw [heq] at hmake
    exact hmake
  next t heq =>
    rw [heq] at hmake
    have hremove : Stays (stagingDir appId) tree (t.remove f.removeTemp _).2 :=
      hmake.trans (remove_stays _ (hpre t))
    split
    next result t' hresult =>
    rw [hresult] at hremove
    split
    · have hopen : Stays (stagingDir appId) tree (t'.openFile f.openFile f.tempShort _).2 :=
        hremove.trans (openFile_stays _ _ (hpre t'))
      split
      next heq' => rw [heq'] at hopen; exact hopen
      next heq' => rw [heq'] at hopen; exact hopen
    · exact hremove

theorem promote_stays (f : Faults) (appId : AppId) (raw : Path) (m n : Name) (tree : Tree) :
    Stays (stagingDir appId) tree
      (promote f (stagingDir appId ++ (raw ++ [m])) (stagingDir appId ++ (raw ++ [n])) tree).2 := by
  have hpre := fun (t : Tree) (k : Name) => prefix_resolve_staging t appId (raw ++ [k])
  have hrename := (remove_stays f.removeFinal (hpre tree n)).trans
    (rename_stays f.rename f.finalShort (by simp) (hpre _ m) (hpre _ n))
  unfold promote
  dsimp only
  split
  next heq => rw [heq] at hrename; exact hrename
  next heq => rw [heq] at hrename; exact hrename

/-- The file that is open is in the staging directory. -/
theorem prefix_of_openTemp {opened : Path}
    (h : openTemp f (stagingDir appId ++ raw) tree = (some opened, tree')) :
    stagingDir appId <+: opened := by
  have hopen (t : Tree) (fault : Option Bool) (p : Path) {t' : Tree}
      (h : t.openFile fault f.tempShort (stagingDir appId ++ raw) = (.ok p, t')) :
      p = t.resolve (stagingDir appId ++ raw) := by
    unfold Tree.openFile at h
    split at h
    · unfold Tree.create at h
      split at h
      · cases h
      · cases h; rfl
      · split at h
        · cases h; rfl
        · cases h
    · cases h
    · cases h
  unfold openTemp at h
  split at h
  next => cases h
  next =>
    split at h
    next result t' hresult =>
    split at h
    · split at h
      next heq =>
        cases h
        rw [hopen _ _ _ heq]
        exact prefix_resolve_staging _ appId raw
      next => cases h
    · cases h

/-! ## 3. The session -/

/-- A session works in the directories of its app. -/
structure OfApp (session : UploadSession) : Prop where
  appDir : session.appDir = bundleDir session.appId
  stagingDir : session.stagingDir = stagingDir session.appId
  file : ∀ file, session.currentFile = some file → ∃ raw n,
    file.finalPath = UsbDebug.stagingDir session.appId ++ (raw ++ [n]) ∧
      file.tempPath = UsbDebug.stagingDir session.appId ++ (raw ++ [n ++ part]) ∧
      UsbDebug.stagingDir session.appId <+: file.file

structure Shaped (s : State) : Prop where
  closed : s.tree.Closed
  root : s.tree.node SIDELOADED_APPS_DIR = some .dir
  session : ∀ session, s.upload = some session → OfApp session

theorem Shaped.top (h : Shaped s) : s.tree.node [] = some .dir := by
  have hne : ([] : Path) ≠ SIDELOADED_APPS_DIR := by decide
  exact h.closed.dir_above List.nil_prefix hne (by rw [h.root]; rfl)

/-- Closed trees stay closed, and only staging directories change. -/
structure Staging (t t' : Tree) : Prop where
  closed : t.Closed → t'.Closed
  node : ∀ q, (∀ appId, ¬ stagingDir appId <+: q) → t'.node q = t.node q

theorem Staging.refl (t : Tree) : Staging t t := ⟨id, fun _ _ => rfl⟩

theorem Staging.trans {t t' t'' : Tree} (h : Staging t t') (h' : Staging t' t'') : Staging t t'' :=
  ⟨fun hc => h'.closed (h.closed hc), fun q hq => (h'.node q hq).trans (h.node q hq)⟩

theorem Stays.staging (h : Stays (stagingDir appId) tree tree') : Staging tree tree' :=
  ⟨h.closed, fun q hq => h.node q (hq appId)⟩

theorem Staging.root (h : Staging tree tree') :
    tree'.node SIDELOADED_APPS_DIR = tree.node SIDELOADED_APPS_DIR := by
  refine h.node _ fun appId hpre => ?_
  have hle := hpre.length_le
  rw [stagingDir, List.length_append, List.length_singleton] at hle
  omega

theorem Shaped.step (h : Shaped s) (hs : Staging s.tree s'.tree)
    (hsession : ∀ session, s'.upload = some session → OfApp session) : Shaped s' :=
  ⟨hs.closed h.closed, hs.root.trans h.root, hsession⟩

theorem abortLoadAppSession_upload : (abortLoadAppSession f s).upload = none := by
  unfold abortLoadAppSession
  split
  next h => exact h
  next => split <;> rfl

theorem abortLoadAppSession_staging (h : Shaped s) :
    Staging s.tree (abortLoadAppSession f s).tree := by
  unfold abortLoadAppSession
  split
  next => exact .refl _
  next session hsession =>
    have happ := h.session session hsession
    have hdir (t : Tree) :
        Stays (stagingDir session.appId) t (t.remove f.abortStaging session.stagingDir).2 := by
      refine remove_stays _ ?_
      rw [happ.stagingDir, Tree.resolve_plain (stagingDir_plain _)]
    split
    next => exact (hdir _).staging
    next file hfile =>
      obtain ⟨raw, n, -, htemp, -⟩ := happ.file file hfile
      have hfile : Stays (stagingDir session.appId) s.tree
          (s.tree.remove f.abortTemp file.tempPath).2 := by
        refine remove_stays _ ?_
        rw [htemp]
        exact prefix_resolve_staging _ _ _
      exact (hfile.trans (hdir _)).staging

theorem abortLoadAppSession_shaped (h : Shaped s) : Shaped (abortLoadAppSession f s) :=
  h.step (abortLoadAppSession_staging h) fun session hsession => by
    rw [abortLoadAppSession_upload] at hsession
    cases hsession

/-- What a command before `LOAD_APP_END` keeps. -/
structure Handled (s s' : State) : Prop where
  shaped : Shaped s'
  staging : Staging s.tree s'.tree

theorem abortLoadAppSession_handled (h : Shaped s) : Handled s (abortLoadAppSession f s) :=
  ⟨abortLoadAppSession_shaped h, abortLoadAppSession_staging h⟩

theorem Shaped.handled (h : Shaped s) : Handled s s := ⟨h, .refl _⟩

theorem Handled.of_session (h : Shaped s) (hs : Staging s.tree tree')
    (hsession : OfApp session) : Handled s ⟨some session, tree'⟩ :=
  ⟨h.step hs fun other hother => by cases hother; exact hsession, hs⟩

theorem loadAppBegin_handled (h : Shaped s) : Handled s (loadAppBegin f appId s).2 := by
  unfold loadAppBegin
  split
  next => exact abortLoadAppSession_handled h
  next =>
    split
    next => exact h.handled
    next =>
      have habort := abortLoadAppSession_handled (f := f) h
      have hremove : Staging s.tree
          ((abortLoadAppSession f s).tree.remove f.removeStaging (stagingDir appId)).2 := by
        refine habort.staging.trans (remove_stays _ ?_ : Stays (stagingDir appId) _ _).staging
        rw [Tree.resolve_plain (stagingDir_plain _)]
      dsimp only
      split
      next => exact .of_session h hremove ⟨rfl, rfl, nofun⟩
      next =>
        refine ⟨h.step hremove fun session hsession => ?_, hremove⟩
        rw [show ({ abortLoadAppSession f s with tree := _ } : State).upload = none from
          abortLoadAppSession_upload] at hsession
        cases hsession

theorem OfApp.idle (h : OfApp session) : OfApp { session with currentFile := none } :=
  ⟨h.appDir, h.stagingDir, nofun⟩

theorem startUploadFile_handled {size : Nat} {filename : List Char} (h : Shaped s)
    (hsession : OfApp session) :
    Handled s (startUploadFile f (session.stagingDir ++ components filename) size session
      s.tree).2 := by
  obtain ⟨raw, n, hname⟩ := components_eq_concat filename
  have hopen := openTemp_stays f session.appId (raw ++ [n ++ part]) h.closed h.root
  have hpart : withPart (stagingDir session.appId ++ (raw ++ [n])) =
      stagingDir session.appId ++ (raw ++ [n ++ part]) := by
    rw [← List.append_assoc, withPart_concat, List.append_assoc]
  unfold startUploadFile
  rw [hname, hsession.stagingDir, hpart]
  split
  next t heq =>
    rw [heq] at hopen
    exact .of_session h hopen.staging hsession
  next opened t heq =>
    have hfile := prefix_of_openTemp heq
    rw [heq] at hopen
    split
    next =>
      have hpromote := hopen.trans (promote_stays f session.appId raw (n ++ part) n t)
      split
      next response t' heq' =>
      rw [heq'] at hpromote
      exact .of_session h hpromote.staging hsession
    next =>
      refine .of_session h hopen.staging ⟨hsession.appDir, rfl, ?_⟩
      rintro file hfile'
      cases hfile'
      exact ⟨raw, n, rfl, rfl, hfile⟩

theorem loadAppFileBegin_handled {filename : List Char} {size : Nat} (h : Shaped s) :
    Handled s (loadAppFileBegin f filename size s).2 := by
  unfold loadAppFileBegin
  split
  next => exact abortLoadAppSession_handled h
  next =>
    split
    next => exact h.handled
    next =>
      split
      next => exact h.handled
      next session hsession =>
        split
        next => exact h.handled
        next => exact startUploadFile_handled h (h.session session hsession)

theorem finishLoadAppFile_handled (h : Shaped s) (hs : Staging s.tree tree)
    (hsession : OfApp session)
    (hfile : ∃ raw n, file.finalPath = stagingDir session.appId ++ (raw ++ [n]) ∧
      file.tempPath = stagingDir session.appId ++ (raw ++ [n ++ part])) :
    Handled s (finishLoadAppFile f session file tree).2 := by
  obtain ⟨raw, n, hfinal, htemp⟩ := hfile
  unfold finishLoadAppFile
  split
  next => exact .of_session h hs hsession.idle
  next =>
    split
    next => exact .of_session h hs hsession.idle
    next =>
      have hpromote := promote_stays f session.appId raw (n ++ part) n tree
      rw [hfinal, htemp]
      split
      next response t heq =>
      rw [heq] at hpromote
      exact .of_session h (hs.trans hpromote.staging) hsession.idle

theorem loadAppChunk_handled {payload : Bytes} (h : Shaped s) :
    Handled s (loadAppChunk f payload s).2 := by
  unfold loadAppChunk
  split
  next => exact abortLoadAppSession_handled h
  next =>
    split
    next => exact h.handled
    next session hsession =>
      split
      next => exact h.handled
      next file hcurrent =>
        have happ := h.session session hsession
        obtain ⟨raw, n, hfinal, htemp, hpre⟩ := happ.file file hcurrent
        split
        next => exact h.handled
        next =>
          have hwrite := writeAll_stays (t := s.tree) f.write file.offset payload hpre
          have hopen (file' : UploadFile) (hf : file'.finalPath = file.finalPath)
              (ht : file'.tempPath = file.tempPath) (hh : file'.file = file.file) :
              OfApp { session with currentFile := some file' } := by
            refine ⟨happ.appDir, happ.stagingDir, fun other hother => ?_⟩
            cases hother
            exact ⟨raw, n, hf.trans hfinal, ht.trans htemp, by rw [hh]; exact hpre⟩
          split
          next t offset heq =>
            rw [heq] at hwrite
            exact .of_session h hwrite.staging (hopen _ rfl rfl rfl)
          next t offset heq =>
            rw [heq] at hwrite
            dsimp only
            split
            next => exact finishLoadAppFile_handled h hwrite.staging happ ⟨raw, n, hfinal, htemp⟩
            next => exact .of_session h hwrite.staging (hopen _ rfl rfl rfl)

end

end UsbDebug
