import KeyOS.UsbDebug.Staging

/-!
# The files of an upload

The log has the files whose `LOAD_APP_FILE_BEGIN` was acknowledged since the last
`LOAD_APP_BEGIN`, and what was acknowledged of each. `Ready` and `Writing` say that the staging
directory holds just that, with no file open and with one. This lasts as long as no call fails
half way and no two names meet (`Calm`).
-/

namespace UsbDebug

open FatTree

/-! ## 1. The log -/

/-- A file that is announced, and its chunks so far. -/
structure Announced where
  path : Path
  size : Nat
  data : Bytes

/-- The files of a session, newest first. -/
abbrev Log := List Announced

/-- What the newest file at a path holds. -/
def Log.content (log : Log) (q : Path) : Option Bytes :=
  (log.find? fun a => a.path = q).map Announced.data

/-- Where a file with this path is put: its directory is found, its name is its own. -/
def target (tree : Tree) (raw : Path) : Path := tree.resolve raw.dropLast ++ [raw.getLastD []]

/-- The log after a command was answered. -/
def Log.next (log : Log) (command : Command) (response : Response) (after : State) : Log :=
  match command, response, after.upload with
  | .loadAppBegin _, .ack, _ => []
  | .loadAppFileBegin filename size, .ack, some session =>
    ⟨target after.tree (session.stagingDir ++ components filename), size, []⟩ :: log
  | .loadAppChunk data, .ack, _ =>
    match log with
    | [] => []
    | a :: rest => { a with data := a.data ++ data } :: rest
  | _, _, _ => log

/-! ## 2. The conditions -/

/-- The names of an upload find no file but an earlier version, and not each other. -/
structure Apart (tree : Tree) (log : Log) (tempShort : Option Name) (dir : Path) (n : Name) :
    Prop where
  temp : ∀ a ∈ log, ∀ k, tree.Names dir (n ++ part) k → ¬ dir ++ [k] <+: a.path
  final : ∀ a ∈ log, ∀ k, tree.Names dir n k → dir ++ [k] <+: a.path → a.path = dir ++ [n]
  each : ∀ k, tree.Names dir n k → k ≠ n ++ part
  short : tempShort ≠ some n

/-- No call of the command fails half way, and its names do not meet others. -/
def Calm (event : Event) (s : State) (log : Log) : Prop :=
  match event.command with
  | .loadAppFileBegin filename size =>
    isValidUploadRelativePath filename = true → ∀ session, s.upload = some session →
      session.currentFile = none →
      let final := session.stagingDir ++ components filename
      Apart s.tree log event.faults.tempShort (s.tree.resolve final.dropLast)
          (final.getLastD []) ∧
        event.faults.openFile ≠ some true ∧
        (size = 0 → ∀ file tree, openTemp event.faults (withPart final) s.tree = (some file, tree) →
          (promote event.faults (withPart final) final tree).1 = .ack)
  | .loadAppChunk data =>
    ∀ session file, s.upload = some session → session.currentFile = some file →
      min (file.written + data.length) U64_MAX ≤ file.expectedSize →
      let written := s.tree.writeAll event.faults.write file.file file.offset data
      (written.1 ≠ .ok () → written.2.2 = file.offset) ∧
        (written.1 = .ok () → min (file.written + data.length) U64_MAX = file.expectedSize →
          event.faults.flush = false ∧
            (promote event.faults file.tempPath file.finalPath written.2.1).1 = .ack)
  | _ => True

section

variable {f : Faults} {appId : AppId} {raw : Path} {n : Name} {tree tree' : Tree} {s s' : State}
  {session : UploadSession} {file : UploadFile}

/-! ## 3. Files that are uploaded -/

/-- No file is open, and the staging directory has the files of the log. -/
structure Ready (S : Path) (log : Log) (t : Tree) : Prop where
  staged : ∀ q, S <+: q → t.file? q = log.content q
  complete : ∀ a ∈ log, a.data.length = a.size

/-- The file with the name `n` of `dir` has its temporary name so far. -/
structure Temp (S dir : Path) (n : Name) (data : Bytes) (rest : Log) (t : Tree) : Prop where
  holds : t.file? (dir ++ [n ++ part]) = some data
  staged : ∀ q, S <+: q → q ≠ dir ++ [n ++ part] → t.file? q = rest.content q
  complete : ∀ a ∈ rest, a.data.length = a.size
  new : rest.content (dir ++ [n ++ part]) = none
  apart : ∀ k, t.Names dir n k → k ≠ n ++ part ∧
    ∀ a ∈ rest, dir ++ [k] <+: a.path → a.path = dir ++ [n]

/-- A file is open, and holds what was acknowledged of it. -/
structure Writing (S : Path) (file : UploadFile) (log : Log) (t : Tree) (raw : Path) (n : Name)
    (data : Bytes) (rest : Log) : Prop where
  log : log = ⟨t.resolve raw ++ [n], file.expectedSize, data⟩ :: rest
  temp : Temp S (t.resolve raw) n data rest t
  finalPath : file.finalPath = raw ++ [n]
  tempPath : file.tempPath = raw ++ [n ++ part]
  handle : file.file = t.resolve raw ++ [n ++ part]
  offset : file.offset = data.length
  written : file.written = data.length
  short : data.length < file.expectedSize

theorem content_eq_none {log : Log} {q : Path} (h : ∀ a ∈ log, a.path ≠ q) :
    log.content q = none := by
  unfold Log.content
  rw [List.find?_eq_none.2 fun a ha => by simpa using h a ha]
  rfl

theorem content_cons (a : Announced) (log : Log) (q : Path) :
    Log.content (a :: log) q = if a.path = q then some a.data else log.content q := by
  unfold Log.content
  rw [List.find?_cons]
  by_cases h : a.path = q
  · simp [h]
  · simp [h]

theorem name_ne_part (n : Name) : n ≠ n ++ part := by
  intro h
  have hlength := congrArg List.length h
  rw [List.length_append] at hlength
  exact absurd hlength (by rw [show part.length = 5 from rfl]; omega)

/-- The entries of a file are in no directory below it. -/
theorem file?_below_file {t : Tree} (hc : t.Closed) {p q : Path} {data : Bytes}
    (hp : t.file? p = some data) (hpre : p <+: q) (hne : q ≠ p) : t.node q = none := by
  by_contra hq
  have hdir := hc.dir_above hpre hne.symm (Option.ne_none_iff_isSome.1 hq)
  rw [Tree.file?, hdir] at hp
  cases hp

theorem file?_of_node_none {t : Tree} {q : Path} (h : t.node q = none) : t.file? q = none := by
  rw [Tree.file?, h]

theorem promote_ack {tempPath finalPath : Path} {t : Tree}
    (h : (promote f tempPath finalPath t).1 = .ack) :
    (promote f tempPath finalPath t).2 =
        ((t.remove f.removeFinal finalPath).2.rename f.rename f.finalShort tempPath finalPath).2 ∧
      ((t.remove f.removeFinal finalPath).2.rename f.rename f.finalShort tempPath finalPath).1 =
        .ok () := by
  unfold promote at h ⊢
  dsimp only at h ⊢
  revert h
  rcases (t.remove f.removeFinal finalPath).2.rename f.rename f.finalShort tempPath finalPath
    with ⟨r, t'⟩
  cases r with
  | ok => exact fun _ => ⟨rfl, rfl⟩
  | error => exact nofun

theorem eq_of_prefix_concat {dir : Path} {n m : Name} (h : dir ++ [n] <+: dir ++ [m]) : n = m := by
  have heq := h.eq_of_length (by simp)
  exact List.singleton_inj.1 (List.append_cancel_left heq)

/-- The temporary file takes the place of its name, and no other file is touched. -/
theorem promote_ready {S dir raw : Path} {data : Bytes} {rest : Log} {size : Nat}
    {t : Tree} (hc : t.Closed) (hdir : t.resolve raw = dir) (htemp : Temp S dir n data rest t)
    (hsize : data.length = size)
    (hack : (promote f (raw ++ [n ++ part]) (raw ++ [n]) t).1 = .ack) :
    Ready S (⟨dir ++ [n], size, data⟩ :: rest) (promote f (raw ++ [n ++ part]) (raw ++ [n]) t).2 ∧
      Tree.Below dir t (promote f (raw ++ [n ++ part]) (raw ++ [n]) t).2 := by
  obtain ⟨htree, hok⟩ := promote_ack hack
  rw [htree]
  -- what the removal of the final name finds
  have hfinal : t.resolve (raw ++ [n]) = dir ++ [t.entry dir n] := by
    rw [Tree.resolve_concat, hdir]
  have hnames := htemp.apart _ (t.entry_names dir n)
  have hbelow : Tree.Below dir t (t.remove f.removeFinal (raw ++ [n])).2 := by
    have := Tree.remove_below (t := t) f.removeFinal
      (by rw [hfinal]; simp)
    rwa [hfinal, List.dropLast_concat] at this
  have hkept : ∀ q, ¬ dir ++ [t.entry dir n] <+: q →
      (t.remove f.removeFinal (raw ++ [n])).2.node q = t.node q := fun q hq =>
    Tree.remove_outside (by rwa [hfinal])
  have hfiles : ∀ q, S <+: q → q ≠ dir ++ [n ++ part] → ¬ dir ++ [n] <+: q →
      (t.remove f.removeFinal (raw ++ [n])).2.file? q = rest.content q := by
    intro q hS hq hnq
    by_cases hpre : dir ++ [t.entry dir n] <+: q
    · -- only an earlier version of the file is in the way
      have hnone : rest.content q = none := content_eq_none fun a ha hpath =>
        hnq (by rw [← hpath, hnames.2 a ha (hpath ▸ hpre)])
      rcases Tree.remove_file? t f.removeFinal (raw ++ [n]) q with h | h
      · rw [h, hnone]
      · rw [h, htemp.staged q hS hq]
    · rw [Tree.file?, hkept q hpre, ← Tree.file?, htemp.staged q hS hq]
  have hplace : (t.remove f.removeFinal (raw ++ [n])).2.node (dir ++ [n ++ part]) =
      t.node (dir ++ [n ++ part]) := hkept _ fun h => hnames.1 (eq_of_prefix_concat h)
  have hshort : (t.remove f.removeFinal (raw ++ [n])).2.short = t.short := Tree.remove_short
  have hclosed : (t.remove f.removeFinal (raw ++ [n])).2.Closed := Tree.remove_closed hc
  have hdir₁ : (t.remove f.removeFinal (raw ++ [n])).2.resolve raw = dir := by
    rw [Tree.Below.resolve (by rwa [hdir]), hdir]
  generalize (t.remove f.removeFinal (raw ++ [n])).2 = t₁ at *
  have hholds : t₁.file? (dir ++ [n ++ part]) = some data := by
    rw [Tree.file?, hplace, ← Tree.file?, htemp.holds]
  have hsome : (t₁.node (dir ++ [n ++ part])).isSome := by
    rw [Tree.file?] at hholds
    split at hholds
    next h => rw [h]; rfl
    next => cases hholds
  have hsrc : t₁.resolve (raw ++ [n ++ part]) = dir ++ [n ++ part] := by
    rw [Tree.resolve_concat, hdir₁, Tree.entry_of_some hsome]
  have hdst : t₁.resolve (raw ++ [n]) = dir ++ [t₁.entry dir n] := by
    rw [Tree.resolve_concat, hdir₁]
  rcases Tree.rename_ok _ hok with ⟨heq, -⟩ | ⟨hfree, -, -, hmove⟩
  · rw [hsrc, hdst] at heq
    have hsame := List.singleton_inj.1 (List.append_cancel_left heq)
    have hname := t₁.entry_names dir n
    rw [Tree.Names, hshort] at hname
    exact ((htemp.apart _ hname).1 hsame.symm).elim
  · rw [hdst] at hfree
    have hentry := Tree.entry_of_none hfree
    rw [hentry] at hfree hdst
    rw [hmove, hsrc, hdst]
    have hne : ¬ dir ++ [n] <+: dir ++ [n ++ part] := fun h =>
      name_ne_part n (eq_of_prefix_concat h)
    refine ⟨⟨fun q hS => ?_, ?_⟩, ?_⟩
    · rw [content_cons]
      show Tree.file? _ q = if dir ++ [n] = q then some data else rest.content q
      by_cases hq : dir ++ [n] <+: q
      · rcases eq_or_ne (dir ++ [n]) q with rfl | hqne
        · rw [if_pos rfl, Tree.file?, Tree.move_self, ← Tree.file?, hholds]
        · -- the file that moves has nothing below it
          rw [if_neg hqne, content_eq_none]
          · refine file?_of_node_none ?_
            rw [Tree.move_inside _ q hq]
            refine file?_below_file hclosed hholds (List.prefix_append _ _) fun heq => ?_
            have hdrop := List.append_right_eq_self.1 heq
            have hle := List.drop_eq_nil_iff.1 hdrop
            exact hqne (hq.eq_of_length_le hle)
          · intro a ha hpath
            exact hqne ((htemp.apart n (.inl rfl)).2 a ha (hpath ▸ hq) ▸ hpath)
      · rw [if_neg fun heq : dir ++ [n] = q => hq (heq ▸ List.prefix_refl q)]
        by_cases hp : dir ++ [n ++ part] <+: q
        · rw [file?_of_node_none (Tree.move_of_source _ hq hp)]
          rcases eq_or_ne q (dir ++ [n ++ part]) with rfl | hqne
          · exact htemp.new.symm
          · rw [← hfiles q hS hqne hq]
            exact (file?_of_node_none (file?_below_file hclosed hholds hp hqne)).symm
        · rw [Tree.file?, Tree.move_of_neither _ hq hp, ← Tree.file?]
          exact hfiles q hS (fun heq => hp (heq ▸ List.prefix_refl _)) hq
    · intro a ha
      rcases List.mem_cons.1 ha with rfl | ha
      · exact hsize
      · exact htemp.complete a ha
    · have hmoved := Tree.move_below f.finalShort (t := t₁) (p := dir ++ [n ++ part])
        (q := dir ++ [n]) (by simp) (by simp) (by simp)
      rw [List.dropLast_concat] at hmoved
      exact hbelow.trans hmoved

/-- The temporary file is open, or no file has changed. -/
def Opened (S raw dir : Path) (n : Name) (log : Log) (result : Option Path) (t : Tree) : Prop :=
  match result with
  | none => Ready S log t
  | some opened => opened = dir ++ [n ++ part] ∧ t.resolve raw = dir ∧ Temp S dir n [] log t

/-- What a temporary name finds is not announced. -/
theorem Apart.temp_unannounced {log : Log} {dir q : Path} {t t' : Tree}
    (h : Apart t log f.tempShort dir n) (hshort : t'.short dir = t.short dir)
    (hpre : dir ++ [t'.entry dir (n ++ part)] <+: q) : log.content q = none := by
  refine content_eq_none fun a ha hpath => ?_
  have hname := t'.entry_names dir (n ++ part)
  rw [Tree.Names, hshort] at hname
  exact h.temp a ha _ hname (hpath ▸ hpre)

theorem create_opened {S raw dir opened : Path} {log : Log} {t t' t'' : Tree}
    (hready : Ready S log t') (hpre : S <+: dir) (hdir : t'.resolve raw = dir)
    (hshort : t'.short dir = t.short dir) (hapart : Apart t log f.tempShort dir n)
    (h : t'.create f.tempShort (raw ++ [n ++ part]) = (.ok opened, t'')) :
    Opened S raw dir n log (some opened) t'' := by
  have hraw : t'.resolve (raw ++ [n ++ part]) = dir ++ [t'.entry dir (n ++ part)] := by
    rw [Tree.resolve_concat, hdir]
  unfold Tree.create at h
  split at h
  next => cases h
  next data hnode =>
    -- it would be a file of the log
    have hfile : t'.file? (t'.resolve (raw ++ [n ++ part])) = some data := by
      rw [Tree.file?, hnode]
    rw [hraw, hready.staged _ (hpre.trans (List.prefix_append _ _)),
      hapart.temp_unannounced hshort (List.prefix_refl _)] at hfile
    cases hfile
  next hnone =>
    split at h
    next =>
      cases h
      rw [hraw] at hnone
      have hentry := Tree.entry_of_none hnone
      rw [hentry] at hraw hnone
      have hput := Tree.put_below f.tempShort (t := t') (p := dir ++ [n ++ part]) (.file [])
        (by simp)
      rw [List.dropLast_concat] at hput
      rw [hraw]
      refine ⟨rfl, ?_, ?_, fun q hS hq => ?_, hready.complete, ?_, fun k hk => ?_⟩
      · rw [← hdir] at hput ⊢
        exact hput.resolve
      · rw [Tree.file?, Tree.put_self]
      · rw [Tree.file?, Tree.put_of_ne _ _ hq, ← Tree.file?, hready.staged q hS]
      · exact content_eq_none fun a ha hpath =>
          hapart.temp a ha (n ++ part) (.inl rfl) (hpath ▸ List.prefix_refl _)
      · have hk : t.Names dir n k := by
          rcases hk with rfl | hk
          · exact .inl rfl
          · rw [Tree.put_short _ hapart.short, hshort] at hk
            exact .inr hk
        exact ⟨hapart.each k hk, fun a ha => hapart.final a ha k hk⟩
    next => cases h

theorem openFile_opened {S raw dir : Path} {log : Log} {t t' t'' : Tree}
    {result : Except Error Path} (hready : Ready S log t') (hpre : S <+: dir)
    (hdir : t'.resolve raw = dir) (hshort : t'.short dir = t.short dir)
    (hapart : Apart t log f.tempShort dir n) (hfault : f.openFile ≠ some true)
    (h : t'.openFile f.openFile f.tempShort (raw ++ [n ++ part]) = (result, t'')) :
    Opened S raw dir n log result.toOption t'' := by
  unfold Tree.openFile at h
  split at h
  next =>
    cases result with
    | ok opened => exact create_opened hready hpre hdir hshort hapart h
    | error e =>
      rcases Tree.create_eq_or f.tempShort t' (raw ++ [n ++ part])
        with heq | ⟨-, -, -, heq⟩
      · rw [h] at heq
        obtain rfl : t'' = t' := heq
        exact hready
      · rw [h] at heq
        cases heq
  next htrue => exact (hfault htrue).elim
  next =>
    cases h
    exact hready

/-- Opening a temporary file adds it, or changes no file. -/
theorem openTemp_opened {S raw : Path} {log : Log} {t t' : Tree} {result : Option Path}
    (hc : t.Closed) (htop : t.node [] = some .dir) (hready : Ready S log t)
    (hpre : S <+: t.resolve raw) (hapart : Apart t log f.tempShort (t.resolve raw) n)
    (hfault : f.openFile ≠ some true)
    (h : openTemp f (raw ++ [n ++ part]) t = (result, t')) :
    Opened S raw (t.resolve raw) n log result t' := by
  have hraw : t.resolve (raw ++ [n ++ part]) = _ := Tree.resolve_concat raw (n ++ part)
  obtain ⟨hprepared, -⟩ := Tree.ensureParentDirExists_spec f.dirShorts f.parents
    (raw ++ [n ++ part]) hc htop
  unfold openTemp at h
  split at h
  next e t₁ heq =>
    rw [heq] at hprepared
    cases h
    exact ⟨fun q hS => by rw [hprepared.file?, hready.staged q hS], hready.complete⟩
  next t₁ heq =>
    rw [heq] at hprepared
    have hdir : t₁.resolve raw = t.resolve raw := by
      have hsame := hprepared.resolve
      rw [Tree.resolve_concat, Tree.resolve_concat] at hsame
      exact List.append_inj_left' hsame rfl
    have hshort := hprepared.short
    rw [hraw, List.dropLast_concat] at hshort
    have hraw₁ : t₁.resolve (raw ++ [n ++ part]) =
        t.resolve raw ++ [t₁.entry (t.resolve raw) (n ++ part)] := by
      rw [Tree.resolve_concat, hdir]
    have hready₂ : Ready S log (t₁.remove f.removeTemp (raw ++ [n ++ part])).2 := by
      refine ⟨fun q hS => ?_, hready.complete⟩
      have hsame : t₁.file? q = log.content q := by rw [hprepared.file?, hready.staged q hS]
      by_cases hq : t₁.resolve (raw ++ [n ++ part]) <+: q
      · have hnone := hapart.temp_unannounced hshort (hraw₁ ▸ hq)
        rcases Tree.remove_file? t₁ f.removeTemp (raw ++ [n ++ part]) q
          with h | h
        · rw [h, hnone]
        · rw [h, hsame]
      · rw [Tree.file?, Tree.remove_outside hq, ← Tree.file?, hsame]
    have hbelow : Tree.Below (t.resolve raw) t₁ (t₁.remove f.removeTemp (raw ++ [n ++ part])).2 := by
      have := Tree.remove_below (t := t₁) f.removeTemp
        (by rw [hraw₁]; simp)
      rwa [hraw₁, List.dropLast_concat] at this
    have hshort₂ : (t₁.remove f.removeTemp (raw ++ [n ++ part])).2.short (t.resolve raw) =
        t.short (t.resolve raw) := by rw [Tree.remove_short, hshort]
    split at h
    next result₂ t₂ heq₂ =>
    rw [heq₂] at hready₂ hbelow hshort₂
    have hdir₂ : t₂.resolve raw = t.resolve raw := by
      rw [← hdir] at hbelow
      rw [hbelow.resolve, hdir]
    split at h
    · split at h
      next opened t₃ heq₃ =>
        cases h
        exact openFile_opened hready₂ hpre hdir₂ hshort₂ hapart hfault heq₃
      next e t₃ heq₃ =>
        cases h
        exact openFile_opened hready₂ hpre hdir₂ hshort₂ hapart hfault heq₃
    · cases h
      exact hready₂

/-! ## 4. What the log and the staging directory keep -/

/-- The staging directory of a session has what its log says. -/
def Held (session : UploadSession) (log : Log) (t : Tree) : Prop :=
  match session.currentFile with
  | none => Ready session.stagingDir log t
  | some file => ∃ raw n data rest, session.stagingDir <+: t.resolve raw ∧
      Writing session.stagingDir file log t raw n data rest

/-- The session of a state holds what its log says. -/
def HeldIn (s : State) (log : Log) : Prop :=
  ∀ session, s.upload = some session → Held session log s.tree

theorem heldIn_none {log : Log} (h : s.upload = none) : HeldIn s log := by
  intro session hsession
  rw [h] at hsession
  cases hsession

theorem abort_heldIn {log : Log} : HeldIn (abortLoadAppSession f s) log :=
  heldIn_none abortLoadAppSession_upload

theorem next_of_not_ack {log : Log} {command : Command} {response : Response}
    (h : response ≠ .ack) : log.next command response s = log := by
  unfold Log.next
  split
  · exact (h rfl).elim
  · exact (h rfl).elim
  · exact (h rfl).elim
  · rfl

theorem lockedResponse_ne_ack {response : Response} (h : lockedResponse f = some response) :
    response ≠ .ack := by
  unfold lockedResponse at h
  split at h
  · cases h
  · cases h
    nofun
  · cases h
    nofun

theorem target_concat (t : Tree) (raw : Path) (n : Name) :
    target t (raw ++ [n]) = t.resolve raw ++ [n] := by
  unfold target
  rw [List.dropLast_concat, List.getLastD_concat]

/-- A session that begins is empty. -/
theorem startSession_ready (hc : tree.Closed)
    (hremoved : removed (tree.remove f.removeStaging (stagingDir appId)).1 = true) :
    ∀ q, stagingDir appId <+: q →
      (tree.remove f.removeStaging (stagingDir appId)).2.node q = none := by
  intro q hq
  refine Tree.remove_gone hc (fun e he => ?_) ?_
  · rw [he] at hremoved
    cases e with
    | fileNotFound => rfl
    | io => cases hremoved
  · rwa [Tree.resolve_plain (stagingDir_plain appId)]

theorem startUploadFile_held {log : Log} {size : Nat} {filename : List Char} (h : Shaped s)
    (hupload : s.upload = some session) (hidle : session.currentFile = none)
    (hready : Ready session.stagingDir log s.tree)
    (hapart : Apart s.tree log f.tempShort
      (s.tree.resolve (session.stagingDir ++ components filename).dropLast)
      ((session.stagingDir ++ components filename).getLastD []))
    (hfault : f.openFile ≠ some true)
    (hzero : size = 0 → ∀ file tree,
      openTemp f (withPart (session.stagingDir ++ components filename)) s.tree =
          (some file, tree) →
        (promote f (withPart (session.stagingDir ++ components filename))
          (session.stagingDir ++ components filename) tree).1 = .ack) :
    let result := startUploadFile f (session.stagingDir ++ components filename) size session s.tree
    HeldIn result.2 (log.next (.loadAppFileBegin filename size) result.1 result.2) := by
  obtain ⟨name, n, hname⟩ := components_eq_concat filename
  have happ := h.session session hupload
  have htop := h.top
  obtain ⟨raw, hraw⟩ : ∃ raw, session.stagingDir ++ components filename = raw ++ [n] :=
    ⟨session.stagingDir ++ name, by rw [hname, List.append_assoc]⟩
  have hpre : ∀ t : Tree, session.stagingDir <+: t.resolve raw := by
    intro t
    have heq : raw = session.stagingDir ++ name := by
      rw [hname, ← List.append_assoc] at hraw
      exact (List.append_inj_left' hraw rfl).symm
    rw [heq, happ.stagingDir]
    exact prefix_resolve_staging t _ _
  dsimp only
  rw [hraw] at hapart hzero ⊢
  rw [List.dropLast_concat, List.getLastD_concat] at hapart
  rw [withPart_concat] at hzero
  have hclosed : ∀ {result t}, openTemp f (raw ++ [n ++ part]) s.tree = (result, t) →
      t.Closed := by
    intro result t heq
    have heq' : raw ++ [n ++ part] = stagingDir session.appId ++ (name ++ [n ++ part]) := by
      rw [hname, ← List.append_assoc] at hraw
      rw [← List.append_inj_left' hraw rfl, happ.stagingDir, List.append_assoc]
    have hstays := openTemp_stays f session.appId (name ++ [n ++ part]) h.closed h.root
    rw [← heq', heq] at hstays
    exact hstays.closed h.closed
  unfold startUploadFile
  rw [withPart_concat]
  split
  next t heq =>
    have hopened := openTemp_opened h.closed htop hready (hpre _) hapart hfault heq
    show HeldIn ⟨some session, t⟩ (log.next (.loadAppFileBegin filename size) .err _)
    rw [next_of_not_ack (by decide)]
    rintro session' ⟨⟩
    rw [Held, hidle]
    exact hopened
  next opened t heq =>
    obtain ⟨hfile, hdir, htemp⟩ :=
      openTemp_opened h.closed htop hready (hpre _) hapart hfault heq
    split
    next hsize =>
      have hack := hzero hsize opened t heq
      have hzeroLength : ([] : Bytes).length = size := hsize.symm
      obtain ⟨hready', hbelow⟩ := promote_ready (hclosed heq) hdir htemp hzeroLength hack
      have hdir' : (promote f (raw ++ [n ++ part]) (raw ++ [n]) t).2.resolve raw =
          s.tree.resolve raw := by
        rw [← hdir] at hbelow ⊢
        exact hbelow.resolve
      split
      next response t' heq' =>
      rw [heq'] at hack hready' hdir'
      obtain rfl : response = .ack := hack
      rintro session' ⟨⟩
      rw [Held, hidle]
      show Ready session.stagingDir (⟨target t' (session.stagingDir ++ components filename), size,
        []⟩ :: log) t'
      rw [hraw, target_concat, hdir']
      exact hready'
    next hsize =>
      rintro session' ⟨⟩
      show ∃ raw n data rest, _ ∧ Writing session.stagingDir _
        (⟨target t (session.stagingDir ++ components filename), size, []⟩ :: log) t raw n data rest
      rw [hraw, target_concat, hdir]
      refine ⟨raw, n, [], log, hpre t, ?_⟩
      exact {
        log := by rw [hdir]
        temp := by rw [hdir]; exact htemp
        finalPath := rfl
        tempPath := rfl
        handle := by rw [hdir]; exact hfile
        offset := rfl
        written := rfl
        short := Nat.pos_of_ne_zero hsize }

/-- The temporary file with more data. -/
theorem Temp.put {S raw : Path} {data : Bytes} (data' : Bytes) {rest : Log} {t : Tree}
    (h : Temp S (t.resolve raw) n data rest t) :
    (t.put (t.resolve raw ++ [n ++ part]) (.file data') none).resolve raw = t.resolve raw ∧
      Temp S (t.resolve raw) n data' rest
        (t.put (t.resolve raw ++ [n ++ part]) (.file data') none) := by
  have hbelow := Tree.put_below none (t := t) (p := t.resolve raw ++ [n ++ part]) (.file data')
    (by simp)
  rw [List.dropLast_concat] at hbelow
  refine ⟨hbelow.resolve, ?_, fun q hS hq => ?_, h.complete, h.new, h.apart⟩
  · rw [Tree.file?, Tree.put_self]
  · rw [Tree.file?, Tree.put_of_ne _ _ hq, ← Tree.file?, h.staged q hS hq]

/-- What a file holds, written over at its end. -/
theorem overwrite_length (data payload : Bytes) :
    Tree.overwrite data data.length payload = data ++ payload := by
  unfold Tree.overwrite
  rw [List.take_length, List.drop_eq_nil_of_le (by omega), List.append_nil]

theorem put_same {p : Path} {data : Bytes} {t : Tree} (h : t.file? p = some data) :
    t.put p (.file data) none = t := by
  have hnode : t.node p = some (.file data) := by
    rw [Tree.file?] at h
    split at h
    next hnode => rw [hnode, Option.some.inj h]
    next => cases h
  unfold Tree.put
  rw [← hnode, Function.update_eq_self]

/-- A write at the end of a file appends to it, or fails. -/
theorem writeAll_end {p : Path} {data : Bytes} {t : Tree} (fault : Option Nat) (payload : Bytes)
    (h : t.file? p = some data) :
    (t.writeAll fault p data.length payload).1 = .ok () ∧
        t.writeAll fault p data.length payload =
          (.ok (), t.put p (.file (data ++ payload)) none, data.length + payload.length) ∧
        data.length + payload.length ≤ Tree.MAX_FILE_SIZE ∨
      (t.writeAll fault p data.length payload).1 = .error .io ∧
        ((t.writeAll fault p data.length payload).2.2 = data.length →
          t.writeAll fault p data.length payload = (.error .io, t, data.length)) := by
  unfold Tree.writeAll
  rw [h]
  dsimp only
  split
  next hok =>
    obtain ⟨rfl, hle⟩ := hok
    have hall : Tree.writable none data.length payload = payload.length := by
      unfold Tree.writable
      rw [Option.getD_none]
      omega
    rw [hall, List.take_length, overwrite_length]
    exact .inl ⟨rfl, rfl, hle⟩
  next =>
    refine .inr ⟨rfl, fun hsame => ?_⟩
    have hnil : payload.take (Tree.writable fault data.length payload) = [] :=
      List.eq_nil_of_length_eq_zero (by omega)
    rw [hnil, overwrite_length, List.append_nil, put_same h]
    rfl

/-- A chunk is added to the open file, or changes nothing. -/
theorem writeChunk_held {log : Log} {payload : Bytes} (hclosed : s.tree.Closed)
    (hupload : s.upload = some session) (hfile : session.currentFile = some file)
    (hheld : Held session log s.tree) (hunlocked : lockedResponse f = none)
    (hfits : min (file.written + payload.length) U64_MAX ≤ file.expectedSize)
    (hcalm : Calm ⟨.loadAppChunk payload, f⟩ s log) :
    let result := loadAppChunk f payload s
    HeldIn result.2 (log.next (.loadAppChunk payload) result.1 result.2) := by
  rw [Held, hfile] at hheld
  obtain ⟨raw, n, data, rest, hpre, hw⟩ := hheld
  obtain ⟨hunfinished, hfinish⟩ := hcalm session file hupload hfile hfits
  dsimp only at hunfinished hfinish ⊢
  unfold loadAppChunk
  rw [hunlocked, hupload]
  dsimp only
  rw [hfile]
  dsimp only
  rw [if_neg (by omega)]
  have hholds : s.tree.file? file.file = some data := by rw [hw.handle]; exact hw.temp.holds
  rw [hw.offset] at hunfinished hfinish ⊢
  rcases writeAll_end f.write payload hholds with
    ⟨hok, hwrite, hle⟩ | ⟨herror, hsame⟩
  · obtain ⟨hdir, htemp⟩ := hw.temp.put (data ++ payload)
    have hclosed' : (s.tree.put file.file (.file (data ++ payload)) none).Closed := by
      have hstays := writeAll_stays (t := s.tree) f.write data.length payload
        (List.prefix_refl file.file)
      rw [hwrite] at hstays
      exact hstays.closed hclosed
    have hmin : min (file.written + payload.length) U64_MAX = (data ++ payload).length := by
      have hmax : Tree.MAX_FILE_SIZE ≤ U64_MAX := by decide
      rw [hw.written, List.length_append]
      omega
    rw [hw.handle] at hwrite hclosed' hfinish ⊢
    rw [hwrite] at hfinish ⊢
    dsimp only at hfinish ⊢
    rw [hmin] at hfits hfinish ⊢
    split
    next hsize =>
      obtain ⟨hflush, hack⟩ := hfinish rfl hsize
      rw [hw.finalPath, hw.tempPath] at hack
      obtain ⟨hready, -⟩ := promote_ready hclosed' hdir htemp hsize hack
      unfold finishLoadAppFile
      dsimp only
      rw [if_neg (fun hne => hne hsize), hflush, if_neg Bool.false_ne_true, hw.finalPath,
        hw.tempPath]
      dsimp only
      rw [hack, hw.log]
      rintro session' ⟨⟩
      exact hready
    next hsize =>
      rw [hw.log]
      rintro session' ⟨⟩
      show ∃ raw n data rest, _ ∧ Writing session.stagingDir _ (_ :: _) _ raw n data rest
      refine ⟨raw, n, data ++ payload, rest, by rw [hdir]; exact hpre, ?_⟩
      exact {
        log := by rw [hdir]
        temp := by rw [hdir]; exact htemp
        finalPath := hw.finalPath
        tempPath := hw.tempPath
        handle := by rw [hdir]
        offset := List.length_append.symm
        written := rfl
        short := lt_of_le_of_ne hfits hsize }
  · have hstop := hsame (hunfinished (by rw [herror]; nofun))
    rw [hstop]
    dsimp only
    show HeldIn ⟨some _, s.tree⟩ (log.next (.loadAppChunk payload) .err _)
    rw [next_of_not_ack (by decide)]
    rintro session' ⟨⟩
    refine ⟨raw, n, data, rest, hpre, ?_⟩
    exact { hw with offset := rfl }

theorem loadAppChunk_held {log : Log} {payload : Bytes} (h : Shaped s) (hheld : HeldIn s log)
    (hcalm : Calm ⟨.loadAppChunk payload, f⟩ s log) :
    HeldIn (loadAppChunk f payload s).2
      (log.next (.loadAppChunk payload) (loadAppChunk f payload s).1
        (loadAppChunk f payload s).2) := by
  cases hlocked : lockedResponse f with
  | some response =>
    have heq : loadAppChunk f payload s = (response, abortLoadAppSession f s) := by
      rw [loadAppChunk, hlocked]
    rw [heq]
    exact abort_heldIn
  | none =>
    -- an answer before anything is done
    have hearly (heq : loadAppChunk f payload s = (.err, s)) :
        HeldIn (loadAppChunk f payload s).2
          (log.next (.loadAppChunk payload) (loadAppChunk f payload s).1
            (loadAppChunk f payload s).2) := by
      rw [heq]
      show HeldIn s (log.next _ .err s)
      rw [next_of_not_ack (by decide)]
      exact hheld
    cases hupload : s.upload with
    | none => exact hearly (by rw [loadAppChunk, hlocked, hupload])
    | some session =>
      cases hfile : session.currentFile with
      | none =>
        refine hearly ?_
        rw [loadAppChunk, hlocked, hupload]
        dsimp only
        rw [hfile]
      | some file =>
        by_cases hfits : min (file.written + payload.length) U64_MAX ≤ file.expectedSize
        · exact writeChunk_held h.closed hupload hfile (hheld session hupload) hlocked hfits hcalm
        · refine hearly ?_
          rw [loadAppChunk, hlocked, hupload]
          dsimp only
          rw [hfile]
          dsimp only
          rw [if_pos (by omega)]

theorem loadAppFileBegin_held {log : Log} {filename : List Char} {size : Nat} (h : Shaped s)
    (hheld : HeldIn s log) (hcalm : Calm ⟨.loadAppFileBegin filename size, f⟩ s log) :
    HeldIn (loadAppFileBegin f filename size s).2
      (log.next (.loadAppFileBegin filename size) (loadAppFileBegin f filename size s).1
        (loadAppFileBegin f filename size s).2) := by
  have hearly : HeldIn s (log.next (.loadAppFileBegin filename size) .err s) := by
    rw [next_of_not_ack (by decide)]
    exact hheld
  unfold loadAppFileBegin
  split
  next => exact abort_heldIn
  next =>
    split
    next => exact hearly
    next hvalid =>
      cases hupload : s.upload with
      | none => exact hearly
      | some session =>
        dsimp only
        cases hidle : session.currentFile with
        | some file => exact hearly
        | none =>
          dsimp only
          rw [Bool.not_eq_false] at hvalid
          obtain ⟨hapart, hfault, hzero⟩ := hcalm hvalid session hupload hidle
          have hready := hheld session hupload
          rw [Held, hidle] at hready
          exact startUploadFile_held h hupload hidle hready hapart hfault hzero

end

end UsbDebug
