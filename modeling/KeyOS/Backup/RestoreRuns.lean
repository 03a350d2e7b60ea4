import KeyOS.Backup.Restore

/-!
# A restore keeps an `appdata`

Everything before the swap, and everything after it, leaves `appdata` alone. The swap itself
is safe as long as it is not interrupted while `appdata` is moved aside.
-/

namespace Backup

open Exec Interrupt Interruptible
open Update (Bytes Dir FsError Fault check recursivelyRemoveContents)

/-! ## 1. Requests that leave `appdata` alone -/

/-- Whatever the fates of the steps. -/
abbrev Always {σ ε α : Type} (P : σ → Prop) (x : Interruptible σ Fault ε α) (Q : α → σ → Prop)
    (E : Stop ε → σ → Prop) : Prop :=
  Spec (fun _ => True) P x Q E

/-- `I` says nothing about what is at `name`. -/
def Ignores (name : RootName) (I : Root → Prop) : Prop :=
  ∀ v node, I v → I (Function.update v name node)

theorem ignores_other {name other : RootName} (hne : other ≠ name) (P : Option Node → Prop) :
    Ignores name fun v => P (v other) := by
  intro v node hv
  rwa [Function.update_of_ne hne]

section Keeps

variable {name : RootName} {I : Root → Prop}

theorem check_keeps {σ : Type} {P : σ → Prop} :
    Always P check (fun _ => P) fun e s => e ≠ .error .fileNotFound ∧ P s :=
  Spec.probe (fun _ _ hP _ => hP) (fun _ _ _ h => nomatch h)
    (fun _ f hP _ => ⟨fun he => f.2 (Stop.error.inj he), hP⟩) fun _ hP _ => ⟨nofun, hP⟩

theorem removeFirst_spec {d rest : Dir} (h : d.removeFirst = .ok ((), rest)) :
    Always (· = d) (step Subtype.val Dir.removeFirst) (fun _ => (· = rest))
      fun e _ => e ≠ .error .fileNotFound := by
  refine Spec.step (fun s a s' hs hf => ?_) (fun s e hs hf => ?_)
    (fun _ f _ _ he => f.2 (Stop.error.inj he)) fun _ _ _ => nofun
  · rw [hs, h] at hf
    cases hf
    rfl
  · rw [hs, h] at hf
    cases hf

/-- The removal of the entries of a directory never misses one of them. -/
theorem recursivelyRemoveContents_found (d : Dir) :
    Always (· = d) (recursivelyRemoveContents d) (fun _ => (· = .nil))
      fun e _ => e ≠ .error .fileNotFound := by
  have hcheck : ∀ d : Dir, Always (· = d) check (fun _ => (· = d))
      fun e _ => e ≠ .error .fileNotFound := fun d =>
    check_keeps.conseq (fun _ => id) (fun _ _ => id) fun _ _ he => he.1
  induction d with
  | nil => exact hcheck .nil
  | file n data rest ih =>
    refine Spec.bind (hcheck _) fun _ => ?_
    exact Spec.bind (removeFirst_spec rfl) fun _ => ih
  | dir n contents rest ihContents ih =>
    refine Spec.bind (hcheck _) fun _ => ?_
    refine Spec.bind (Q := fun _ => (· = .dir n .nil rest)) ?_ fun _ => ?_
    · refine Spec.within (R := (· = .dir n contents rest)) ihContents
        (fun s hs => ⟨by rw [hs]; rfl, hs⟩) (fun _ s t hs ht => ?_) fun e _ _ _ he => he
      rw [hs, ht]
      rfl
    · exact Spec.bind (removeFirst_spec rfl) fun _ => ih

theorem removeEntry_spec (hI : Ignores name I) :
    Always I (removeEntry name) (fun _ v => I v ∧ v name = none)
      fun e v => I v ∧ (e = .error .fileNotFound → v name = none) := by
  refine Spec.step (fun v a v' hv hf => ?_) (fun v e hv hf => ?_)
    (fun _ f hv _ => ⟨hv, fun he => absurd (Stop.error.inj he) f.2⟩) fun _ hv _ => ⟨hv, nofun⟩
  · split at hf
    · cases hf
    · cases hf
      exact ⟨hI v none hv, Function.update_self ..⟩
    · cases hf
      exact ⟨hI v none hv, Function.update_self ..⟩
    · cases hf
  · split at hf
    · next h => exact ⟨hv, fun _ => h⟩
    · cases hf
    · cases hf
    · cases hf
      exact ⟨hv, nofun⟩

/-- A removal that returns `Ok`, or finds nothing, leaves nothing. -/
theorem remove_spec (hI : Ignores name I) :
    Always I (remove name) (fun _ v => I v ∧ v name = none)
      fun e v => I v ∧ (e = .error .fileNotFound → v name = none) := by
  have hchecked : ∀ {P : Root → Prop}, (∀ v, P v → I v) →
      Always P check (fun _ => P) fun e v => I v ∧ (e = .error .fileNotFound → v name = none) :=
    fun hP => check_keeps.conseq (fun _ => id) (fun _ _ => id)
      fun _ _ he => ⟨hP _ he.2, fun h => absurd h he.1⟩
  refine Spec.bind (hchecked fun _ => id) fun _ => Spec.bind ?_ fun _ => hchecked fun _ hv => hv.1
  refine Spec.bind (Q := fun opened v => I v ∧ ∀ contents, opened = .ok contents →
    v name = some (.dir contents)) (Spec.attempt (Spec.probe (fun v contents hv hf => ?_)
      (fun _ _ hv _ => ⟨hv, nofun⟩) (fun _ _ hv _ => ⟨hv, nofun⟩) fun _ hv _ => ⟨hv, nofun⟩))
    fun opened => ?_
  · split at hf
    · next h =>
      cases hf
      exact ⟨hv, fun _ hc => by cases hc; exact h⟩
    · cases hf
    · cases hf
  · cases opened with
    | error e => exact (removeEntry_spec hI).pre fun _ hv => hv.1
    | ok contents =>
      refine Spec.bind (Q := fun _ => I) ?_ fun _ => removeEntry_spec hI
      refine Spec.within (R := I) (recursivelyRemoveContents_found contents)
        (fun v hv => ⟨by rw [hv.2 contents rfl]; rfl, hv.1⟩) (fun _ v _ hv _ => hI v _ hv)
        fun _ v _ hv he => ⟨hI v _ hv, fun h => absurd h he⟩

theorem removeIfExists_spec (hI : Ignores name I) :
    Always I (removeIfExists name) (fun _ v => I v ∧ v name = none) fun _ => I := by
  refine Spec.bind (Q := fun removed v => I v ∧
    (removed = .ok () ∨ removed = .error .fileNotFound → v name = none))
    (Spec.attempt ((remove_spec hI).conseq (fun _ => id) (fun _ v hv => ⟨hv.1, fun _ => hv.2⟩)
      fun e v hv => ?_)) fun removed => ?_
  · cases e with
    | powerLoss => exact hv.1
    | halt message => exact hv.1
    | error e =>
      refine ⟨hv.1, fun h => hv.2 ?_⟩
      rcases h with h | h
      · cases h
      · exact congrArg Stop.error (Except.error.inj h)
  · cases removed with
    | ok _ => exact Spec.pure fun v hv => ⟨hv.1, hv.2 (.inl rfl)⟩
    | error e =>
      cases e
      case fileNotFound => exact Spec.pure fun v hv => ⟨hv.1, hv.2 (.inr rfl)⟩
      all_goals exact Spec.throw fun v hv => hv.1

end Keeps

/-! ## 2. The swap -/

section Swap

variable {κ : Type} {a : Attempt κ} {node : Node}

/-- The backup has been extracted below `appdata-restore-temp`. -/
def Extracted (a : Attempt κ) (temp : Option Node) : Prop :=
  ∃ key metadata contents fates fates', temp = some (.dir contents) ∧
    a.backup.extract key ⟨.nil, fates⟩ = (.ok metadata, ⟨contents, fates'⟩)

/-- A restored `appdata` is in place. -/
def InPlace (a : Attempt κ) (v : Root) : Prop := ∃ restored, a.Restored restored ∧
  v .appdata = some restored

theorem ignores_inPlace {name : RootName} (hne : .appdata ≠ name) : Ignores name (InPlace a) :=
  fun v x ⟨restored, h, hv⟩ => ⟨restored, h, by rwa [Function.update_of_ne hne]⟩

theorem prepare_spec :
    Always (fun v => v .appdata = some node) (prepare a.key a.backup)
      (fun _ v => v .appdata = some node ∧ v .appdataRestoreTemp = some (.dir .nil))
      fun _ v => v .appdata = some node := by
  have hI : Ignores .appdataRestoreTemp fun v => v .appdata = some node :=
    ignores_other (by decide) (· = some node)
  have hprobe : ∀ {α : Type} (x : Except Error α), Always (fun v : Root => v .appdata = some node)
      (probe (fun f => .fs f.1) fun _ => x) (fun _ v => v .appdata = some node)
      fun _ v => v .appdata = some node := fun x =>
    Spec.probe (fun _ _ h _ => h) (fun _ _ h _ => h) (fun _ _ h _ => h) fun _ h _ => h
  refine Spec.bind (hprobe _) fun key => Spec.bind (hprobe _) fun _ => ?_
  refine Spec.bind (Spec.mapErr (removeIfExists_spec hI)) fun _ => ?_
  refine Spec.bind (Spec.mapErr (Spec.step (fun v a v' hv hf => ?_) (fun _ _ hv _ => hv.1)
    (fun _ _ hv _ => hv.1) fun _ hv _ => hv.1)) fun _ => Spec.pure fun _ => id
  rw [hv.2] at hf
  cases hf
  exact ⟨hv.1, Function.update_self ..⟩

theorem extract_spec (key : κ) :
    Always (fun v => v .appdata = some node ∧ v .appdataRestoreTemp = some (.dir .nil))
      (inDir .appdataRestoreTemp (a.backup.extract key))
      (fun _ v => v .appdata = some node ∧ Extracted a (v .appdataRestoreTemp))
      fun _ v => v .appdata = some node := by
  have hrun : Always (· = Dir.nil) (a.backup.extract key)
      (fun _ contents => Extracted a (some (.dir contents))) fun _ _ => True := by
    rintro ⟨contents, fates⟩ ⟨-, rfl⟩
    rcases heq : a.backup.extract key ⟨.nil, fates⟩ with ⟨o, ⟨contents', fates'⟩⟩
    cases o with
    | ok metadata => exact ⟨fun _ => trivial, key, metadata, contents', fates, fates', rfl, heq⟩
    | err e => exact ⟨fun _ => trivial, trivial⟩
    | panic p => trivial
  refine Spec.within (R := fun v => v .appdata = some node) hrun
    (fun v hv => ⟨by rw [hv.2]; rfl, hv.1⟩) (fun _ v contents hv h => ⟨?_, ?_⟩)
    fun _ v contents hv _ => ?_
  · rwa [Function.update_of_ne (by decide)]
  · rwa [Function.update_self]
  · rwa [Function.update_of_ne (by decide)]

theorem moveAside_spec :
    Always (fun v => v .appdata = some node ∧ Extracted a (v .appdataRestoreTemp)) moveAside
      (fun _ v => v .appdata = none ∧ v .appdataOld = some node ∧
        Extracted a (v .appdataRestoreTemp))
      fun _ v => v .appdata = some node := by
  have hI : Ignores .appdataOld fun v =>
      v .appdata = some node ∧ Extracted a (v .appdataRestoreTemp) := by
    intro v x hv
    rwa [Function.update_of_ne (by decide), Function.update_of_ne (by decide)]
  refine Spec.bind ((removeIfExists_spec hI).conseq (fun _ => id) (fun _ _ => id)
    fun _ _ hv => hv.1) fun _ => ?_
  refine Spec.step (fun v x v' hv hf => ?_) (fun _ _ hv _ => hv.1.1) (fun _ _ hv _ => hv.1.1)
    fun _ hv _ => hv.1.1
  rw [hv.1.1] at hf
  dsimp only at hf
  rw [if_neg (by decide), hv.2] at hf
  cases hf
  exact ⟨rfl, rfl, hv.1.2⟩

/-- A safe swap ends with the restored `appdata`, or is rolled back. -/
theorem moveIn_spec :
    Prog.Triple (fun d : Device Root Fault => (d.contents .appdata = none ∧
        d.contents .appdataOld = some node ∧ Extracted a (d.contents .appdataRestoreTemp)) ∧
        Attempt.SwapSafe d)
      moveIn (fun _ d => InPlace a d.contents)
      (fun e d => (∃ e', e = .error e') ∧ d.contents .appdata = some node) fun _ => True := by
  rintro ⟨v, fates⟩ ⟨⟨hnone, hold, key, metadata, contents, f, f', htemp, hrun⟩, hpower, hback⟩
  dsimp only at hnone hold htemp hpower hback
  have hextracted : extracted v = takeEntry "appdata" contents := by
    rw [extracted, htemp]
  -- The rollback finds `appdata-old` and no `appdata`.
  have hrollback : fates 1 = .done → (attempt (rename .appdataOld .appdata) :
      RootM (Except FsError Unit)) ⟨v, fun n => fates (n + 1)⟩ =
      (.ok (.ok ()), ⟨Function.update (Function.update v .appdataOld none) .appdata (some node),
        fun n => fates (n + 2)⟩) := by
    intro h1
    unfold attempt rename step
    dsimp only
    rw [h1]
    dsimp only
    rw [hold]
    dsimp only
    rw [if_neg (by decide), hnone]
    rfl
  unfold moveIn onError renameExtracted step
  dsimp only
  cases h0 : fates 0 with
  | powerLoss => exact absurd h0 hpower
  | fault fault =>
    have h1 := hback (.inl ⟨fault, h0⟩)
    dsimp only
    rw [Prog.bind_run, hrollback h1]
    exact ⟨⟨_, rfl⟩, rfl⟩
  | done =>
    dsimp only
    cases hfound : extracted v with
    | none =>
      have h1 := hback (.inr hfound)
      dsimp only
      rw [Prog.bind_run, hrollback h1]
      exact ⟨⟨_, rfl⟩, rfl⟩
    | some found =>
      obtain ⟨restored, rest⟩ := found
      dsimp only
      rw [hnone]
      refine ⟨restored, ⟨key, f, metadata, contents, f', rest, hrun, ?_⟩, rfl⟩
      exact hextracted.symm.trans hfound

/-- What an attempt that stops has left: after a returned error the previous `appdata`. -/
def Kept (a : Attempt κ) (node : Node) : Stop Error → Root → Prop
  | .error _, v => v .appdata = some node
  | .halt _, v => v .appdata = some node ∨ InPlace a v
  | .powerLoss, v => v .appdata = some node ∨ InPlace a v

theorem kept_of_previous {stop : Stop Error} {v : Root} (h : v .appdata = some node) :
    Kept a node stop v := by
  cases stop with
  | powerLoss => exact .inl h
  | halt message => exact .inl h
  | error e => exact h

/-- The rest of an attempt, once `appdata` is known to be swapped safely. -/
theorem extractAndSwap_spec (key : κ) :
    Prog.Triple (fun d : Device Root Fault => On (fun _ => True) (fun v =>
        v .appdata = some node ∧ v .appdataRestoreTemp = some (.dir .nil)) d ∧
        Prog.Yields (do
          let _ ← inDir .appdataRestoreTemp (a.backup.extract key)
          mapErr .fs moveAside) (fun _ => Attempt.SwapSafe) d)
      (extractAndSwap a.backup key) (fun _ => On (fun _ => True) (InPlace a))
      (fun stop => On (fun _ => True) (Kept a node stop)) fun _ => True := by
  have hprevious : ∀ (stop : Stop Error) (d : Device Root Fault),
      On (fun _ => True) (fun v => v .appdata = some node) d →
      On (fun _ => True) (Kept a node stop) d := fun _ _ hd => ⟨hd.1, kept_of_previous hd.2⟩
  refine Prog.Triple.bind ((Prog.Triple.yields (extract_spec key)).conseq
    (fun _ hd => ⟨hd.1, Prog.yields_bind hd.2⟩) (fun _ _ => id) hprevious fun _ => id)
    fun metadata => ?_
  refine Prog.Triple.bind ((Prog.Triple.yields (Spec.mapErr moveAside_spec)).conseq
    (fun _ => id) (fun _ _ => id) hprevious fun _ => id) fun _ => ?_
  refine Prog.Triple.bind (Q := fun _ => On (fun _ => True) (InPlace a)) ?_ fun _ => ?_
  · refine Prog.Triple.mapErr (moveIn_spec.conseq (fun _ hd => ⟨hd.1.2, hd.2⟩)
      (fun _ _ hd => ⟨fun _ => trivial, hd⟩) ?_ fun _ => id)
    rintro _ d ⟨⟨e, rfl⟩, hd⟩
    exact ⟨fun _ => trivial, hd⟩
  · refine Spec.bind (Q := fun _ => InPlace a) (Spec.attempt
      ((remove_spec (ignores_inPlace (by decide))).conseq (fun _ => id) (fun _ _ hv => hv.1)
        fun stop _ hv => ?_)) fun _ => Spec.pure fun _ => id
    cases stop with
    | powerLoss => exact .inr hv.1
    | halt message => exact .inr hv.1
    | error e => exact hv.1

/-- One careful attempt. -/
theorem restoreBackup_spec :
    Prog.Triple (fun d : Device Root Fault => d.contents .appdata = some node ∧
        Prog.Yields (do
          let key ← prepare a.key a.backup
          let _ ← inDir .appdataRestoreTemp (a.backup.extract key)
          mapErr .fs moveAside) (fun _ => Attempt.SwapSafe) d)
      (restoreBackup a.key a.backup) (fun _ => On (fun _ => True) (InPlace a))
      (fun stop => On (fun _ => True) (Kept a node stop)) fun _ => True := by
  refine Prog.Triple.bind ((Prog.Triple.yields prepare_spec).conseq
    (fun d hd => ⟨⟨fun _ => trivial, hd.1⟩, Prog.yields_bind hd.2⟩) (fun _ _ => id)
    (fun _ _ hd => ⟨hd.1, kept_of_previous hd.2⟩) fun _ => id) fun key => ?_
  refine Spec.ensuring (extractAndSwap_spec key) (fun _ => ?_) fun e => ?_
  · refine (remove_spec (ignores_inPlace (by decide))).conseq (fun _ => id) (fun _ _ hv => hv.1)
      fun stop _ hv => ?_
    cases stop with
    | powerLoss => exact .inr hv.1
    | halt message => exact .inr hv.1
    | error e => exact hv.1
  · have hI : Ignores .appdataRestoreTemp fun v => v .appdata = some node :=
      ignores_other (by decide) (· = some node)
    refine (remove_spec hI).conseq (fun _ => id) (fun _ _ hv => hv.1) fun stop _ hv => ?_
    cases stop with
    | powerLoss => exact .inl hv.1
    | halt message => exact .inl hv.1
    | error e => exact hv.1

end Swap

/-! ## 3. Attempt after attempt -/

section Runs

variable {κ : Type} {v v' : Root} {node : Node}

/-- A returned error leaves the previous `appdata`; a restore that returns `Ok` leaves the
restored one; one that is cut off leaves either. -/
theorem run_keeps {a : Attempt κ} (h : v .appdata = some node) (hc : a.Careful v) :
    match a.run v with
    | (.ok _, v') => InPlace a v'
    | (.err stop, v') => Kept a node stop v'
    | (.panic _, _) => True := by
  have hspec : Prog.Triple _ (restoreBackup a.key a.backup) _
      (fun stop => On (fun _ => True) (Kept a node stop)) _ := restoreBackup_spec
  have hrun := hspec ⟨v, a.fates⟩ ⟨h, hc⟩
  revert hrun
  unfold Attempt.run
  rcases restoreBackup a.key a.backup ⟨v, a.fates⟩ with ⟨o, d⟩
  cases o with
  | ok metadata => exact fun hd => hd.2
  | err stop => exact fun hd => hd.2
  | panic p => exact id

theorem run_available {a : Attempt κ} (h : v .appdata = some node) (hc : a.Careful v) :
    ∃ node', (a.run v).2 .appdata = some node' ∧ (node' = node ∨ a.Restored node') := by
  have hrun := run_keeps h hc
  revert hrun
  rcases a.run v with ⟨o, v'⟩
  cases o with
  | ok metadata =>
    rintro ⟨restored, hrestored, hv'⟩
    exact ⟨restored, hv', .inr hrestored⟩
  | err stop =>
    have hcut : v' .appdata = some node ∨ InPlace a v' →
        ∃ node', v' .appdata = some node' ∧ (node' = node ∨ a.Restored node') := by
      rintro (hv' | ⟨restored, hrestored, hv'⟩)
      · exact ⟨node, hv', .inl rfl⟩
      · exact ⟨restored, hv', .inr hrestored⟩
    cases stop with
    | powerLoss => exact hcut
    | halt message => exact hcut
    | error e => exact fun hv' => hcut (.inl hv')
  | panic p => exact p.elim

/-- After any number of careful attempts, each interrupted at any point, `/appdata` is the
one from before them or one that an attempt has restored in full; and an attempt that then
returns an error leaves `/appdata` as it is. -/
theorem restore_keeps_appdata {attempts : List (Attempt κ)}
    (h : Attempts Attempt.Careful v attempts v') (hv : v .appdata = some node) :
    (∃ node', v' .appdata = some node' ∧ (node' = node ∨ ∃ a ∈ attempts, a.Restored node')) ∧
    ∀ (a : Attempt κ) (e : Error) (v'' : Root), a.Careful v' →
      a.run v' = (.err (.error e), v'') → v'' .appdata = v' .appdata := by
  have havailable : ∃ node', v' .appdata = some node' ∧
      (node' = node ∨ ∃ a ∈ attempts, a.Restored node') := by
    induction h generalizing node with
    | nil => exact ⟨node, hv, .inl rfl⟩
    | @cons v v' a as hC rest ih =>
      obtain ⟨node₁, hv₁, hnode₁⟩ := run_available hv hC
      obtain ⟨node₂, hv₂, rfl | ⟨a', ha', hnode₂⟩⟩ := ih hv₁
      · refine ⟨node₂, hv₂, hnode₁.imp_right fun hr => ⟨a, List.mem_cons_self, hr⟩⟩
      · exact ⟨node₂, hv₂, .inr ⟨a', List.mem_cons_of_mem _ ha', hnode₂⟩⟩
  obtain ⟨node', hv', -⟩ := id havailable
  refine ⟨havailable, fun a e v'' hC hrun => ?_⟩
  have hkept := run_keeps hv' hC
  rw [hrun] at hkept
  exact hkept.trans hv'.symm

end Runs

/-! ## 4. A cut between the renames -/

def oldData : Dir := .file "accounts" [1] .nil

def newData : Dir := .file "accounts" [2] .nil

/-- The extraction of a backup of `newData`, in one step. -/
def extractNew : Interruptible Dir Fault Error BackupMetadata :=
  step (fun f => .fs f.1) fun _ => .ok (⟨0, none⟩, .dir "appdata" newData .nil)

def attemptWith (fates : Nat → Fate Fault) : Attempt Unit where
  key := .ok ()
  backup := { detect := .ok (), extract := fun _ => extractNew }
  fates := fates

def current : Root
  | .appdata => some (.dir oldData)
  | _ => none

theorem restore_keeps_appdata_one :
    ∃ v', Attempts Attempt.Careful current [attemptWith fun _ => .done] v' ∧
      ∃ node', v' .appdata = some node' :=
  have hsafe : (attemptWith fun _ => .done).Careful current := fun _ d hrun => by
    obtain rfl : _ = d := congrArg Prod.snd hrun
    exact ⟨nofun, fun _ => rfl⟩
  have hrun := Attempts.cons hsafe (.nil _)
  ⟨_, hrun, (restore_keeps_appdata hrun rfl).1.imp fun _ h => h.1⟩

/-- The power goes while `appdata` is moved aside. -/
def cutAttempt : Attempt Unit := attemptWith fun n => if n = 11 then .powerLoss else .done

/-- The next attempt takes `appdata-old` for a left-over and removes it. -/
theorem cut_swap_loses_appdata :
    ∃ v', Attempts (fun _ _ => True) current [cutAttempt, attemptWith fun _ => .done] v' ∧
      v' .appdata = none ∧ v' .appdataOld = none ∧ v' .appdataRestoreTemp = none := by
  refine ⟨_, .cons trivial (.cons trivial (.nil _)), ?_, ?_, ?_⟩
  · decide +kernel
  · decide +kernel
  · decide +kernel

end Backup
