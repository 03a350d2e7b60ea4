import KeyOS.Storage.DurableFile

/-!
# Durable files are never lost

The contents of a durable file are those under `path`, or those staged while `path` is
missing. A careful write leaves them as they are or replaces them by the new ones, and a
read returns them. So over every history of careful calls the file is a register whose
generations only grow.
-/

namespace Storage

open Exec Interrupt Interruptible
open Update (Bytes FsError Fault overwrite)
open Names

/-! ## 1. Contents -/

/-- The contents of the file. -/
def Names.current (v : Names) : Option Bytes := (v .path).or (v .staged)

theorem current_of_path {v : Names} {data : Bytes} (h : v .path = some data) :
    v.current = some data := by
  rw [Names.current, h, Option.some_or]

theorem current_of_missing {v : Names} (h : v .path = none) : v.current = v .staged := by
  rw [Names.current, h, Option.none_or]

/-- The scratch file is no part of the contents. -/
theorem current_scratch (v : Names) (x : Option Bytes) :
    (Names.current (Function.update v .scratch x)) = v.current := by
  rw [Names.current, Function.update_of_ne (by decide), Function.update_of_ne (by decide)]
  rfl

/-! ## 2. One write -/

theorem writeLen_pos (aligned : Bool) {len : Nat} (h : 0 < len) : 0 < writeLen aligned len := by
  unfold writeLen
  split
  · next hpage =>
    have hdiv : 0 < len / pageSize := Nat.div_pos hpage.2 (by decide)
    exact Nat.lt_min.mpr ⟨Nat.mul_pos hdiv (by decide), by decide⟩
  · exact Nat.lt_min.mpr ⟨h, by decide⟩

theorem writeLen_le (aligned : Bool) (len : Nat) : writeLen aligned len ≤ len := by
  unfold writeLen
  split
  · exact Nat.le_trans (Nat.min_le_left _ _) (Nat.div_mul_le_self len pageSize)
  · exact Nat.min_le_left _ _

section Write

variable {c : Option Bytes} {data : Bytes} {aligned : Bool}

theorem adopt_spec :
    Prog.Triple (fun d => d.contents.current = c ∧ Adopts d.fates d.contents)
      (attempt (rename .staged .path) : FileM (Except FsError Unit))
      (fun _ d => d.contents.current = c ∧
        (d.contents .path = none → (d.contents .staged).isSome → d.fates 0 ≠ .done))
      (fun _ d => d.contents.current = c) fun _ => True := by
  rintro ⟨v, fates⟩ ⟨hc, hadopts⟩
  unfold attempt rename step
  dsimp only at hc hadopts ⊢
  cases h0 : fates 0 with
  | powerLoss => exact hc
  | fault f => exact ⟨hc, fun hp hs => hadopts hp hs f h0⟩
  | done =>
    cases hs : v .staged with
    | none => exact ⟨hc, fun _ hsome => absurd (hs ▸ hsome : (none : Option Bytes).isSome) nofun⟩
    | some staged =>
      cases hp : v .path with
      | some old => exact ⟨hc, fun hnone => absurd (hp.symm.trans hnone) nofun⟩
      | none =>
        refine ⟨?_, fun hnone => ?_⟩
        · rw [← hc, current_of_missing hp, hs]
          rfl
        · cases hnone

theorem drop_spec :
    Prog.Triple (fun d => d.contents.current = c ∧
        (d.contents .path = none → (d.contents .staged).isSome → d.fates 0 ≠ .done))
      (attempt (remove .staged) : FileM (Except FsError Unit))
      (fun _ d => d.contents.current = c) (fun _ d => d.contents.current = c) fun _ => True := by
  rintro ⟨v, fates⟩ ⟨hc, hkeeps⟩
  unfold attempt remove step
  dsimp only at hc hkeeps ⊢
  cases h0 : fates 0 with
  | powerLoss => exact hc
  | fault f => exact hc
  | done =>
    cases hs : v .staged with
    | none => exact hc
    | some staged =>
      cases hp : v .path with
      | none => exact absurd h0 (hkeeps hp (by rw [hs]; rfl))
      | some old =>
        show Names.current (Function.update v .staged none) = c
        rw [← hc, current_of_path hp]
        exact current_of_path hp

theorem settle_spec :
    Prog.Triple (fun d => d.contents.current = c ∧ Adopts d.fates d.contents) settle
      (fun _ d => d.contents.current = c) (fun _ d => d.contents.current = c) fun _ => True :=
  Prog.Triple.bind adopt_spec fun _ => Prog.Triple.bind drop_spec fun _ =>
    Prog.Triple.pure fun _ => id

/-- A step that edits only the scratch file. -/
theorem scratch_spec {P Q : Option Bytes → Prop} {g : Option Bytes → Option Bytes}
    (h : ∀ x, P x → Q (g x)) :
    Spec (fun _ => True) (fun v => v.current = c ∧ P (v .scratch))
      (step Subtype.val fun v => .ok ((), Function.update v .scratch (g (v .scratch))) : FileM Unit)
      (fun _ v => v.current = c ∧ Q (v .scratch)) fun _ v => v.current = c := by
  refine Spec.step (fun v a v' hv hf => ?_) (fun _ _ hv _ => hv.1) (fun _ _ hv _ => hv.1)
    fun _ hv _ => hv.1
  cases hf
  refine ⟨(current_scratch v _).trans hv.1, ?_⟩
  rw [Function.update_self]
  exact h _ hv.2

theorem check_spec {P : Names → Prop} {Q : Names → Prop} (h : ∀ v, P v → Q v) :
    Spec (fun _ => True) P check (fun _ => P) fun _ => Q :=
  Spec.probe (fun _ _ hv _ => hv) (fun _ _ hv _ => h _ hv) (fun _ _ hv _ => h _ hv)
    fun _ hv _ => h _ hv

/-- The file starts with `written`. -/
def StartsWith (written : Bytes) (x : Option Bytes) : Prop :=
  ∃ content, x = some content ∧ content.take written.length = written

theorem StartsWith.write {written more : Bytes} {x : Option Bytes} (h : StartsWith written x) :
    StartsWith (written ++ more) (x.map fun content => overwrite content written.length more) := by
  obtain ⟨content, rfl, htake⟩ := h
  refine ⟨_, rfl, ?_⟩
  show List.take _ (overwrite content written.length more) = _
  rw [overwrite, htake]
  exact List.take_left

theorem writeLoop_spec (fuel : Nat) (rest written : Bytes) (hfuel : rest.length ≤ fuel) :
    Spec (fun _ => True) (fun v => v.current = c ∧ StartsWith written (v .scratch))
      (writeLoop .scratch aligned fuel written.length rest)
      (fun _ v => v.current = c ∧ StartsWith (written ++ rest) (v .scratch))
      fun _ v => v.current = c := by
  induction fuel generalizing rest written with
  | zero =>
    obtain rfl : rest = [] := List.length_eq_zero_iff.mp (Nat.le_zero.mp hfuel)
    rw [List.append_nil]
    exact Spec.pure fun _ => id
  | succ fuel ih =>
    cases rest with
    | nil =>
      rw [List.append_nil]
      exact Spec.pure fun _ => id
    | cons b rest =>
      have hpos := writeLen_pos aligned (List.length_pos_iff.mpr (List.cons_ne_nil b rest))
      have hle := writeLen_le aligned (b :: rest).length
      refine Spec.bind (scratch_spec fun x hx => StartsWith.write hx) fun _ => ?_
      have hlen : written.length + writeLen aligned (b :: rest).length =
          (written ++ (b :: rest).take (writeLen aligned (b :: rest).length)).length := by
        rw [List.length_append, List.length_take, Nat.min_eq_left hle]
      rw [hlen]
      refine (ih _ _ ?_).conseq (fun _ => id) (fun _ v hv => ?_) fun _ _ => id
      · rw [List.length_drop]
        omega
      · rwa [List.append_assoc, List.take_append_drop] at hv

theorem overwriteFile_spec :
    Spec (fun _ => True) (fun v => v.current = c ∧ (v .scratch).isSome)
      (overwriteFile .scratch aligned data)
      (fun _ v => v.current = c ∧ v .scratch = some data) fun _ v => v.current = c := by
  refine Spec.bind (check_spec fun _ hv => hv.1) fun _ => ?_
  refine Spec.bind ((writeLoop_spec data.length data [] (Nat.le_refl _)).pre fun v hv => ?_)
    fun _ => scratch_spec (P := StartsWith data) (Q := fun x => x = some data) ?_
  · obtain ⟨content, hcontent⟩ := Option.isSome_iff_exists.mp hv.2
    exact ⟨hv.1, content, hcontent, rfl⟩
  · rintro x ⟨content, rfl, htake⟩
    exact congrArg some htake

/-- Up to the commit the contents are the old ones. -/
theorem stage_spec :
    Spec (fun _ => True) (fun v => v.current = c) (stage aligned data)
      (fun _ v => v .staged = some data ∧ v .path = c) fun _ v => v.current = c := by
  refine Spec.bind (Q := fun _ v => v.current = c ∧ (v .scratch).isSome)
    ((scratch_spec (P := fun _ => True) (Q := fun x => x.isSome)
      (g := fun x => some (x.getD [])) fun _ _ => rfl).pre
      fun _ hv => ⟨hv, trivial⟩) fun _ => ?_
  refine Spec.bind overwriteFile_spec fun _ => ?_
  refine Spec.bind (Spec.mapErr (check_spec fun _ hv => hv.1)) fun _ => ?_
  refine Spec.step (fun v a v' hv hf => ?_) (fun _ _ hv _ => hv.1) (fun _ _ hv _ => hv.1)
    fun _ hv _ => hv.1
  rw [hv.2] at hf
  dsimp only at hf
  cases hs : v .staged with
  | some staged =>
    rw [hs] at hf
    cases hf
  | none =>
    rw [hs] at hf
    cases hf
    refine ⟨Function.update_self .., ?_⟩
    rw [Function.update_of_ne (by decide), Function.update_of_ne (by decide), ← hv.1, Names.current,
      hs, Option.or_none]

/-- The staged copy is complete, and the old contents are still there or gone. -/
def Committed (c : Option Bytes) (data : Bytes) (v : Names) : Prop :=
  v .staged = some data ∧ (v .path = c ∨ v .path = none)

theorem Committed.current {v : Names} (h : Committed c data v) :
    v.current = c ∨ v.current = some data := by
  cases hp : v .path with
  | none => exact .inr ((current_of_missing hp).trans h.1)
  | some old =>
    refine .inl ((current_of_path hp).trans ?_)
    rcases h.2 with hpath | hpath
    · exact hp.symm.trans hpath
    · rw [hp] at hpath
      cases hpath

theorem removeOld_spec :
    Spec (fun _ => True) (fun v => v .staged = some data ∧ v .path = c)
      (attempt (remove .path) : FileM (Except FsError Unit)) (fun _ => Committed c data)
      fun _ => Committed c data := by
  have hkept : ∀ v : Names, v .staged = some data ∧ v .path = c → Committed c data v :=
    fun v hv => ⟨hv.1, .inl hv.2⟩
  refine Spec.attempt (Spec.step (fun v a v' hv hf => ?_) (fun _ _ hv _ => hkept _ hv)
    (fun _ _ hv _ => hkept _ hv) fun _ hv _ => hkept _ hv)
  cases hp : v .path with
  | none =>
    rw [hp] at hf
    cases hf
  | some old =>
    rw [hp] at hf
    cases hf
    exact ⟨hv.1, .inr rfl⟩

theorem publish_spec :
    Spec (fun _ => True) (Committed c data) (rename .staged .path)
      (fun _ v => v.current = some data) fun _ => Committed c data := by
  refine Spec.step (fun v a v' hv hf => ?_) (fun _ _ hv _ => hv) (fun _ _ hv _ => hv)
    fun _ hv _ => hv
  rw [hv.1] at hf
  dsimp only at hf
  split at hf
  · cases hf
  · cases hf
    rfl

/-- A careful write that returns `Ok` has replaced the contents; one that does not has
replaced them or left them as they are. -/
theorem durableFileWrite_spec :
    Prog.Triple (fun d => d.contents.current = c ∧ Adopts d.fates d.contents)
      (durableFileWrite aligned data) (fun _ d => d.contents.current = some data)
      (fun _ d => d.contents.current = c ∨ d.contents.current = some data) fun _ => True := by
  have hrest : Spec (fun _ => True) (fun v : Names => v.current = c)
      (do
        stage aligned data
        let _ : Except FsError Unit ← attempt (remove .path)
        rename .staged .path)
      (fun _ v => v.current = some data) fun _ v => v.current = c ∨ v.current = some data := by
    refine Spec.bind (stage_spec.conseq (fun _ => id) (fun _ _ => id) fun _ _ hv => .inl hv)
      fun _ => ?_
    refine Spec.bind (removeOld_spec.conseq (fun _ => id) (fun _ _ => id)
      fun _ _ hv => hv.current) fun _ => ?_
    exact publish_spec.conseq (fun _ => id) (fun _ _ => id) fun _ _ hv => hv.current
  refine Prog.Triple.bind (settle_spec.conseq (fun _ => id) (fun _ _ => id)
    (fun _ _ hd => .inl hd) fun _ => id) fun _ => ?_
  exact Prog.Triple.conseq hrest (fun _ hd => ⟨fun _ => trivial, hd⟩) (fun _ _ hd => hd.2)
    (fun _ _ hd => hd.2) fun _ => id

end Write

/-! ## 3. One read -/

section Read

variable {v₀ : Names}

theorem readFile_spec (name : Name) :
    Spec (fun _ => True) (· = v₀) (readFile name) (fun data v => v = v₀ ∧ v₀ name = some data)
      fun e v => v = v₀ ∧ (e = .error .fileNotFound → v₀ name = none) := by
  refine Spec.bind (Q := fun _ v => v = v₀ ∧ (v₀ name).isSome) ?_ fun _ => Spec.mapErr ?_
  · refine Spec.probe (fun v a hv hf => ?_) (fun v e hv hf => ?_) (fun v f hv _ => ?_)
      fun v hv _ => ⟨hv, nofun⟩
    · subst hv
      cases hn : v name with
      | none =>
        rw [hn] at hf
        cases hf
      | some data => exact ⟨rfl, rfl⟩
    · subst hv
      cases hn : v name with
      | none => exact ⟨rfl, fun _ => rfl⟩
      | some data =>
        rw [hn] at hf
        cases hf
    · exact ⟨hv, fun he => absurd (Stop.error.inj he) f.2⟩
  · refine Spec.probe (fun v data hv hf => ?_) (fun _ _ _ hf => by cases hf)
      (fun v _ hv _ => ⟨hv.1, nofun⟩) fun v hv _ => ⟨hv.1, nofun⟩
    obtain ⟨content, hcontent⟩ := Option.isSome_iff_exists.mp hv.2
    cases hf
    rw [hv.1, hcontent]
    exact ⟨rfl, rfl⟩

/-- A read returns the contents, and finds no file only when there are none. -/
theorem durableFileRead_spec :
    Spec (fun _ => True) (· = v₀) durableFileRead
      (fun data v => v = v₀ ∧ v₀.current = some data)
      fun e v => v = v₀ ∧ (e = .error .fileNotFound → v₀.current = none) := by
  refine Spec.bind (Q := fun result v => v = v₀ ∧ match result with
    | .ok data => v₀ .path = some data
    | .error e => e = .fileNotFound → v₀ .path = none) (Spec.attempt ((readFile_spec .path).conseq
      (fun _ => id) (fun _ _ => id) fun e v hv => ?_)) fun result => ?_
  · cases e with
    | powerLoss => exact ⟨hv.1, nofun⟩
    | halt message => exact ⟨hv.1, nofun⟩
    | error e => exact ⟨hv.1, fun he => hv.2 (congrArg Stop.error he)⟩
  · cases result with
    | ok data => exact Spec.pure fun v hv => ⟨hv.1, current_of_path hv.2⟩
    | error e =>
      have hother : e ≠ .fileNotFound → Spec (fun _ => True) (fun v => v = v₀ ∧
          (e = .fileNotFound → v₀ .path = none)) (throw e : FileM Bytes)
          (fun data v => v = v₀ ∧ v₀.current = some data)
          fun e v => v = v₀ ∧ (e = .error .fileNotFound → v₀.current = none) := fun hne =>
        Spec.throw fun v hv => ⟨hv.1, fun he => absurd (Stop.error.inj he) hne⟩
      by_cases he : e = .fileNotFound
      · subst he
        intro d hd
        have hmissing : v₀ .path = none := hd.2.2 rfl
        refine Spec.conseq (readFile_spec .staged) (fun v hv => hv.1) (fun data v hv => ?_)
          (fun e v hv => ?_) d hd
        · exact ⟨hv.1, (current_of_missing hmissing).trans hv.2⟩
        · exact ⟨hv.1, fun he => (current_of_missing hmissing).trans (hv.2 he)⟩
      · cases e <;> first | exact absurd rfl he | exact hother he

end Read

/-! ## 4. Histories -/

/-- The contents are those of a generation from `floor` on, or nothing has been written. -/
def Holds (writes : List Bytes) (floor : Nat) (v : Names) : Prop :=
  (floor = 0 ∧ v.current = none) ∨
  ∃ generation data, floor ≤ generation ∧ 0 < generation ∧ writes[generation - 1]? = some data ∧
    v.current = some data

theorem Holds.write {writes : List Bytes} {floor : Nat} {v v' : Names} (h : Holds writes floor v)
    (data : Bytes) (hv : v'.current = v.current) : Holds (writes ++ [data]) floor v' := by
  rcases h with ⟨hfloor, hnone⟩ | ⟨g, old, hfloor, hpos, hget, hcurrent⟩
  · exact .inl ⟨hfloor, hv.trans hnone⟩
  · refine .inr ⟨g, old, hfloor, hpos, ?_, hv.trans hcurrent⟩
    exact List.getElem?_append_left (List.getElem?_eq_some_iff.mp hget).1 ▸ hget

/-- The newest generation. -/
theorem holds_newest (writes : List Bytes) {data : Bytes} {floor : Nat} {v : Names}
    (hfloor : floor ≤ writes.length + 1) (hv : v.current = some data) :
    Holds (writes ++ [data]) floor v :=
  .inr ⟨writes.length + 1, data, hfloor, Nat.succ_pos _, List.getElem?_concat_length, hv⟩

theorem Holds.floor_le {writes : List Bytes} {floor : Nat} {v : Names}
    (h : Holds writes floor v) : floor ≤ writes.length := by
  rcases h with ⟨rfl, -⟩ | ⟨g, old, hfloor, hpos, hget, -⟩
  · exact Nat.zero_le _
  · have := (List.getElem?_eq_some_iff.mp hget).1
    omega

/-- A careful call is one that the register allows, and the file holds a generation from the
new floor on. -/
theorem call_durable {writes : List Bytes} {floor : Nat} {v : Names} {call : Call}
    (h : Holds writes floor v) (hc : call.Careful v) {events : List Event}
    (hrest : ∀ writes' floor', Holds writes' floor' (call.run v).2 →
      Durable writes' floor' events) :
    Durable writes floor ((call.run v).1 :: events) := by
  cases call with
  | write aligned data fates =>
    have hspec : Prog.Triple (fun d : Device Names Fault => d.contents.current = v.current ∧
        Adopts d.fates d.contents) (durableFileWrite aligned data)
        (fun _ d => d.contents.current = some data)
        (fun _ d => d.contents.current = v.current ∨ d.contents.current = some data) _ :=
      durableFileWrite_spec
    have hrun := hspec ⟨v, fates⟩ ⟨rfl, hc⟩
    change ∀ writes' floor', Holds writes' floor'
      (durableFileWrite aligned data ⟨v, fates⟩).2.contents → Durable writes' floor' events at hrest
    show Durable (writes ++ [data])
      (if (resultOf (durableFileWrite aligned data ⟨v, fates⟩).1).isOk then writes.length + 1
        else floor) events
    revert hrun hrest
    rcases durableFileWrite aligned data ⟨v, fates⟩ with ⟨o, d⟩
    cases o with
    | ok _ =>
      intro hcurrent hrest
      exact hrest _ _ (holds_newest writes (Nat.le_refl _) hcurrent)
    | err e =>
      rintro (hcurrent | hcurrent) hrest
      · exact hrest _ _ (h.write data hcurrent)
      · exact hrest _ _ (holds_newest writes (Nat.le_succ_of_le h.floor_le) hcurrent)
    | panic p => exact p.elim
  | read fates =>
    have hspec : Spec (fun _ => True) (· = v) durableFileRead _ _ := durableFileRead_spec
    have hrun := hspec ⟨v, fates⟩ ⟨fun _ => trivial, rfl⟩
    change ∀ writes' floor', Holds writes' floor' (durableFileRead ⟨v, fates⟩).2.contents →
      Durable writes' floor' events at hrest
    show Durable writes floor (.read (resultOf (durableFileRead ⟨v, fates⟩).1) :: events)
    revert hrun hrest
    rcases durableFileRead ⟨v, fates⟩ with ⟨o, d⟩
    cases o with
    | ok data =>
      rintro ⟨-, hsame, hcurrent⟩ hrest
      rcases h with ⟨-, hnone⟩ | ⟨g, old, hfloor, hpos, hget, hold⟩
      · rw [hnone] at hcurrent
        cases hcurrent
      · rw [hold] at hcurrent
        cases hcurrent
        refine ⟨g, hfloor, hpos, hget, hrest _ _ (.inr ⟨g, _, Nat.le_refl g, hpos, hget, ?_⟩)⟩
        exact hsame ▸ hold
    | err e =>
      rintro ⟨-, hsame, hmissing⟩ hrest
      refine ⟨fun he => ?_, hrest _ _ (hsame ▸ h)⟩
      rcases h with ⟨hfloor, -⟩ | ⟨g, old, -, -, -, hold⟩
      · exact hfloor
      · rw [hmissing he] at hold
        cases hold
    | panic p => exact p.elim

theorem calls_durable {writes : List Bytes} {floor : Nat} {v : Names} {calls : List Call}
    (h : Holds writes floor v) (hc : Careful v calls) : Durable writes floor (events v calls) := by
  induction calls generalizing v writes floor with
  | nil => trivial
  | cons call calls ih =>
    exact call_durable h hc.1 fun _ _ hnext => ih hnext hc.2

/-- Over every history of careful calls, with a failure or a loss of power at any step: a read
returns the contents of a generation no older than the last write that returned `Ok` and no
older than any that has been read before, and finds no file only before the first of them. -/
theorem durable_file_never_lost {v : Names} {calls : List Call} (hpath : v .path = none)
    (hstaged : v .staged = none) (hc : Careful v calls) : Durable [] 0 (events v calls) :=
  calls_durable (.inl ⟨rfl, (current_of_missing hpath).trans hstaged⟩) hc

/-! ## 5. A staged copy that is dropped -/

def noFile : Names := fun _ => none

def allDone : Nat → Fate Fault := fun _ => .done

def powerLossAt (n : Nat) : Nat → Fate Fault := fun k => if k = n then .powerLoss else .done

theorem durable_file_never_lost_one :
    Durable [] 0 [.wrote [1] true, .wrote [2] false, .read (.ok [2])] :=
  @durable_file_never_lost noFile [.write false [1] allDone, .write false [2] (powerLossAt 9),
    .read allDone] rfl rfl
    ⟨fun _ h => absurd h (by decide), fun h => absurd h (by decide), trivial, trivial⟩

/-- The power goes when only the staged copy is left. The next write fails to rename it,
removes it, and loses the power in its turn. -/
def lostHistory : List Call :=
  [.write false [1] allDone, .write false [2] (powerLossAt 9),
    .write false [3] fun n => match n with
      | 0 => .fault ⟨.io, by decide⟩
      | 1 => .done
      | _ => .powerLoss,
    .read allDone]

theorem staged_copy_dropped : ¬ Durable [] 0 (events noFile lostHistory) := by
  have hevents : events noFile lostHistory = [.wrote [1] true, .wrote [2] false,
    .wrote [3] false, .read (.error (.error .fileNotFound))] := rfl
  rw [hevents]
  rintro ⟨hzero, -⟩
  exact absurd (hzero rfl) (by decide)

end Storage
