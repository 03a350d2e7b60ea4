import KeyOS.Update.FirmwareSwap

/-!
# The swap survives any number of resets

Three layouts are found and closed under every interruption: the new firmware is staged,
`keyos` is away, the firmware is swapped. In each of them the bootloader finds a complete
tree, the fix-up can restore `keyos`, and `finalize_update` can go on.
-/

namespace Update

open Exec Interrupt Interruptible

variable {F : Fate Fault → Prop} {I : Volume → Prop} {old new : Dir}

/-! ## 1. The file system calls -/

theorem blamed_fs {e : Stop FsError} (h : Blamed F e) : Blamed F (e.map Error.fs) := by
  cases e <;> exact h

section Calls

variable {σ α : Type} {P : σ → Prop} {Q : α → σ → Prop}

/-- The rule of a step that has no error of its own. -/
theorem step_spec {f : σ → Except FsError (α × σ)}
    (h : ∀ s, P s → ∃ a s', f s = .ok (a, s') ∧ Q a s') :
    Spec F P (step Subtype.val f) Q fun e s => Blamed F e ∧ P s := by
  refine Spec.step (fun s a s' hP hf => ?_) (fun s e hP hf => ?_)
    (fun s x hP hF => ⟨⟨x, hF⟩, hP⟩) fun s hP hF => ⟨hF, hP⟩
  · obtain ⟨b, t, hb, hQ⟩ := h s hP
    rw [hf] at hb
    cases hb
    exact hQ
  · obtain ⟨b, t, hb, -⟩ := h s hP
    rw [hf] at hb
    cases hb

theorem check_spec : Spec F P check (fun _ => P) fun e s => Blamed F e ∧ P s :=
  Spec.probe (fun _ _ hP _ => hP) (fun _ _ _ h => nomatch h)
    (fun _ x hP hF => ⟨⟨x, hF⟩, hP⟩) fun _ hP hF => ⟨hF, hP⟩

end Calls

theorem removeFirst_spec (d first : Dir) (h : first.removeFirst = .ok ((), d)) :
    Spec F (· = first) (step Subtype.val Dir.removeFirst) (fun _ => (· = d))
      fun e _ => Blamed F e :=
  (step_spec fun _ hs => ⟨(), d, hs ▸ h, rfl⟩).conseq (fun _ => id) (fun _ _ => id)
    fun _ _ he => he.1

/-- A removal that comes to its end leaves nothing; one that does not was stopped. -/
theorem recursivelyRemoveContents_spec (d : Dir) :
    Spec F (· = d) (recursivelyRemoveContents d) (fun _ => (· = .nil))
      fun e _ => Blamed F e := by
  have hcheck : ∀ d : Dir, Spec F (· = d) check (fun _ => (· = d)) fun e _ => Blamed F e :=
    fun d => check_spec.conseq (fun _ => id) (fun _ _ => id) fun _ _ he => he.1
  induction d with
  | nil => exact hcheck .nil
  | file name data rest ih =>
    refine Spec.bind (hcheck _) fun _ => ?_
    exact Spec.bind (removeFirst_spec rest _ rfl) fun _ => ih
  | dir name contents rest ihContents ih =>
    refine Spec.bind (hcheck _) fun _ => ?_
    refine Spec.bind (Q := fun _ => (· = .dir name .nil rest)) ?_ fun _ => ?_
    · refine Spec.within (R := (· = .dir name contents rest)) ihContents
        (fun s hs => ⟨by rw [hs]; rfl, hs⟩) (fun _ s t hs ht => ?_) fun e _ _ _ he => he
      rw [hs, ht]
      rfl
    · exact Spec.bind (removeFirst_spec rest _ rfl) fun _ => ih

/-- The predicate `I` says nothing about `name`. -/
def Ignores (name : TopDir) (I : Volume → Prop) : Prop :=
  ∀ v d, I v → I (Function.update v name d)

theorem ignores_entry (other : TopDir) {name : TopDir} (hne : other ≠ name) (d : Option Dir) :
    Ignores name fun v => v other = d := by
  intro v e hv
  rw [Function.update_of_ne hne]
  exact hv

theorem removeContentsOf_spec {name : TopDir} (hI : Ignores name I) (d : Dir) :
    Spec F (fun v => I v ∧ v name = some d) (removeContentsOf name d)
      (fun _ v => I v ∧ v name = some .nil) fun e v => Blamed F e ∧ I v := by
  refine Spec.within (R := I) (recursivelyRemoveContents_spec d)
    (fun v hv => ⟨by rw [hv.2]; rfl, hv.1⟩) (fun _ v t hv ht => ⟨hI v _ hv, ?_⟩)
    fun e v t hv he => ⟨he, hI v _ hv⟩
  rw [Function.update_self, ht]

theorem removeDir_spec {name : TopDir} (hI : Ignores name I) :
    Spec F (fun v => I v ∧ v name = some .nil) (removeDir name)
      (fun _ v => I v ∧ v name = none) fun e v => Blamed F e ∧ I v :=
  (step_spec fun v hv => ⟨(), Function.update v name none, by rw [hv.2],
    hI v _ hv.1, Function.update_self ..⟩).conseq (fun _ => id) (fun _ _ => id)
    fun _ _ he => ⟨he.1, he.2.1⟩

/-- After a fault the directory may still have entries, and then its removal fails. -/
theorem removeDir_faulted {name : TopDir} (hI : Ignores name I) (h : ∃ x, F (.fault x)) :
    Spec F I (removeDir name) (fun _ v => I v ∧ v name = none) fun e v => Blamed F e ∧ I v := by
  refine Spec.step (fun v a v' hv hf => ?_) (fun v e hv _ => ⟨h, hv⟩) (fun v _ hv _ => ⟨h, hv⟩)
    fun v hv hF => ⟨hF, hv⟩
  cases hd : v name with
  | none =>
    rw [hd] at hf
    cases hf
  | some d =>
    rw [hd] at hf
    cases d with
    | nil =>
      cases hf
      exact ⟨hI v none hv, Function.update_self ..⟩
    | file _ _ _ => cases hf
    | dir _ _ _ => cases hf

/-- `open_dir` whose error is looked at. A directory that is not found is not there. -/
theorem attempt_openDir_spec {ε : Type} (name : TopDir) :
    Spec F I (attempt (openDir name) : Interruptible Volume Fault ε (Except FsError Dir))
      (fun found v => I v ∧ match found with
        | .ok d => v name = some d
        | .error .fileNotFound => v name = none
        | .error _ => ∃ x, F (.fault x))
      fun e v => I v ∧ Blamed F e := by
  refine Spec.attempt (Spec.probe (fun v d hI h => ⟨hI, ?_⟩) (fun v e hI h => ⟨hI, ?_⟩)
    (fun v x hI hF => ⟨hI, ?_⟩) fun v hI hF => ⟨hI, hF⟩)
  · cases hv : v name with
    | none =>
      rw [hv] at h
      cases h
    | some d' =>
      rw [hv] at h
      cases h
      rfl
  · cases hv : v name with
    | none =>
      rw [hv] at h
      cases h
      rfl
    | some d' =>
      rw [hv] at h
      cases h
  · obtain ⟨e, he⟩ := x
    cases e with
    | fileNotFound => exact absurd rfl he
    | _ => exact ⟨_, hF⟩

theorem pathExists_spec (name : TopDir) :
    Spec F I (pathExists name) (fun found v => I v ∧ found = (v name).isSome)
      fun e v => I v ∧ Blamed F e := by
  refine Spec.bind (attempt_openDir_spec name) fun found => ?_
  cases found with
  | ok d => exact Spec.pure fun v hv => ⟨hv.1, by rw [hv.2]; rfl⟩
  | error e =>
    cases e with
    | fileNotFound => exact Spec.pure fun v hv => ⟨hv.1, by rw [hv.2]; rfl⟩
    | _ => exact Spec.throw fun v hv => ⟨hv.1, hv.2⟩

theorem renameDir_spec (source target : TopDir) {d : Dir} (hne : source ≠ target)
    (hI : Ignores source I) (hI' : Ignores target I) :
    Spec F (fun v => I v ∧ v source = some d ∧ v target = none) (renameDir source target)
      (fun _ v => I v ∧ v source = none ∧ v target = some d)
      fun e v => Blamed F e ∧ I v ∧ v source = some d ∧ v target = none := by
  refine step_spec fun v ⟨hv, hs, ht⟩ => 
    ⟨(), Function.update (Function.update v source none) target (some d), ?_,
      hI' _ _ (hI v none hv), ?_, ?_⟩
  · rw [hs]
    dsimp only
    rw [if_neg hne, ht]
    rfl
  · rw [Function.update_of_ne hne, Function.update_self]
  · rw [Function.update_self]

/-- The `Rename` request, for a stop that may come before or after the rename. -/
theorem rename_spec {source target : TopDir} {d : Dir} (hne : source ≠ target)
    (hI : Ignores source I) (hI' : Ignores target I) :
    Spec F (fun v => I v ∧ v source = some d ∧ v target = none)
      (mapErr Error.fs (rename source target))
      (fun _ v => I v ∧ v source = none ∧ v target = some d)
      fun e v => Blamed F e ∧ I v ∧
        (v source = some d ∧ v target = none ∨ v source = none ∧ v target = some d) := by
  refine Spec.mapErr (Spec.bind (check_spec.conseq (fun _ => id) (fun _ _ => id) ?_) fun _ =>
    Spec.bind ((renameDir_spec source target hne hI hI').conseq (fun _ => id) (fun _ _ => id) ?_)
      fun _ => check_spec.conseq (fun _ => id) (fun _ _ => id) ?_)
  · exact fun e v ⟨he, hv, hd⟩ => ⟨blamed_fs he, hv, .inl hd⟩
  · exact fun e v ⟨he, hv, hd⟩ => ⟨blamed_fs he, hv, .inl hd⟩
  · exact fun e v ⟨he, hv, hd⟩ => ⟨blamed_fs he, hv, .inr hd⟩

/-- The `Remove` request for a directory that is there. -/
theorem remove_spec {name : TopDir} (hI : Ignores name I) :
    Spec F (fun v => I v ∧ (v name).isSome) (mapErr Error.fs (remove name))
      (fun _ v => I v ∧ v name = none) fun e v => Blamed F e ∧ I v := by
  refine Spec.mapErr ?_
  refine Spec.bind (check_spec.conseq (fun _ => id) (fun _ _ => id) ?_) fun _ => ?_
  · exact fun e v ⟨he, hv, _⟩ => ⟨blamed_fs he, hv⟩
  refine Spec.bind (Q := fun _ v => I v ∧ v name = none) ?_ fun _ => ?_
  · refine Spec.bind ((attempt_openDir_spec name).conseq (fun _ => id) (fun _ _ => id) ?_)
      fun opened => ?_
    · exact fun e v ⟨hv, he⟩ => ⟨blamed_fs he, hv.1⟩
    cases opened with
    | ok d =>
      refine Spec.bind ((removeContentsOf_spec hI d).conseq (fun v hv => ⟨hv.1.1, hv.2⟩)
        (fun _ _ => id) ?_) fun _ => (removeDir_spec hI).conseq (fun _ => id) (fun _ _ => id) ?_
      · exact fun e v ⟨he, hv⟩ => ⟨blamed_fs he, hv⟩
      · exact fun e v ⟨he, hv⟩ => ⟨blamed_fs he, hv⟩
    | error e =>
      have hremove (h : ∃ x, F (.fault x)) : Spec F (fun v => I v ∧ (v name).isSome)
          (removeDir name) (fun _ v => I v ∧ v name = none) fun e v =>
            Blamed F (e.map Error.fs) ∧ I v :=
        (removeDir_faulted hI h).conseq (fun v hv => hv.1) (fun _ _ => id)
          fun e v ⟨he, hv⟩ => ⟨blamed_fs he, hv⟩
      cases e with
      | fileNotFound =>
        rintro d ⟨-, ⟨-, hsome⟩, hnone⟩
        rw [hnone] at hsome
        cases hsome
      | _ => exact (Spec.assume hremove).pre fun v hv => ⟨hv.2, hv.1⟩
  · exact check_spec.conseq (fun _ => id) (fun _ _ => id) fun e v ⟨he, hv⟩ => ⟨blamed_fs he, hv.1⟩

/-! ## 2. The layouts of a swap -/

/-- The new firmware is complete, the old one is in its place. -/
structure Staged (old new : Dir) (v : Volume) : Prop where
  keyos : v .keyos = some old
  update : v .keyosUpdate = some new
  noOld : v .keyosOld = none

/-- The old firmware is away, the new one is not yet in its place. -/
structure Between (old new : Dir) (v : Volume) : Prop where
  noKeyos : v .keyos = none
  update : v .keyosUpdate = some new
  old : v .keyosOld = some old

/-- The new firmware is in its place. Of the old one any part may be left. -/
structure Swapped (new : Dir) (v : Volume) : Prop where
  keyos : v .keyos = some new
  noUpdate : v .keyosUpdate = none

/-- Nothing of the old firmware is left. -/
structure Finished (new : Dir) (v : Volume) : Prop extends Swapped new v where
  noOld : v .keyosOld = none

/-- The layouts that a swap of `old` for `new` goes through. -/
inductive Layout (old new : Dir) (v : Volume) : Prop where
  | staged (h : Staged old new v)
  | between (h : Between old new v)
  | swapped (h : Swapped new v)

theorem swapped_ignores : Ignores .keyosOld (Swapped new) := fun v d h =>
  ⟨ignores_entry _ (by decide) _ v d h.keyos, ignores_entry _ (by decide) _ v d h.noUpdate⟩

/-! ## 3. `finalize_update` -/

/-- The second half of a swap. -/
theorem rename_update_spec :
    Spec F (Between old new) (mapErr Error.fs (rename .keyosUpdate .keyos))
      (fun _ v => Swapped new v ∧ v .keyosOld = some old)
      fun e v => Blamed F e ∧ Layout old new v := by
  refine (rename_spec (d := new) (by decide) (ignores_entry .keyosOld (by decide) (some old))
    (ignores_entry .keyosOld (by decide) (some old))).conseq
    (fun v h => ⟨h.old, h.update, h.noKeyos⟩) (fun _ v ⟨ho, hu, hk⟩ => ⟨⟨hk, hu⟩, ho⟩) ?_
  rintro e v ⟨he, ho, ⟨hu, hk⟩ | ⟨hu, hk⟩⟩
  · exact ⟨he, .between ⟨hk, hu, ho⟩⟩
  · exact ⟨he, .swapped ⟨hk, hu⟩⟩

/-- The first half of a swap. -/
theorem rename_keyos_spec :
    Spec F (Staged old new) (mapErr Error.fs (rename .keyos .keyosOld))
      (fun _ => Between old new) fun e v => Blamed F e ∧ Layout old new v := by
  refine (rename_spec (d := old) (by decide) (ignores_entry .keyosUpdate (by decide) (some new))
    (ignores_entry .keyosUpdate (by decide) (some new))).conseq
    (fun v h => ⟨h.update, h.keyos, h.noOld⟩) (fun _ v ⟨hu, hk, ho⟩ => ⟨hk, hu, ho⟩) ?_
  rintro e v ⟨he, hu, ⟨hk, ho⟩ | ⟨hk, ho⟩⟩
  · exact ⟨he, .staged ⟨hk, hu, ho⟩⟩
  · exact ⟨he, .between ⟨hk, hu, ho⟩⟩

theorem remove_old_spec :
    Spec F (fun v => Swapped new v ∧ (v .keyosOld).isSome) (mapErr Error.fs (remove .keyosOld))
      (fun _ => Finished new) fun e v => Blamed F e ∧ Swapped new v :=
  (remove_spec swapped_ignores).conseq (fun _ => id) (fun _ _ ⟨hv, ho⟩ => ⟨hv, ho⟩) fun _ _ => id

/-- `finalize_update` from contents in `P`, which say which of the directories exist. -/
theorem finalizeUpdate_known {P : Volume → Prop} {Q : Unit → Volume → Prop}
    {E : Stop Error → Volume → Prop} (keyosExists updateExists oldExists : Bool)
    (hkeyos : ∀ v, P v → (v .keyos).isSome = keyosExists)
    (hupdate : ∀ v, P v → (v .keyosUpdate).isSome = updateExists)
    (hold : ∀ v, P v → (v .keyosOld).isSome = oldExists)
    (hE : ∀ e v, Blamed F e ∧ P v → E e v)
    (h : Spec F P (swapDirs keyosExists updateExists oldExists) Q E) :
    Spec F P finalizeUpdate Q E := by
  have hpath : ∀ name b, (∀ v, P v → (v name).isSome = b) →
      Spec F P (pathExists name) (fun found v => found = b ∧ P v) E := fun name b hb =>
    (pathExists_spec name).conseq (fun _ => id) (fun _ v hv => ⟨hv.2.trans (hb v hv.1), hv.1⟩)
      fun e v hv => hE e v hv.symm
  refine Spec.bind (Q := fun _ => P) ?_ fun _ => ?_
  · refine Spec.mapErr (check_spec.conseq (fun _ => id) (fun _ _ => id) fun e v hv => ?_)
    exact hE _ v ⟨blamed_fs hv.1, hv.2⟩
  refine Spec.bind (hpath .keyos _ hkeyos) fun _ => Spec.assume fun hk => ?_
  refine Spec.bind (hpath .keyosUpdate _ hupdate) fun _ => Spec.assume fun hu => ?_
  refine Spec.bind (hpath .keyosOld _ hold) fun _ => Spec.assume fun ho => ?_
  rw [hk, hu, ho]
  exact h

/-- The end of a swap: the removal of what is left of the old firmware. -/
theorem remove_left_spec {P : Volume → Prop}
    (hP : ∀ v, P v → Swapped new v ∧ (v .keyosOld).isSome) :
    Spec F P (mapErr Error.fs (remove .keyosOld)) (fun _ => Finished new)
      fun e v => Blamed F e ∧ Layout old new v :=
  remove_old_spec.conseq hP (fun _ _ => id) fun _ _ h => ⟨h.1, .swapped h.2⟩

theorem finalizeUpdate_staged :
    Spec F (Staged old new) finalizeUpdate (fun _ => Finished new)
      fun e v => Blamed F e ∧ Layout old new v := by
  refine finalizeUpdate_known true true false
    (fun v h => h.keyos ▸ rfl) (fun v h => h.update ▸ rfl) (fun v h => h.noOld ▸ rfl)
    (fun e v h => ⟨h.1, .staged h.2⟩) ?_
  refine Spec.bind (Spec.skipped (by intro h; cases h)) fun _ => ?_
  refine Spec.bind (Q := fun _ => Between old new) (Spec.taken rfl ?_) fun _ => ?_
  · exact Spec.bind (Spec.skipped (by intro h; cases h)) fun _ => rename_keyos_spec
  refine Spec.bind (Spec.taken rfl rename_update_spec) fun _ => ?_
  exact Spec.taken rfl (remove_left_spec fun v h => ⟨h.1, h.2 ▸ rfl⟩)

theorem finalizeUpdate_between :
    Spec F (Between old new) finalizeUpdate (fun _ => Finished new)
      fun e v => Blamed F e ∧ Layout old new v := by
  refine finalizeUpdate_known false true true
    (fun v h => h.noKeyos ▸ rfl) (fun v h => h.update ▸ rfl) (fun v h => h.old ▸ rfl)
    (fun e v h => ⟨h.1, .between h.2⟩) ?_
  refine Spec.bind (Spec.skipped nofun) fun _ => ?_
  refine Spec.bind (Spec.skipped nofun) fun _ => ?_
  refine Spec.bind (Spec.taken rfl rename_update_spec) fun _ => ?_
  exact Spec.taken rfl (remove_left_spec fun v h => ⟨h.1, h.2 ▸ rfl⟩)

theorem finalizeUpdate_left :
    Spec F (fun v => Swapped new v ∧ (v .keyosOld).isSome) finalizeUpdate
      (fun _ => Finished new) fun e v => Blamed F e ∧ Layout old new v := by
  refine finalizeUpdate_known true false true
    (fun v h => h.1.keyos ▸ rfl) (fun v h => h.1.noUpdate ▸ rfl) (fun v h => h.2)
    (fun e v h => ⟨h.1, .swapped h.2.1⟩) ?_
  refine Spec.bind (Spec.skipped (by intro h; cases h)) fun _ => ?_
  refine Spec.bind (Spec.skipped (by intro h; cases h)) fun _ => ?_
  refine Spec.bind (Spec.skipped (by intro h; cases h)) fun _ => ?_
  exact Spec.taken rfl (remove_left_spec fun v => id)

/-- A finished swap has nothing left to do. -/
theorem finalizeUpdate_finished :
    Spec F (Finished new) finalizeUpdate (fun _ => Finished new)
      fun e v => Blamed F e ∧ Finished new v := by
  refine finalizeUpdate_known true false false
    (fun v h => h.keyos ▸ rfl) (fun v h => h.noUpdate ▸ rfl) (fun v h => h.noOld ▸ rfl)
    (fun _ _ => id) ?_
  refine Spec.bind (Spec.skipped (by intro h; cases h)) fun _ => ?_
  refine Spec.bind (Spec.skipped (by intro h; cases h)) fun _ => ?_
  refine Spec.bind (Spec.skipped (by intro h; cases h)) fun _ => ?_
  exact Spec.skipped (by intro h; cases h)

/-- From every layout of the swap, `finalize_update` brings the swap to its end unless it
is interrupted, and then it leaves a layout of the swap. -/
theorem finalizeUpdate_spec :
    Spec F (Layout old new) finalizeUpdate (fun _ => Finished new)
      fun e v => Blamed F e ∧ Layout old new v := by
  rintro d ⟨hF, h⟩
  cases h with
  | staged h => exact finalizeUpdate_staged d ⟨hF, h⟩
  | between h => exact finalizeUpdate_between d ⟨hF, h⟩
  | swapped h =>
    cases hold : d.contents .keyosOld with
    | some left => exact finalizeUpdate_left d ⟨hF, h, hold ▸ rfl⟩
    | none =>
      exact (finalizeUpdate_finished.conseq (fun _ => id) (fun _ _ => id)
        fun e v he => ⟨he.1, .swapped he.2.toSwapped⟩) d ⟨hF, h, hold⟩

/-! ## 4. The fix-up -/

theorem removeOld_spec (hI : Ignores .keyosOld I) :
    Spec F I removeOld (fun _ v => I v ∧ (v .keyosOld = none ∨ ∃ x, F (.fault x)))
      fun e v => Blamed F e ∧ I v := by
  refine Spec.bind ((attempt_openDir_spec .keyosOld).conseq (fun _ => id) (fun _ _ => id)
    fun e v h => h.symm) fun opened => ?_
  cases opened with
  | error e =>
    refine Spec.pure fun v hv => ⟨hv.1, ?_⟩
    cases e with
    | fileNotFound => exact .inl hv.2
    | _ => exact .inr hv.2
  | ok old =>
    refine Spec.bind (Spec.attempt_blamed (removeContentsOf_spec hI old)) fun emptied => ?_
    cases emptied with
    | error e => exact Spec.pure fun v hv => ⟨hv.2, .inr hv.1⟩
    | ok u =>
      refine Spec.bind (Spec.attempt_blamed (removeDir_spec hI)) fun removed => ?_
      refine Spec.bind (Q := fun _ v => I v ∧ (v .keyosOld = none ∨ ∃ x, F (.fault x))) ?_
        fun _ => ?_
      · have hgone : ∀ v, Attempted F (fun _ v => I v ∧ v .keyosOld = none) I removed v →
            I v ∧ (v .keyosOld = none ∨ ∃ x, F (.fault x)) := by
          intro v hv
          cases removed with
          | ok u => exact ⟨hv.1, .inl hv.2⟩
          | error e => exact ⟨hv.2, .inr hv.1⟩
        refine (Spec.attempt_blamed check_spec).conseq hgone ?_ fun _ _ he => ⟨he.1, he.2.1⟩
        rintro (e | u) v hv
        · exact hv.2
        · exact hv
      cases removed with
      | error e => exact Spec.pure fun _ => id
      | ok u => exact Spec.pure fun _ => id

/-- There is nothing to remove. -/
theorem removeOld_none :
    Spec F (fun v => I v ∧ v .keyosOld = none) removeOld
      (fun _ v => I v ∧ v .keyosOld = none) fun e v => Blamed F e ∧ I v ∧ v .keyosOld = none := by
  refine Spec.bind ((attempt_openDir_spec .keyosOld).conseq (fun _ => id) (fun _ _ => id)
    fun e v h => h.symm) fun opened => ?_
  cases opened with
  | error e => exact Spec.pure fun v hv => hv.1
  | ok old =>
    rintro d ⟨-, ⟨-, hnone⟩, hsome⟩
    rw [hnone] at hsome
    cases hsome

/-- With `keyos` in its place the fix-up leaves it there. -/
theorem recoverKeyos_kept (hI : ∀ v, I v → (v .keyos).isSome) :
    Spec F I recoverKeyos (fun _ => I) fun e v => Blamed F e ∧ I v := by
  refine Spec.bind ((attempt_openDir_spec .keyos).conseq (fun _ => id) (fun _ _ => id)
    fun e v h => h.symm) fun opened => ?_
  cases opened with
  | ok d => exact Spec.pure fun v hv => hv.1
  | error e =>
    -- A fault hides the directory. The rename then fails, since `keyos` is there.
    have hfault : ∀ v, I v ∧ (match (.error e : Except FsError Dir) with
        | .ok d => v .keyos = some d
        | .error .fileNotFound => v .keyos = none
        | .error _ => ∃ x, F (.fault x)) → (∃ x, F (.fault x)) ∧ I v := by
      rintro v ⟨hv, h⟩
      cases e with
      | fileNotFound =>
        have hsome := hI v hv
        rw [h] at hsome
        cases hsome
      | _ => exact ⟨h, hv⟩
    refine Spec.pre (Spec.assume fun hF => ?_) hfault
    refine Spec.bind (Q := fun renamed v => (∃ e, renamed = .error e) ∧ I v) ?_ fun renamed => ?_
    · refine Spec.attempt (Spec.step (fun v a v' hv hf => ?_) (fun v e hv _ => ⟨⟨e, rfl⟩, hv⟩)
        (fun v x hv _ => ⟨⟨x.1, rfl⟩, hv⟩) fun v hv hF => ⟨hF, hv⟩)
      cases hs : v .keyosUpdate with
      | none =>
        rw [hs] at hf
        cases hf
      | some d =>
        rw [hs] at hf
        dsimp only at hf
        rw [if_neg (by decide), if_pos (hI v hv)] at hf
        cases hf
    · refine Spec.assume fun ⟨e, he⟩ => ?_
      subst he
      exact Spec.halt fun v hv => ⟨hF, hv⟩

/-- With `keyos` away the fix-up ends the swap. -/
theorem recoverKeyos_between :
    Spec F (Between old new) recoverKeyos (fun _ => Swapped new)
      fun e v => Blamed F e ∧ Layout old new v := by
  refine Spec.bind ((attempt_openDir_spec .keyos).conseq (fun _ => id) (fun _ _ => id)
    fun e v h => ⟨h.2, .between h.1⟩) fun opened => ?_
  cases opened with
  | ok d =>
    rintro d ⟨-, h, hd⟩
    rw [h.noKeyos] at hd
    cases hd
  | error e =>
    have hrename := renameDir_spec (F := F) (d := new) .keyosUpdate .keyos (by decide)
      (ignores_entry .keyosOld (by decide) (some old))
      (ignores_entry .keyosOld (by decide) (some old))
    refine Spec.bind ((Spec.attempt_blamed hrename).conseq
      (fun v hv => ⟨hv.1.old, hv.1.update, hv.1.noKeyos⟩) (fun _ _ => id)
      fun e v ⟨he, ho, hu, hk⟩ => ⟨he, .between ⟨hk, hu, ho⟩⟩) fun renamed => ?_
    cases renamed with
    | error e => exact Spec.halt fun v ⟨hF, ho, hu, hk⟩ => ⟨hF, .between ⟨hk, hu, ho⟩⟩
    | ok u =>
      refine Spec.bind (Q := fun _ => Swapped new) ?_ fun _ => Spec.pure fun _ => id
      refine (Spec.attempt_blamed check_spec).conseq (fun v ⟨_, hu, hk⟩ => ⟨hk, hu⟩) ?_
        fun e v he => ⟨he.1, .swapped he.2⟩
      rintro (e | u) v hv
      · exact hv.2
      · exact hv

/-- A fix-up that comes to its end leaves a complete tree in `keyos`, and nothing of the
old one unless a step failed. -/
theorem fixupInterruptedUpdate_spec :
    Spec F (Layout old new) fixupInterruptedUpdate
      (fun _ v => (Staged old new v ∨ Swapped new v) ∧
        (v .keyosOld = none ∨ ∃ x, F (.fault x)))
      fun e v => Blamed F e ∧ Layout old new v := by
  have hrest : ∀ recovered : List FixupLog, Spec F (Swapped new)
      (do let removed ← removeOld; pure (recovered ++ removed))
      (fun _ v => (Staged old new v ∨ Swapped new v) ∧
        (v .keyosOld = none ∨ ∃ x, F (.fault x)))
      fun e v => Blamed F e ∧ Layout old new v := fun recovered =>
    Spec.bind ((removeOld_spec swapped_ignores).conseq (fun _ => id) (fun _ _ => id)
      fun e v h => ⟨h.1, .swapped h.2⟩) fun _ => Spec.pure fun v hv => ⟨.inr hv.1, hv.2⟩
  rintro d ⟨hF, h⟩
  cases h with
  | staged h =>
    have hstaged : Spec F (Staged old new) fixupInterruptedUpdate
        (fun _ v => (Staged old new v ∨ Swapped new v) ∧
          (v .keyosOld = none ∨ ∃ x, F (.fault x)))
        fun e v => Blamed F e ∧ Layout old new v := by
      have hkept := recoverKeyos_kept (F := F) (I := Staged old new) fun v h => h.keyos ▸ rfl
      refine Spec.bind (hkept.conseq (fun _ => id)
        (fun _ v h => (⟨h, h.noOld⟩ : Staged old new v ∧ v .keyosOld = none))
        fun e v h => ⟨h.1, .staged h.2⟩) fun _ => ?_
      exact Spec.bind (removeOld_none.conseq (fun _ => id) (fun _ _ => id)
        fun e v h => ⟨h.1, .staged h.2.1⟩) fun _ => Spec.pure fun v hv => ⟨.inl hv.1, .inl hv.2⟩
    exact hstaged d ⟨hF, h⟩
  | between h => exact Spec.bind recoverKeyos_between hrest d ⟨hF, h⟩
  | swapped h =>
    have hkept := recoverKeyos_kept (F := F) (I := Swapped new) fun v h => h.keyos ▸ rfl
    exact Spec.bind (hkept.conseq (fun _ => id) (fun _ _ => id)
      fun _ _ h => ⟨h.1, .swapped h.2⟩) hrest d ⟨hF, h⟩

theorem fixupInterruptedUpdate_finished :
    Spec F (Finished new) fixupInterruptedUpdate (fun _ => Finished new)
      fun e v => Blamed F e ∧ Finished new v := by
  have hkeyos : ∀ v, Finished new v → (v .keyos).isSome := fun v h => h.keyos ▸ rfl
  refine Spec.bind (recoverKeyos_kept hkeyos) fun _ => ?_
  refine Spec.bind (Q := fun _ => Finished new) ?_ fun _ => Spec.pure fun _ => id
  exact removeOld_none.conseq (fun v h => ⟨h.toSwapped, h.noOld⟩)
    (fun _ v h => ⟨h.1, h.2⟩) fun e v h => ⟨h.1, h.2.1, h.2.2⟩

/-! ## 5. Runs -/

/-- A reset: the device starts and its fix-up runs, or `finalize_update` is called. Either
goes as far as the fates of its steps let it. -/
inductive Event where
  | boot (fates : Nat → Fate Fault)
  | finalize (fates : Nat → Fate Fault)

def Event.apply : Event → Volume → Volume
  | .boot fates => leaves fixupInterruptedUpdate fates
  | .finalize fates => leaves finalizeUpdate fates

def afterEvents (events : List Event) (v : Volume) : Volume :=
  events.foldl (fun v e => e.apply v) v

theorem afterEvents_keeps (hI : ∀ e v, I v → I (Event.apply e v)) (events : List Event)
    {v : Volume} (hv : I v) : I (afterEvents events v) := by
  induction events generalizing v with
  | nil => exact hv
  | cons e events ih => exact ih (hI e v hv)

theorem layout_kept (e : Event) (v : Volume) (h : Layout old new v) :
    Layout old new (e.apply v) := by
  cases e with
  | boot fates =>
    refine Spec.leaves (fixupInterruptedUpdate_spec.conseq (fun _ => id) ?_ fun _ _ h => h.2) h
    rintro _ v ⟨h | h, -⟩
    · exact .staged h
    · exact .swapped h
  | finalize fates =>
    exact Spec.leaves (finalizeUpdate_spec.conseq (fun _ => id)
      (fun _ _ h => .swapped h.toSwapped) fun _ _ h => h.2) h

theorem finished_kept (e : Event) (v : Volume) (h : Finished new v) :
    Finished new (e.apply v) := by
  cases e with
  | boot fates =>
    exact Spec.leaves (fixupInterruptedUpdate_finished.conseq (fun _ => id) (fun _ _ => id)
      fun _ _ h => h.2) h
  | finalize fates =>
    exact Spec.leaves (finalizeUpdate_finished.conseq (fun _ => id) (fun _ _ => id)
      fun _ _ h => h.2) h

section Bootloader

variable {ν : Type} {readVersion : Bytes → Option ν}

theorem selectedImage_keyos {v : Volume} {d : Dir} (hd : Bootable readVersion d)
    (hv : v .keyos = some d) : selectedImage readVersion v = .keyos := by
  obtain ⟨data, version, hdata, hversion⟩ := hd
  have h : osVersion readVersion v .keyos = some version := by
    rw [osVersion, hv]
    dsimp only
    rw [hdata]
    exact hversion
  rw [selectedImage, h]

theorem selectedImage_update {v : Volume} (hv : v .keyos = none) :
    selectedImage readVersion v = .keyosUpdate := by
  have h : osVersion readVersion v .keyos = none := by rw [osVersion, hv]
  rw [selectedImage, h]

/-- In every layout the bootloader finds a complete tree. -/
theorem Layout.image {v : Volume} (hold : Bootable readVersion old)
    (hnew : Bootable readVersion new) (h : Layout old new v) :
    v (selectedImage readVersion v) = some old ∨ v (selectedImage readVersion v) = some new := by
  cases h with
  | staged h =>
    rw [selectedImage_keyos hold h.keyos]
    exact .inl h.keyos
  | between h =>
    rw [selectedImage_update h.noKeyos]
    exact .inr h.update
  | swapped h =>
    rw [selectedImage_keyos hnew h.keyos]
    exact .inr h.keyos

end Bootloader

/-- The fates of one run. -/
abbrev Among (fates : Nat → Fate Fault) : Fate Fault → Prop := fun f => ∃ n, fates n = f

/-- A swap survives any number of power losses: after every run of boots and calls of
`finalize_update`, each interrupted anywhere, the image that the bootloader picks lies in a
complete tree, the fix-up brings one of the two trees to `keyos`, `finalize_update` is
stopped only by the device, and a swap that has come to its end stays there. -/
theorem firmware_swap_survives {ν : Type} {readVersion : Bytes → Option ν}
    (hold : Bootable readVersion old) (hnew : Bootable readVersion new) {v₀ v : Volume}
    (h₀ : Staged old new v₀) (events : List Event) (hv : afterEvents events v₀ = v) :
    (v (selectedImage readVersion v) = some old ∨ v (selectedImage readVersion v) = some new) ∧
    (∀ fates log d, fixupInterruptedUpdate ⟨v, fates⟩ = (.ok log, d) →
      (d.contents .keyos = some old ∨ d.contents .keyos = some new) ∧
      (d.contents .keyosOld = none ∨ ∃ x, Among fates (.fault x))) ∧
    (∀ fates stop d, fixupInterruptedUpdate ⟨v, fates⟩ = (.err stop, d) →
      Blamed (Among fates) stop) ∧
    (∀ fates stop d, finalizeUpdate ⟨v, fates⟩ = (.err stop, d) → Blamed (Among fates) stop) ∧
    (∀ fates d, finalizeUpdate ⟨v, fates⟩ = (.ok (), d) → Finished new d.contents) ∧
    (v .keyosUpdate = none → v .keyosOld = none →
      ∀ events', Finished new (afterEvents events' v)) := by
  have hlayout : Layout old new v := hv ▸ afterEvents_keeps layout_kept events (.staged h₀)
  have hfates : ∀ fates n, Among fates (fates n) := fun fates n => ⟨n, rfl⟩
  refine ⟨hlayout.image hold hnew, fun fates log d hrun => ?_, fun fates stop d hrun => ?_,
    fun fates stop d hrun => ?_, fun fates d hrun => ?_, fun hu ho events' => ?_⟩
  · obtain ⟨h | h, hleft⟩ := fixupInterruptedUpdate_spec.of_ok (hfates fates) hlayout hrun
    · exact ⟨.inl h.keyos, hleft⟩
    · exact ⟨.inr h.keyos, hleft⟩
  · exact (fixupInterruptedUpdate_spec.of_stop (hfates fates) hlayout hrun).1
  · exact (finalizeUpdate_spec.of_stop (hfates fates) hlayout hrun).1
  · exact finalizeUpdate_spec.of_ok (hfates fates) hlayout hrun
  · refine afterEvents_keeps finished_kept events' ?_
    cases hlayout with
    | staged h => exact absurd (h.update.symm.trans hu) nofun
    | between h => exact absurd (h.update.symm.trans hu) nofun
    | swapped h => exact ⟨h, ho⟩

/-- Firmware with the version `n` and one file more. -/
def sampleFirmware (n : UInt8) : Dir :=
  .file "app.bin" [n] (.dir "apps" (.file "data.bin" [n, n] .nil) .nil)

def stagedVolume : Volume
  | .keyos => some (sampleFirmware 1)
  | .keyosUpdate => some (sampleFirmware 2)
  | .keyosOld => none

/-- The power goes at step `n`. -/
def cutAt (n : Nat) : Nat → Fate Fault := fun k => if k = n then .powerLoss else .done

/-- Cut between the two renames, in the removal of the fix-up, and in that of the next swap. -/
def cutSwap : List Event := [.finalize (cutAt 7), .boot (cutAt 6), .finalize (cutAt 9)]

theorem firmware_swap_survives_cut :
    (afterEvents cutSwap stagedVolume)
          (selectedImage List.head? (afterEvents cutSwap stagedVolume)) =
        some (sampleFirmware 1) ∨
      (afterEvents cutSwap stagedVolume)
          (selectedImage List.head? (afterEvents cutSwap stagedVolume)) =
        some (sampleFirmware 2) :=
  (firmware_swap_survives ⟨[1], 1, rfl, rfl⟩ ⟨[2], 2, rfl, rfl⟩ ⟨rfl, rfl, rfl⟩ cutSwap rfl).1

end Update
