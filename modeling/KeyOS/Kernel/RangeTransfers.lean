import KeyOS.Kernel.PageTransfers

/-!
# Transfers of ranges, and address spaces

Sending and lending a range keep a sound state sound, also when the range is taken back
after an error. Returning one does so where no page of it was lent on.
-/

namespace Kernel

open Exec Bitmap

namespace Memory

variable {m m' : Memory} {pid destPid : PID} {job : Option PendingMapZero}
  {held : Nat → Option PID} {new : Nat → Prop} (processes : PID → Option Process)

/-! ## 1. Reservations -/

/-- From `m` to `m'` the process made no reservation: those it has, it had before. -/
def NoNewShared (p : PID) (m m' : Memory) : Prop :=
  ∀ w, (m'.entryAt p w).isShared = true → m'.entryAt p w = m.entryAt p w

theorem Grown.noNewShared {S : PID → Nat → Prop} (h : Grown S m m') (p : PID) :
    NoNewShared p m m' := by
  intro w hw
  rcases h.entries p w with heq | ⟨-, _, _, d, _, -, hd, -⟩
  · exact heq
  · rw [hd] at hw
    cases hw

theorem noNewShared_write {p q : PID} {v : Nat} (entry : L2TableEntry)
    (h : p = q → entry.normalize.isShared = false) : NoNewShared p m (m.write q v entry) := by
  intro w hw
  by_cases hslot : HasSlot m p w
  · by_cases hpw : p = q ∧ w = v
    · obtain ⟨rfl, rfl⟩ := hpw
      rw [entryAt_write_self hslot, h rfl] at hw
      cases hw
    · exact entryAt_write_of_ne hpw
  · rw [entryAt_of_not (hasSlot_write.not.2 hslot)] at hw
    cases hw

theorem NoNewShared.isShared {p : PID} {w : Nat} (h : NoNewShared p m m')
    (hw : (m'.entryAt p w).isShared = true) : (m.entryAt p w).isShared = true := by
  rwa [← h w hw]

theorem NoNewShared.trans {p : PID} {m'' : Memory} (h : NoNewShared p m m')
    (h' : NoNewShared p m' m'') : NoNewShared p m m'' :=
  fun w hw => (h' w hw).trans (h w (h'.isShared hw))

theorem NoNewShared.lentOn {destPid : PID} {srcAddr destAddr : Nat} (hpid : NoNewShared pid m m')
    (hdest : NoNewShared destPid m m') (h : LentOn m' pid srcAddr destPid destAddr) :
    LentOn m pid srcAddr destPid destAddr := by
  obtain ⟨h₁, h₂, hphys⟩ := h
  refine ⟨hpid.isShared h₁, hdest.isShared h₂, ?_⟩
  rwa [hpid _ h₁, hdest _ h₂] at hphys

theorem moveOwner_entries {A : Panic → Prop} {P : Memory → Prop} (phys : Nat) (destPid pid : PID)
    (hready : Ready m) (hP : ∀ ram, P { m with ram := ram }) :
    Prog.Triple (fun s => s = m) (moveOwner processes phys destPid pid) (fun _ => P) (fun _ => P)
      A := by
  rintro _ rfl
  rcases moveOwner_cases processes hready phys destPid pid with ⟨e, herr, -⟩ | ⟨ram, hok, -⟩
  · rw [herr]
    exact hP _
  · rw [hok]
    exact hP ram

/-- Lending reserves pages of the lender only. -/
theorem lendPage_noNewShared {A : Panic → Prop} (hready : Ready m) (hne : pid ≠ destPid)
    (srcAddr destAddr : Nat) (mutable : Bool) :
    Prog.Triple (fun s => s = m) (lendPage processes pid srcAddr destPid destAddr mutable)
      (fun _ s => NoNewShared destPid m s ∧
        (s.entryAt destPid (destAddr / PAGE_SIZE)).isShared = false)
      (fun _ => NoNewShared destPid m) A := by
  rintro m rfl
  unfold lendPage
  rcases lendPageTables_cases (S := fun _ _ => True)
    hready trivial mutable with ⟨e, m', herr, hg⟩ | ⟨d, m', hg, hpair, hok⟩
  · rw [Prog.bind_err _ herr]
    exact hg.noNewShared destPid
  · rw [Prog.bind_ok _ hok]
    have hmono := (hg.noNewShared destPid).trans ((noNewShared_write (v := srcAddr / PAGE_SIZE)
      (reservedEntry d) fun heq => absurd heq.symm hne).trans
      (noNewShared_write (q := destPid) (v := destAddr / PAGE_SIZE)
        (.mapped (lentEntry mutable d)) fun _ => rfl))
    refine (moveOwner_entries (m := (m'.write pid (srcAddr / PAGE_SIZE) (reservedEntry d)).write
      destPid (destAddr / PAGE_SIZE) (.mapped (lentEntry mutable d)))
      (P := fun s => NoNewShared destPid m s ∧
        (s.entryAt destPid (destAddr / PAGE_SIZE)).isShared = false) processes d.phys destPid pid
      hg.ready fun ram => ⟨hmono, ?_⟩).conseq (fun _ => id) (fun _ _ => id) (fun _ _ h => h.1)
      (fun _ => id) _ rfl
    have hslot : HasSlot (m'.write pid (srcAddr / PAGE_SIZE) (reservedEntry d)) destPid
      (destAddr / PAGE_SIZE) := hpair.dest
    rw [show Memory.entryAt _ _ _ = L2TableEntry.mapped (lentEntry mutable d) from
      entryAt_write_self hslot]
    rfl

theorem unlendPage_noNewShared {A : Panic → Prop} (hready : Ready m) (p : PID)
    (srcAddr destAddr : Nat) :
    Prog.Triple (fun s => s = m) (unlendPage processes pid srcAddr destPid destAddr)
      (fun _ => NoNewShared p m) (fun _ => NoNewShared p m) A := by
  rintro m rfl
  unfold unlendPage
  rcases returnPageTables_cases m pid srcAddr destPid destAddr with
    ⟨e, herr⟩ | ⟨d, -, -, -, -, -, hok⟩
  · rw [Prog.bind_err _ herr]
    exact fun w _ => rfl
  · rw [Prog.bind_ok _ hok]
    have hmono := (noNewShared_write (m := m) (p := p) (q := pid) (v := srcAddr / PAGE_SIZE)
      .empty fun _ => rfl).trans (noNewShared_write (q := destPid)
      (v := destAddr / PAGE_SIZE) (.mapped d) fun _ => rfl)
    exact moveOwner_entries (m := (m.write pid (srcAddr / PAGE_SIZE) .empty).write destPid
      (destAddr / PAGE_SIZE) (.mapped d)) (P := fun s => NoNewShared p m s) processes d.phys destPid
      pid hready (fun ram => hmono) _ rfl

/-! ## 2. Sending, lending and returning -/

theorem requireProcess_keeps {I : Memory → Prop} {A : Panic → Prop} (pid : PID) :
    Prog.Keeps I (requireProcess processes pid) A :=
  Prog.Triple.ite (fun _ => Prog.Triple.pure fun _ => id) fun _ => Prog.Triple.throw fun _ => id

theorem sendMemory_keeps {srcVirt destVirt len : Nat} (hdest : destVirt < 2 ^ 32) (pid destPid : PID) :
    Prog.Keeps (Sound job held new) (sendMemory processes pid srcVirt destPid destVirt len)
      fun p => p = .revertFailed := by
  unfold sendMemory
  refine Prog.Triple.ite (fun _ => Prog.Triple.throw fun _ => id) fun _ => ?_
  refine Prog.Triple.ite (fun _ => Prog.Triple.pure fun _ => id) fun _ => ?_
  refine Prog.Triple.bind (requireProcess_keeps processes pid) fun _ => ?_
  refine Prog.Triple.bind (requireProcess_keeps processes destPid) fun _ => ?_
  refine Prog.Triple.bind ((findVirtualAddress_triple hdest destPid len).post fun _ _ h => h.2)
    fun destVirt => ?_
  refine Prog.Triple.bind (Q := fun _ => Sound job held new) ?_ fun _ =>
    Prog.Triple.bind (releaseAllocationHint_keeps pid srcVirt) fun _ => Prog.Triple.pure fun _ => id
  refine Prog.Triple.forOrUndo (J := fun _ => Sound job held new) (F := fun _ => Sound job held new)
    (fun k _ => movePage_keeps processes pid _ destPid _) (fun k _ e => ?_) (fun _ _ _ => id) _ 0
    (Nat.zero_add _)
  refine Prog.Triple.forEach fun j _ => ?_
  exact Prog.Triple.unwrap ((movePage_keeps processes destPid _ pid _).conseq (fun _ => id)
    (fun _ _ => id) (fun _ _ _ => rfl) fun _ => id)

theorem ensureBacked_keeps {A : Panic → Prop} (pid : PID) (virt : Nat) :
    Prog.Keeps (Sound job held new) (MemoryMapping.ensureBacked pid virt) A := by
  intro m hs
  rcases ensureBacked_cases (S := fun _ _ => True) hs.ready virt trivial with
    ⟨e, herr⟩ | ⟨d, m', hok, hg, -⟩
  · rw [herr]
    exact hs
  · rw [hok]
    exact hg.sound hs

theorem lendMemory_keeps {srcVirt destVirt len : Nat} (hdest : destVirt < 2 ^ 32)
    (pid destPid : PID) (mutable : Bool) :
    Prog.Keeps (Sound job held new) (lendMemory processes pid srcVirt destPid destVirt len mutable)
      fun p => p = .revertFailed := by
  unfold lendMemory
  refine Prog.Triple.ite (fun _ => Prog.Triple.throw fun _ => id) fun _ => ?_
  refine Prog.Triple.ite (fun _ => Prog.Triple.throw fun _ => id) fun _ => ?_
  refine Prog.Triple.ite (fun _ => ?_) fun hne => ?_
  · exact Prog.Triple.bind (Prog.Triple.forEach fun k _ => ensureBacked_keeps pid _) fun _ =>
      Prog.Triple.pure fun _ => id
  refine Prog.Triple.bind (requireProcess_keeps processes pid) fun _ => ?_
  refine Prog.Triple.bind (requireProcess_keeps processes destPid) fun _ => ?_
  refine Prog.Triple.bind ((findVirtualAddress_triple hdest destPid len).post fun _ _ h => h.2)
    fun destVirt => ?_
  refine Prog.Triple.bind (Q := fun _ => Sound job held new) ?_ fun _ => Prog.Triple.pure fun _ => id
  -- what was lent so far is no reservation in the borrower, so it can be returned
  let J (k : Nat) (m : Memory) : Prop := Sound job held new m ∧
    ∀ j < k, (m.entryAt destPid (nthSlot destVirt j)).isShared = false
  have hJ : ∀ {k m m'}, J k m → Sound job held new m' → NoNewShared destPid m m' → J k m' :=
    fun hm hs hmono => ⟨hs, fun j hj => Bool.eq_false_of_not_eq_true fun h =>
      Bool.false_ne_true ((hm.2 j hj).symm.trans (hmono.isShared h))⟩
  refine (Prog.Triple.forOrUndo (J := J) (F := J) (G := fun _ => Sound job held new)
    (n := len / PAGE_SIZE) (fun k _ => ?_) (fun k _ e => ?_) (fun _ _ _ => id) _ 0
    (Nat.zero_add _)).conseq (fun m hs => ⟨hs, fun _ h => absurd h (Nat.not_lt_zero _)⟩)
    (fun _ _ h => h.1) (fun _ _ => id) fun _ => id
  · intro m hm
    refine ((lendPage_keeps processes pid _ destPid _ mutable).and (lendPage_noNewShared processes
      hm.1.ready hne (wrappingAdd srcVirt (k * PAGE_SIZE)) (wrappingAdd destVirt (k * PAGE_SIZE))
      mutable)).conseq (fun m' heq => ⟨heq ▸ hm.1, heq⟩) (fun _ m' h => ?_)
      (fun _ m' h => hJ hm h.1 h.2) (fun _ => id) m rfl
    refine ⟨h.1, fun j hj => ?_⟩
    rcases Nat.lt_succ_iff_lt_or_eq.1 hj with hlt | rfl
    · exact (hJ hm h.1 h.2.1).2 j hlt
    · exact h.2.2
  · refine (Prog.Triple.forEach (I := J k) (E := fun _ => Sound job held new) fun j hj => ?_).post
      fun _ _ h => h.1
    refine Prog.Triple.unwrap ?_
    intro m hm
    have hlent : ¬ LentOn m destPid (wrappingAdd destVirt (j * PAGE_SIZE)) pid
        (wrappingAdd srcVirt (j * PAGE_SIZE)) := fun h =>
      Bool.false_ne_true ((hm.2 j (List.mem_range.1 hj)).symm.trans h.1)
    exact ((unlendPage_triple processes (Ne.symm hne) _ _).and (unlendPage_noNewShared processes
      hm.1.ready destPid _ _)).conseq
      (fun m' heq => ⟨⟨heq ▸ hm.1, heq ▸ hlent⟩, heq⟩) (fun _ m' h => hJ hm h.1 h.2)
      (fun _ _ _ => rfl) (fun _ => id) m rfl

/-- No page of the range was lent on by the process that returns it. -/
def Returnable (m : Memory) (pid : PID) (srcVirt : Nat) (destPid : PID) (destVirt n : Nat) : Prop :=
  ∀ k < n, ¬ LentOn m pid (wrappingAdd srcVirt (k * PAGE_SIZE)) destPid
    (wrappingAdd destVirt (k * PAGE_SIZE))

theorem returnPages_triple {A : Panic → Prop} (hne : pid ≠ destPid) {srcVirt destVirt : Nat}
    (pages : List Nat) (error : Option Error) :
    Prog.Triple (fun m => Sound job held new m ∧ ∀ k ∈ pages,
        ¬ LentOn m pid (wrappingAdd srcVirt (k * PAGE_SIZE)) destPid
          (wrappingAdd destVirt (k * PAGE_SIZE)))
      (returnPages processes pid srcVirt destPid destVirt pages error)
      (fun _ => Sound job held new) (fun _ => Sound job held new) A := by
  induction pages generalizing error with
  | nil => exact Prog.Triple.pure fun _ h => h.1
  | cons k rest ih =>
    let K (m : Memory) : Prop := Sound job held new m ∧ ∀ k ∈ rest,
      ¬ LentOn m pid (wrappingAdd srcVirt (k * PAGE_SIZE)) destPid
        (wrappingAdd destVirt (k * PAGE_SIZE))
    refine Prog.Triple.bind (Q := fun _ => K) (Prog.Triple.attempt ?_) fun result => ?_
    · intro m hm
      have hrest : ∀ m', Sound job held new m' → NoNewShared pid m m' → NoNewShared destPid m m' →
          K m' := fun m' hs hpid hdest => ⟨hs, fun k hk h =>
        hm.2 k (List.mem_cons_of_mem _ hk) (hpid.lentOn hdest h)⟩
      exact ((unlendPage_triple processes hne _ _).and ((unlendPage_noNewShared processes
        hm.1.ready pid _ _).and (unlendPage_noNewShared processes hm.1.ready destPid _ _))).conseq
       
        (fun m' heq => ⟨⟨heq ▸ hm.1, heq ▸ hm.2 k List.mem_cons_self⟩, heq, heq⟩)
        (fun _ m' h => hrest m' h.1 h.2.1 h.2.2) (fun _ m' h => hrest m' h.1 h.2.1 h.2.2)
        (fun _ => id) m rfl
    · cases result with
      | ok u => exact ih error
      | error e => exact ih (some e)

theorem returnMemory_triple {A : Panic → Prop} (pid : PID) (srcVirt : Nat) (destPid : PID)
    (destVirt len : Nat) :
    Prog.Triple (fun m => Sound job held new m ∧
        (pid ≠ destPid → Returnable m pid srcVirt destPid destVirt (len / PAGE_SIZE)))
      (returnMemory processes pid srcVirt destPid destVirt len)
      (fun _ => Sound job held new) (fun _ => Sound job held new) A := by
  unfold returnMemory
  refine Prog.Triple.ite (fun _ => Prog.Triple.throw fun _ h => h.1) fun _ => ?_
  refine Prog.Triple.ite (fun _ => Prog.Triple.pure fun _ h => h.1) fun hne => ?_
  let K (m : Memory) : Prop := Sound job held new m ∧
    Returnable m pid srcVirt destPid destVirt (len / PAGE_SIZE)
  refine Prog.Triple.bind (Q := fun _ => K) ((requireProcess_keeps processes pid).conseq
    (fun m h => ⟨h.1, h.2 hne⟩) (fun _ _ => id) (fun _ _ h => h.1) fun _ => id) fun _ => ?_
  refine Prog.Triple.bind (Q := fun _ => K) ((requireProcess_keeps processes destPid).conseq
    (fun _ => id) (fun _ _ => id) (fun _ _ h => h.1) fun _ => id) fun _ => ?_
  refine Prog.Triple.bind ((returnPages_triple processes
    hne (List.range (len / PAGE_SIZE)) none).pre fun m h => ⟨h.1, fun k hk =>
      h.2 k (List.mem_range.1 hk)⟩) fun error => ?_
  cases error with
  | none => exact Prog.Triple.pure fun _ => id
  | some e => exact Prog.Triple.throw fun _ => id

/-! ## 3. Reservations and address spaces -/

theorem clearShared_keeps {A : Panic → Prop} (pid : PID) (addr : Nat)
    (mode : MemoryMapping.ClearShared) :
    Prog.Keeps (Sound job held new) (MemoryMapping.clearShared pid addr mode) A := by
  intro m hs
  unfold MemoryMapping.clearShared
  rcases getL2Slot_cases m pid addr with ⟨e, herr, -⟩ | ⟨hok, hslot⟩
  · rw [Prog.bind_err _ herr]
    exact hs
  rw [Prog.bind_ok _ hok, Prog.bind_ok _ (readSlot_run _ _ _)]
  cases m.entries pid (addr / PAGE_SIZE) with
  | empty => exact hs
  | mapped d => exact hs
  | unmapped frame flags user =>
    by_cases hshared : (L2TableEntry.unmapped frame flags user).isShared = false
    · rw [if_pos hshared]
      exact hs
    · rw [if_neg hshared]
      cases mode with
      | free => exact hs.write_unmapped hslot empty_ne_mapped
      | onDemand => exact hs.write_unmapped hslot (unmapped_ne_mapped 0 flags user)

theorem clearSharedRange_keeps {A : Panic → Prop} (hA : A .clearSharedFailed) (pid : PID)
    (addr len : Nat) (mode : MemoryMapping.ClearShared) :
    Prog.Keeps (Sound job held new) (clearSharedRange pid addr len mode) A :=
  Prog.Triple.forEach fun _ _ => Prog.Triple.unwrap ((clearShared_keeps pid _ mode).conseq
    (fun _ => id) (fun _ _ => id) (fun _ _ _ => hA) fun _ => id)

/-- The state without the tables of a process. -/
def wipe (m : Memory) (pid : PID) : Memory :=
  { m with
    tables := Function.update m.tables pid fun _ => false
    entries := Function.update m.entries pid fun _ => .empty }

theorem entryAt_wipe_self (v : Nat) : (m.wipe pid).entryAt pid v = .empty := by
  refine entryAt_of_not fun hslot => ?_
  have htables := hslot.1
  rw [show (m.wipe pid).tables pid = fun _ => false from Function.update_self ..] at htables
  cases htables

theorem entryAt_wipe_of_ne {p : PID} (hne : p ≠ pid) (v : Nat) :
    (m.wipe pid).entryAt p v = m.entryAt p v :=
  entryAt_congr (congrFun (Function.update_of_ne hne ..) _) (congrFun (Function.update_of_ne hne ..) _)

theorem Sound.wipe (h : Sound job held new m) (pid : PID) : Sound job held new (m.wipe pid) := by
  refine h.unmap rfl rfl rfl fun p w d hd => ?_
  rcases eq_or_ne p pid with rfl | hne
  · rw [entryAt_wipe_self] at hd
    cases hd
  · rwa [entryAt_wipe_of_ne hne] at hd

/-- The pages of a process are free of entries when its tables are gone. -/
theorem Sound.unmapped_wipe (h : Sound job held new m) {i : Nat}
    (hi : m.ram.mm.allocations i = some pid) : Unmapped (m.wipe pid) i := by
  intro p w d hmaps
  have howner := ((h.wipe pid).owner p w d i hmaps).1
  obtain rfl : pid = p := Option.some.inj (hi.symm.trans howner)
  have := hmaps.1
  rw [entryAt_wipe_self] at this
  cases this

-- the statement must not be evaluated down to the search for free pages
attribute [local irreducible] allocateSpace

theorem allocateSpace_keeps {A : Panic → Prop} (pid : PID) :
    Prog.Keeps (Sound job held new) (allocateSpace pid) A := by
  refine Prog.Triple.of_cases fun m hs => ?_
  obtain ⟨page, hc⟩ := hs.ready
  unfold allocateSpace
  rcases Ram.allocRangeAligned_cases hc ⟨4, by decide⟩ L1_USER_PAGE_TABLE_PAGES pid with
    ⟨e, herr⟩ | ⟨first, zeroed, ram, hok, hg, -⟩
  · exact .inl ⟨e, m, Prog.bind_err _ (onRam_err herr), hs⟩
  rw [Prog.bind_ok _ (onRam_ok hok)]
  obtain ⟨hs', howned⟩ := hs.given hc hg
  -- the table is written while nobody maps its pages
  let K (m : Memory) : Prop := Sound job held new m ∧
    ∀ i, first ≤ i ∧ i < first + L1_USER_PAGE_TABLE_PAGES → Owned m pid i
  have hwrite : Prog.Triple K (Prog.forEach (List.range L1_USER_PAGE_TABLE_PAGES) fun k =>
      setContents (pageAddr first + k * PAGE_SIZE) .data) (fun _ => K) (fun _ _ => False)
      fun _ => False := by
    refine Prog.Triple.forEach fun k hk => Prog.Triple.of_run fun m hm => ?_
    have hk' : k < L1_USER_PAGE_TABLE_PAGES := List.mem_range.1 hk
    have hmem : first ≤ first + k ∧ first + k < first + L1_USER_PAGE_TABLE_PAGES :=
      ⟨Nat.le_add_right _ _, Nat.add_lt_add_left hk' first⟩
    have hpage : RamPage (pageAddr first + k * PAGE_SIZE) (first + k) := by
      rw [pageAddr_add]
      exact ramPage_pageAddr (hmem.2.trans_le hg.le)
    refine ⟨(), _, setContents_run hpage .data m, ?_, fun i hi => ⟨(hm.2 i hi).1, (hm.2 i hi).2⟩⟩
    obtain ⟨howner, hun⟩ := hm.2 _ hmem
    exact hm.1.setContents (by rw [howner]; exact nofun)
      (fun p w d hmaps _ => absurd hmaps (hun p w d)) (fun j _ => Function.update_apply ..) rfl rfl
      fun p w => entryAt_congr rfl rfl
  obtain ⟨_, m', hrun, hm', -⟩ := hwrite.runs ⟨hs', fun i hi => (howned i hi).1⟩
  refine .inr ⟨(), _, Prog.bind_ok _ hrun, (hm'.wipe pid).setHint fun p => ?_⟩
  rcases eq_or_ne p pid with rfl | hne
  · rw [Function.update_self]
  · exact (hm'.hint p).trans_eq (Function.update_of_ne hne ..).symm

/-- The memory of a process goes, and a zeroing request of it with it. -/
theorem destroySpace_keeps {A : Panic → Prop} (pid : PID) :
    Prog.Keeps (Settled new) (destroySpace pid) A := by
  refine Prog.Triple.of_cases fun m ⟨job, hs, hwf⟩ => .inr ?_
  unfold destroySpace
  have hcancel : ∃ job' m', Prog.onlyIf (m.ram.mm.pendingMapZero.map PendingMapZero.pid = some pid)
      cancelMapZero m = (.ok (), m') ∧ Sound job' (heldBy job') new m' ∧
      (∀ j, job' = some j → WellFormed j) ∧ ∀ i, heldBy job' i ≠ some pid := by
    rw [hs.job]
    by_cases hown : job.map PendingMapZero.pid = some pid
    · rw [Prog.onlyIf_true_run hown]
      exact ⟨none, _, setJob_run none m, (hs.rehold fun i _ q (hq : none = some q) =>
        nomatch hq).setJob none, nofun, nofun⟩
    · rw [Prog.onlyIf_false_run hown]
      refine ⟨job, m, rfl, hs, hwf, fun i hi => hown ?_⟩
      cases job with
      | none => cases hi
      | some j =>
        have hi : (if ∃ k, k < pageCount j.size ∧ RamPage (nthPage j.phys k) i then some j.pid
          else none) = some pid := hi
        split at hi
        · exact hi
        · cases hi
  obtain ⟨job', m', hrun, hs', hwf', hfree⟩ := hcancel
  rw [Prog.bind_ok _ (Prog.get_run m), Prog.bind_ok _ hrun]
  obtain ⟨page, hc⟩ := hs'.ready
  obtain ⟨page', ram, hrelease, -, howners⟩ := Ram.releaseAllMemoryForProcess_run hc pid
  have hmoves : ∀ page, Consistent page m'.ram → ∃ page', Ram.Moves page m'.ram page' ram := by
    intro page₁ hc₁
    obtain ⟨page₁', ram₁, hrelease₁, hm₁, -⟩ := Ram.releaseAllMemoryForProcess_run hc₁ pid
    rw [hrelease] at hrelease₁
    cases hrelease₁
    exact ⟨page₁', hm₁⟩
  obtain ⟨_, hm⟩ := hmoves page hc
  rw [Prog.bind_ok _ (onRam_ok hrelease)]
  have hfinal : Sound ram.mm.pendingMapZero (heldBy job') new { m'.wipe pid with ram := ram } := by
    refine (hs'.wipe pid).setRam ((hs'.wipe pid).clean_of_moves hmoves) fun i hi => ?_
    rcases howners i with heq | ⟨hown, -⟩
    · exact .inl heq
    · refine .inr ⟨hs'.unmapped_wipe hown, ?_⟩
      cases hheld : heldBy job' i with
      | none => rfl
      | some q =>
        have hq := hs'.held i hi q hheld
        rw [hown] at hq
        cases hq
        exact absurd hheld (hfree i)
  rw [hm.pending, hs'.job] at hfinal
  exact ⟨(), _, rfl, job', hfinal, hwf'⟩

end Memory

end Kernel
