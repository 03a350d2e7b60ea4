import KeyOS.Kernel.MapMemory

/-!
# Transfers of single pages

Moving, lending and returning a page edits two tables first and the owner afterwards.
The lemmas name the state after each half. Moving and lending keep a sound state sound;
returning does so unless both entries only reserve the page, because then neither process
has it.
-/

namespace Kernel

open Exec Bitmap

namespace Memory

variable {m m' : Memory} {pid destPid : PID} {srcAddr destAddr : Nat}
  {job : Option PendingMapZero} {held : Nat → Option PID} {new : Nat → Prop}
  {S : PID → Nat → Prop} {d : PageTableDescriptor} (processes : PID → Option Process)

/-! ## 1. The owner -/

/-- `ram` is `r` after the page at `phys` went from `pid` to `destPid`, unless it is a
shared peripheral. -/
structure OwnerMoved (r : Ram) (phys : Nat) (destPid pid : PID) (ram : Ram) : Prop where
  moves : ∀ page, Consistent page r → ∃ page', Ram.Moves page r page' ram
  owners : ram = r ∧ (∀ i, ¬ RamPage phys i) ∨
    ∃ offset current, addressToAllocationOffset phys = some offset ∧
      r.mm.allocations offset = some current ∧ (current = destPid ∨ pid = current) ∧
      ram.mm.allocations = Function.update r.mm.allocations offset (some destPid)

theorem not_ramPage_zero (i : Nat) : ¬ RamPage 0 i := fun hi => by
  have hnone : addressToAllocationOffset 0 = none := by decide
  rw [RamPage, hnone] at hi
  exact nomatch hi.1

theorem ramPage_isRam {addr i : Nat} (hi : RamPage addr i) :
    (isAddressEncrypted addr || isAddressInPlaintextDram addr) = true := by
  by_contra hout
  exact absurd hi.2 (Nat.not_lt.2
    (addressToAllocationOffset_ge (Bool.eq_false_of_not_eq_true hout) hi.1))

theorem claimReleaseMove_accepts {r : Ram} {phys i : Nat} {current : PID} (hi : RamPage phys i)
    (hmod : phys % PAGE_SIZE = 0) (hcurrent : r.mm.allocations i = some current)
    (hwho : current = destPid ∨ pid = current) :
    ∃ r', Ram.claimReleaseMove processes phys destPid (.move pid) r = (.ok (), r') := by
  have hand : ¬ phys &&& 0xfff ≠ 0 := by
    rw [not_not, show phys &&& 0xfff = phys % PAGE_SIZE from Nat.and_two_pow_sub_one_eq_mod phys 12]
    exact hmod
  have hlt := addressToAllocationOffset_lt hi.1
  unfold Ram.claimReleaseMove
  rw [if_neg hand, if_pos (ramPage_isRam hi), Prog.bind_ok _ (Prog.ofExcept_ok_run _ r),
    if_neg (by exact nofun), hi.1, Prog.bind_ok _ (Prog.okOr_some_run _ _ r),
    Prog.bind_ok _ (Prog.require_run _ (decide_eq_true hlt) r)]
  dsimp only
  rw [Ram.move, Prog.bind_ok _ (Prog.get_run r), hcurrent]
  dsimp only
  rw [if_neg (by rw [not_and_or, not_not, not_not]; exact hwho)]
  exact ⟨_, rfl⟩

/-- A page of RAM that one of the two processes has is moved. -/
theorem moveOwner_cases (h : Ready m) (phys : Nat) (destPid pid : PID) :
    (∃ e, moveOwner processes phys destPid pid m = (.err e, m) ∧
      ∀ i, RamPage phys i → phys % PAGE_SIZE = 0 →
        m.ram.mm.allocations i ≠ some pid ∧ m.ram.mm.allocations i ≠ some destPid) ∨
    ∃ ram, moveOwner processes phys destPid pid m = (.ok (), { m with ram := ram }) ∧
      OwnerMoved m.ram phys destPid pid ram := by
  unfold moveOwner
  by_cases hphys : phys = 0
  · subst hphys
    rw [Prog.onlyIf_false_run (not_not.2 rfl)]
    exact .inr ⟨m.ram, rfl, ⟨fun page hc => ⟨page, hc, fun _ _ => id, rfl⟩,
      .inl ⟨rfl, not_ramPage_zero⟩⟩⟩
  · rw [Prog.onlyIf_true_run hphys]
    rcases claimReleaseMove_run processes h phys destPid (.move pid) with
      ⟨e, herr⟩ | ⟨ram, hok, -, ⟨rfl, hno⟩ |
        ⟨offset, hoffset, ⟨⟨current, hcurrent, hwho⟩, howners⟩, hmoves⟩⟩
    · have hrefused : ∀ i, RamPage phys i → phys % PAGE_SIZE = 0 → ∀ current,
          m.ram.mm.allocations i = some current → ¬ (current = destPid ∨ pid = current) := by
        intro i hi hmod current hcurrent hwho
        obtain ⟨r', hok⟩ := claimReleaseMove_accepts processes hi hmod hcurrent hwho
        have := onRam_ok (m := m) hok
        rw [herr] at this
        cases this
      exact .inl ⟨e, herr, fun i hi hmod => ⟨fun hown => hrefused i hi hmod pid hown (.inr rfl),
        fun hown => hrefused i hi hmod destPid hown (.inl rfl)⟩⟩
    · exact .inr ⟨m.ram, hok, ⟨fun page hc => ⟨page, hc, fun _ _ => id, rfl⟩, .inl ⟨rfl, hno⟩⟩⟩
    · exact .inr ⟨ram, hok, ⟨hmoves, .inr ⟨offset, current, hoffset, hcurrent, hwho, howners⟩⟩⟩

/-! ## 2. The tables -/

/-- An entry that is accessible and not on demand, once it has a page. -/
theorem backedEntry_cases {v : Nat} (h : Ready m) (hslot : HasSlot m pid v) (hS : S pid v) :
    (∃ e, MemoryMapping.backedEntry pid v m = (.err e, m)) ∨
    ∃ m', MemoryMapping.backedEntry pid v m = (.ok (m'.entryAt pid v), m') ∧ Grown S m m' ∧
      (pid = PID.kernel ∨ (m'.entryAt pid v).isUserAccessible = true) ∧
      (m'.entryAt pid v).isOnDemand = false := by
  have hentry := entryAt_of_hasSlot hslot
  unfold MemoryMapping.backedEntry
  rw [Prog.bind_ok _ (readSlot_run _ _ _)]
  by_cases haccess : pid ≠ PID.kernel ∧ (m.entries pid v).isUserAccessible = false
  · rw [if_pos haccess]
    exact .inl ⟨_, rfl⟩
  rw [if_neg haccess]
  rw [not_and_or, not_not, Bool.not_eq_false, ← hentry] at haccess
  by_cases hdemand : (m.entries pid v).isOnDemand = true
  · rw [Prog.onlyIf, if_pos hdemand]
    cases he : m.entries pid v with
    | empty => rw [he] at hdemand; cases hdemand
    | mapped d => rw [he] at hdemand; cases hdemand
    | unmapped frame flags user =>
      rw [he] at hdemand hentry
      obtain rfl : frame = 0 := of_decide_eq_true hdemand
      rcases allocateBackingPage_cases h hS hslot hentry with ⟨e, herr⟩ | ⟨d, m', hok, hg, hd⟩
      · exact .inl ⟨e, Prog.bind_err _ herr⟩
      · have huser : d.user = user := by
          rcases hg.entries pid v with heq | ⟨-, flags', user', d', i, hold, hd', hnew, -⟩
          · rw [heq, hentry] at hd
            cases hd
          · rw [hentry] at hold
            cases hold
            obtain rfl := L2TableEntry.mapped.inj (hd.symm.trans hd')
            rcases newMapped_cases d.phys flags user with ⟨-, herr⟩ | ⟨d₂, hd₂, -, -, hu⟩
            · rw [herr] at hnew
              cases hnew
            · rw [hnew] at hd₂
              cases hd₂
              exact hu
        rw [hentry] at haccess
        refine .inr ⟨m', ?_, hg, ?_, by rw [hd]; rfl⟩
        · rw [Prog.bind_ok _ hok, readSlot_run, entryAt_of_hasSlot (hg.slots _ _ hslot)]
        · rw [hd]
          exact haccess.imp_right fun hu => huser.trans hu
  · rw [Prog.onlyIf, if_neg hdemand]
    rw [Bool.not_eq_true, ← hentry] at hdemand
    exact .inr ⟨m, by rw [Prog.bind_ok _ (Prog.pure_run' () m), readSlot_run, hentry], .refl h,
      haccess, hdemand⟩

/-- Before the edit of a transfer: the source maps `d`, and the destination is free. -/
structure Paired (m : Memory) (pid : PID) (srcAddr : Nat) (destPid : PID) (destAddr : Nat)
    (d : PageTableDescriptor) : Prop where
  src : m.entryAt pid (srcAddr / PAGE_SIZE) = .mapped d
  srcAligned : srcAddr % PAGE_SIZE = 0
  user : pid = PID.kernel ∨ d.user = true
  dest : HasSlot m destPid (destAddr / PAGE_SIZE)
  free : m.entryAt destPid (destAddr / PAGE_SIZE) = .empty
  destAligned : destAddr % PAGE_SIZE = 0

theorem getL2Slot_ok {addr v : Nat} {m' : Memory}
    (h : MemoryMapping.getL2Slot pid addr m = (.ok v, m')) : addr % PAGE_SIZE = 0 := by
  by_contra hne
  rw [MemoryMapping.getL2Slot, if_pos hne] at h
  cases h

theorem movePageTables_cases (h : Ready m) (hS : S pid (srcAddr / PAGE_SIZE)) :
    (∃ e m', MemoryMapping.movePage pid srcAddr destPid destAddr m = (.err e, m') ∧
      Grown S m m') ∨
    ∃ d m', Grown S m m' ∧ Paired m' pid srcAddr destPid destAddr d ∧
      MemoryMapping.movePage pid srcAddr destPid destAddr m = (.ok d.phys,
        (m'.write pid (srcAddr / PAGE_SIZE) .empty).write destPid (destAddr / PAGE_SIZE)
          (.mapped d)) := by
  unfold MemoryMapping.movePage
  rcases getL2Slot_cases m pid srcAddr with ⟨e, herr, -⟩ | ⟨hok, hslot⟩
  · exact .inl ⟨e, m, Prog.bind_err _ herr, .refl h⟩
  have haligned := getL2Slot_ok hok
  rw [Prog.bind_ok _ hok]
  rcases backedEntry_cases h hslot hS with ⟨e, herr⟩ | ⟨m₁, hok₁, hg, huser, hdemand⟩
  · exact .inl ⟨e, m, Prog.bind_err _ herr, .refl h⟩
  rw [Prog.bind_ok _ hok₁]
  cases hentry : m₁.entryAt pid (srcAddr / PAGE_SIZE) with
  | empty => exact .inl ⟨_, m₁, rfl, hg⟩
  | unmapped frame flags user =>
    rw [hentry] at hdemand
    have hframe : frame * PAGE_SIZE ≠ 0 :=
      Nat.mul_ne_zero (of_decide_eq_false hdemand) PAGE_SIZE_pos.ne'
    refine .inl ⟨.badAddress, m₁, ?_, hg⟩
    rw [if_neg (by exact nofun), Prog.bind_ok _ (Prog.ofExcept_run (x := L2TableEntry.phys _) rfl m₁)]
    dsimp only
    rw [if_pos hframe]
    rfl
  | mapped d =>
    rw [hentry] at huser
    rw [if_pos (show (L2TableEntry.mapped d).isMapped = true from rfl),
      Prog.bind_ok _ (Prog.pure_run 0 m₁)]
    dsimp only
    rw [if_neg (not_not.2 rfl)]
    rcases allocateL2Slot_cases (S := S) hg.ready destPid destAddr with
      ⟨e, m', herr, hg'⟩ | ⟨m', hok', hg', hdest, hfree, hdestAligned⟩
    · exact .inl ⟨e, m', Prog.bind_err _ herr, hg.trans hg'⟩
    · exact .inr ⟨d, m', hg.trans hg', ⟨hg'.mapped hentry, haligned, huser, hdest, hfree,
        hdestAligned⟩, Prog.bind_ok _ hok'⟩

/-- The entry that a page is lent with. -/
def lentEntry (mutable : Bool) (d : PageTableDescriptor) : PageTableDescriptor :=
  if mutable then d else { d with ap2 := true }

@[simp] theorem lentEntry_phys (mutable : Bool) (d : PageTableDescriptor) :
    (lentEntry mutable d).phys = d.phys := by
  cases mutable <;> rfl

/-- The entry that stays in the lender's table. -/
def reservedEntry (d : PageTableDescriptor) : L2TableEntry :=
  .unmapped d.frame (decodeFlags d) d.user

theorem lendPageTables_cases (h : Ready m) (hS : S pid (srcAddr / PAGE_SIZE)) (mutable : Bool) :
    (∃ e m', MemoryMapping.lendPage pid srcAddr destPid destAddr mutable m = (.err e, m') ∧
      Grown S m m') ∨
    ∃ d m', Grown S m m' ∧ Paired m' pid srcAddr destPid destAddr d ∧
      MemoryMapping.lendPage pid srcAddr destPid destAddr mutable m = (.ok d.phys,
        (m'.write pid (srcAddr / PAGE_SIZE) (reservedEntry d)).write destPid
          (destAddr / PAGE_SIZE) (.mapped (lentEntry mutable d))) := by
  unfold MemoryMapping.lendPage
  rcases getL2Slot_cases m pid srcAddr with ⟨e, herr, -⟩ | ⟨hok, hslot⟩
  · exact .inl ⟨e, m, Prog.bind_err _ herr, .refl h⟩
  have haligned := getL2Slot_ok hok
  rw [Prog.bind_ok _ hok]
  rcases backedEntry_cases h hslot hS with ⟨e, herr⟩ | ⟨m₁, hok₁, hg, huser, -⟩
  · exact .inl ⟨e, m, Prog.bind_err _ herr, .refl h⟩
  rw [Prog.bind_ok _ hok₁]
  cases hentry : m₁.entryAt pid (srcAddr / PAGE_SIZE) with
  | empty => exact .inl ⟨_, m₁, rfl, hg⟩
  | unmapped frame flags user => exact .inl ⟨_, m₁, rfl, hg⟩
  | mapped d =>
    rw [hentry] at huser
    rw [if_neg (by exact nofun)]
    rcases allocateL2Slot_cases (S := S) hg.ready destPid destAddr with
      ⟨e, m', herr, hg'⟩ | ⟨m', hok', hg', hdest, hfree, hdestAligned⟩
    · exact .inl ⟨e, m', Prog.bind_err _ herr, hg.trans hg'⟩
    · refine .inr ⟨d, m', hg.trans hg', ⟨hg'.mapped hentry, haligned, huser, hdest, hfree,
        hdestAligned⟩, ?_⟩
      rw [Prog.bind_ok _ hok']
      cases mutable <;> rfl

/-- Both entries name the same physical address; the destination maps it now. -/
theorem returnPageTables_cases (m : Memory) (pid : PID) (srcAddr : Nat) (destPid : PID)
    (destAddr : Nat) :
    (∃ e, MemoryMapping.returnPage pid srcAddr destPid destAddr m = (.err e, m)) ∨
    ∃ d, HasSlot m pid (srcAddr / PAGE_SIZE) ∧ HasSlot m destPid (destAddr / PAGE_SIZE) ∧
      (m.entryAt pid (srcAddr / PAGE_SIZE)).phys = .ok d.phys ∧
      (m.entryAt destPid (destAddr / PAGE_SIZE)).phys = .ok d.phys ∧
      (m.entryAt destPid (destAddr / PAGE_SIZE)).toMapped = .ok (.mapped d) ∧
      MemoryMapping.returnPage pid srcAddr destPid destAddr m = (.ok d.phys,
        (m.write pid (srcAddr / PAGE_SIZE) .empty).write destPid (destAddr / PAGE_SIZE)
          (.mapped d)) := by
  unfold MemoryMapping.returnPage
  rcases getL2Slot_cases m pid srcAddr with ⟨e, herr, -⟩ | ⟨hok, hslot⟩
  · exact .inl ⟨e, Prog.bind_err _ herr⟩
  rw [Prog.bind_ok _ hok]
  rcases getL2Slot_cases m destPid destAddr with ⟨e, herr, -⟩ | ⟨hok', hslot'⟩
  · exact .inl ⟨e, Prog.bind_err _ herr⟩
  rw [Prog.bind_ok _ hok', Prog.bind_ok _ (readSlot_run _ _ _), Prog.bind_ok _ (readSlot_run _ _ _),
    ← entryAt_of_hasSlot hslot, ← entryAt_of_hasSlot hslot']
  generalize m.entryAt pid (srcAddr / PAGE_SIZE) = src
  generalize m.entryAt destPid (destAddr / PAGE_SIZE) = dest
  cases hsrc : src.phys with
  | error e => exact .inl ⟨e, rfl⟩
  | ok srcPhys =>
    cases hdest : dest.phys with
    | error e => exact .inl ⟨e, rfl⟩
    | ok destPhys =>
      rw [Prog.bind_ok _ (Prog.ofExcept_ok_run _ m), Prog.bind_ok _ (Prog.ofExcept_ok_run _ m)]
      by_cases heq : srcPhys = destPhys
      · rw [if_neg (not_not.2 heq), Prog.bind_ok _ (writeSlot_run _ _ _ _)]
        subst heq
        have hmapped : ∃ d, dest.toMapped = .ok (.mapped d) ∧ d.phys = srcPhys := by
          cases dest with
          | empty => cases hdest
          | mapped d => exact ⟨d, rfl, Except.ok.inj hdest⟩
          | unmapped frame flags user =>
            cases hdest
            rcases newMapped_cases (frame * PAGE_SIZE) flags user with
              ⟨hmod, -⟩ | ⟨d, hd, hphys, -⟩
            · exact absurd (Nat.mul_mod_left _ _) hmod
            · exact ⟨d, hd, hphys⟩
        obtain ⟨d, hd, rfl⟩ := hmapped
        refine .inr ⟨d, hslot, hslot', rfl, rfl, hd, ?_⟩
        rw [Prog.bind_ok _ (Prog.ofExcept_run hd _)]
        rfl
      · rw [if_pos heq]
        exact .inl ⟨_, rfl⟩

/-! ## 3. Both halves -/

/-- The owner follows a page that was moved from one entry to the other. -/
theorem moveOwner_triple {A : Panic → Prop} {v w : Nat} {e : L2TableEntry} {d' : PageTableDescriptor}
    (hs : Sound job held new m) (hsrc : m.entryAt pid v = .mapped d) (hdest : HasSlot m destPid w)
    (he : ∀ d, e.normalize ≠ .mapped d) (hphys : d'.phys = d.phys) :
    Prog.Triple (fun s => s = (m.write pid v e).write destPid w (.mapped d'))
      (moveOwner processes d.phys destPid pid) (fun _ => Sound job held new)
      (fun _ => Sound job held new) A := by
  rintro _ rfl
  have hslot : HasSlot m pid v := hasSlot_of_ne_empty (by rw [hsrc]; exact nofun)
  have hcut : Sound job held new (m.write pid v e) := hs.write_unmapped hslot he
  have hpage : ∀ i, RamPage d.phys i → m.ram.mm.allocations i = some pid ∧
      Unmapped (m.write pid v e) i ∧ held i = none ∧ (new i → m.contents i = zerosAt d.phys) := by
    intro i hi
    have hmaps : m.Maps pid v d i := ⟨hsrc, hi⟩
    exact ⟨(hs.owner _ _ _ _ hmaps).1, hs.unmapped_write hslot hmaps he, (hs.owner _ _ _ _ hmaps).2,
      hs.zero _ _ _ _ hmaps⟩
  rcases moveOwner_cases processes (m := (m.write pid v e).write destPid w (.mapped d')) hs.ready
      d.phys destPid pid with ⟨e', herr, hrefused⟩ | ⟨ram, hok, hmoves, howners⟩
  · rw [herr]
    refine hcut.mapPage hdest fun i hi => ?_
    rw [hphys] at hi
    exact absurd (hpage i hi).1 (hrefused i hi (Nat.mul_mod_left _ _)).1
  · rw [hok]
    rcases howners with ⟨rfl, hno⟩ | ⟨offset, current, hoffset, -, -, howners⟩
    · exact hcut.mapPage hdest fun i hi => absurd (hphys ▸ hi) (hno i)
    · have hmoved : Sound job held new { m.write pid v e with ram := ram } :=
        hcut.transferred hmoves howners fun hlt => .inr
          ⟨(hpage offset ⟨hoffset, hlt⟩).2.1, (hpage offset ⟨hoffset, hlt⟩).2.2.1⟩
      refine hmoved.mapPage hdest fun i hi => ?_
      rw [hphys] at hi ⊢
      obtain ⟨-, hun, hnone, hzero⟩ := hpage i hi
      obtain rfl : offset = i := Option.some.inj (hoffset.symm.trans hi.1)
      refine ⟨⟨?_, hun⟩, hnone, hzero⟩
      show ram.mm.allocations offset = _
      rw [howners, Function.update_self]

theorem movePage_keeps {A : Panic → Prop} (pid : PID) (srcAddr : Nat) (destPid : PID)
    (destAddr : Nat) :
    Prog.Keeps (Sound job held new) (movePage processes pid srcAddr destPid destAddr) A := by
  intro m hs
  unfold movePage
  rcases movePageTables_cases (S := fun _ _ => True)
    hs.ready trivial with ⟨e, m', herr, hg⟩ | ⟨d, m', hg, hpair, hok⟩
  · rw [Prog.bind_err _ herr]
    exact hg.sound hs
  · rw [Prog.bind_ok _ hok]
    exact moveOwner_triple processes (hg.sound hs) hpair.src hpair.dest empty_ne_mapped rfl _ rfl

theorem lendPage_keeps {A : Panic → Prop} (pid : PID) (srcAddr : Nat) (destPid : PID)
    (destAddr : Nat) (mutable : Bool) :
    Prog.Keeps (Sound job held new) (lendPage processes pid srcAddr destPid destAddr mutable) A := by
  intro m hs
  unfold lendPage
  rcases lendPageTables_cases (S := fun _ _ => True)
    hs.ready trivial mutable with ⟨e, m', herr, hg⟩ | ⟨d, m', hg, hpair, hok⟩
  · rw [Prog.bind_err _ herr]
    exact hg.sound hs
  · rw [Prog.bind_ok _ hok]
    exact moveOwner_triple processes (hg.sound hs) hpair.src hpair.dest
      (unmapped_ne_mapped _ _ _) (lentEntry_phys mutable d) _ rfl

/-- Both entries reserve the same page: the process that returns it has lent it on. -/
def LentOn (m : Memory) (pid : PID) (srcAddr : Nat) (destPid : PID) (destAddr : Nat) : Prop :=
  (m.entryAt pid (srcAddr / PAGE_SIZE)).isShared = true ∧
    (m.entryAt destPid (destAddr / PAGE_SIZE)).isShared = true ∧
    (m.entryAt pid (srcAddr / PAGE_SIZE)).phys = (m.entryAt destPid (destAddr / PAGE_SIZE)).phys

theorem phys_cases {e : L2TableEntry} {phys : Nat} (h : e.phys = .ok phys) :
    (∃ d, e = .mapped d ∧ d.phys = phys) ∨
    ∃ frame flags user, e = .unmapped frame flags user ∧ frame * PAGE_SIZE = phys := by
  cases e with
  | empty => cases h
  | mapped d => exact .inl ⟨d, rfl, Except.ok.inj h⟩
  | unmapped frame flags user => exact .inr ⟨frame, flags, user, rfl, Except.ok.inj h⟩

theorem isShared_of_ramPage {frame i : Nat} (flags : MemoryFlags) (user : Bool)
    (hi : RamPage (frame * PAGE_SIZE) i) : (L2TableEntry.unmapped frame flags user).isShared = true := by
  refine bne_iff_ne.2 ?_
  rintro rfl
  rw [Nat.zero_mul] at hi
  exact not_ramPage_zero i hi

theorem unlendPage_triple {A : Panic → Prop} (hne : pid ≠ destPid) (srcAddr destAddr : Nat) :
    Prog.Triple (fun m => Sound job held new m ∧ ¬ LentOn m pid srcAddr destPid destAddr)
      (unlendPage processes pid srcAddr destPid destAddr) (fun _ => Sound job held new)
      (fun _ => Sound job held new) A := by
  intro m ⟨hs, hlent⟩
  unfold unlendPage
  rcases returnPageTables_cases m pid srcAddr destPid destAddr with
    ⟨e, herr⟩ | ⟨d, hslot, hslot', hsrc, hdest, hmapped, hok⟩
  · rw [Prog.bind_err _ herr]
    exact hs
  rw [Prog.bind_ok _ hok]
  rcases phys_cases hsrc with ⟨ds, hds, hphys⟩ | ⟨frame, flags, user, hsrc', hphys⟩
  · rw [← hphys]
    exact moveOwner_triple processes hs hds hslot' empty_ne_mapped hphys.symm _ rfl
  · -- the source has no page to give back, so the destination has it already
    have hmaps : ∀ i, RamPage d.phys i → m.Maps destPid (destAddr / PAGE_SIZE) d i := by
      intro i hi
      rcases phys_cases hdest with ⟨dd, hdd, -⟩ | ⟨frame', flags', user', hdest', hphys'⟩
      · rw [hdd] at hmapped
        cases hmapped
        exact ⟨hdd, hi⟩
      · refine absurd ⟨?_, ?_, hsrc.trans hdest.symm⟩ hlent
        · rw [hsrc']
          exact isShared_of_ramPage flags user (hphys ▸ hi)
        · rw [hdest']
          exact isShared_of_ramPage flags' user' (hphys' ▸ hi)
    let returned : Memory := (m.write pid (srcAddr / PAGE_SIZE) .empty).write destPid
      (destAddr / PAGE_SIZE) (.mapped d)
    have hreturned : Sound job held new returned := by
      have hcut : Sound job held new (m.write pid (srcAddr / PAGE_SIZE) .empty) :=
        hs.write_unmapped hslot empty_ne_mapped
      by_cases hram : ∃ i, RamPage d.phys i
      · obtain ⟨i, hi⟩ := hram
        refine hs.unmap rfl rfl rfl fun p w d' hd' => ?_
        by_cases hpw : p = destPid ∧ w = destAddr / PAGE_SIZE
        · obtain ⟨rfl, rfl⟩ := hpw
          rw [entryAt_write_self (m := m.write pid (srcAddr / PAGE_SIZE) .empty) hslot'] at hd'
          rw [← show _ = L2TableEntry.mapped d' from hd']
          exact (hmaps i hi).1
        · rw [entryAt_write_of_ne hpw] at hd'
          by_cases hsrc : p = pid ∧ w = srcAddr / PAGE_SIZE
          · obtain ⟨rfl, rfl⟩ := hsrc
            rw [entryAt_write_self hslot] at hd'
            exact absurd hd' (empty_ne_mapped d')
          · rwa [entryAt_write_of_ne hsrc] at hd'
      · exact hcut.mapPage hslot' fun i hi => absurd ⟨i, hi⟩ hram
    rcases moveOwner_cases processes (m := returned) hreturned.ready d.phys destPid pid with
      ⟨e, herr, -⟩ | ⟨ram, hmove, hmoves, howners⟩
    · rw [herr]
      exact hreturned
    · rw [hmove]
      rcases howners with ⟨rfl, -⟩ | ⟨offset, current, hoffset, -, -, howners⟩
      · exact hreturned
      · refine hreturned.transferred hmoves howners fun hlt => .inl ?_
        exact (hs.owner _ _ _ _ (hmaps offset ⟨hoffset, hlt⟩)).1.symm

end Memory

end Kernel
