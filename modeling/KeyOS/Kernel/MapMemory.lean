import KeyOS.Kernel.MappedRanges

/-!
# The calls that map and unmap memory

`mapRange`, the deferred path with its completion, the memory calls of a process and
the on-demand fault. Each keeps a sound state sound, and the pages that it maps are zero
if they were free before. The kernel's own stores can only fault in the one request that
`ReadOnlyRam` describes.
-/

namespace Kernel

open Exec Bitmap

/-! ## 1. Free addresses -/

namespace MemoryMapping

variable {m : Memory} {pid : PID} {needed addr : Nat}

theorem scanFree_spec (first : Nat) : ∀ (left page runStart runLen : Nat), first ≤ page →
    (runLen ≠ 0 → first ≤ runStart ∧ runStart < page) →
    scanFree m pid needed left page runStart runLen = some addr →
    ∃ start, addr = start * PAGE_SIZE ∧ first ≤ start ∧ start < page + left
  | 0, _, _, _, _, _, h => nomatch h
  | left + 1, page, runStart, runLen, hpage, hrun, h => by
    have hstart : first ≤ (if runLen = 0 then page else runStart) ∧
        (if runLen = 0 then page else runStart) < page + 1 := by
      split
      · exact ⟨hpage, Nat.lt_succ_self page⟩
      · next hne => exact ⟨(hrun hne).1, Nat.lt_succ_of_lt (hrun hne).2⟩
    unfold scanFree at h
    split at h
    · dsimp only at h
      split at h
      · cases h
        exact ⟨_, rfl, hstart.1, by omega⟩
      · obtain ⟨start, rfl, hle, hlt⟩ :=
          scanFree_spec first left (page + 1) _ (runLen + 1) (by omega) (fun _ => hstart) h
        exact ⟨start, rfl, hle, by omega⟩
    · obtain ⟨start, rfl, hle, hlt⟩ :=
        scanFree_spec first left (page + 1) _ 0 (by omega) (fun h => absurd rfl h) h
      exact ⟨start, rfl, hle, by omega⟩

theorem findFreeRun_spec {start stop : Nat} (h : findFreeRun m pid start stop needed = some addr) :
    start / PAGE_SIZE * PAGE_SIZE ≤ addr ∧ addr < stop := by
  obtain ⟨page, rfl, hle, hlt⟩ :=
    scanFree_spec _ _ _ _ 0 le_rfl (fun h => absurd rfl h) h
  refine ⟨Nat.mul_le_mul_right _ hle, ?_⟩
  unfold PAGE_SIZE at *
  omega

end MemoryMapping

namespace Memory

variable {m m' : Memory} {pid : PID} {job : Option PendingMapZero} {held : Nat → Option PID}
  {new : Nat → Prop} (processes : PID → Option Process)

theorem Sound.setHint (h : Sound job held new m) {hint : PID → Nat}
    (hhint : ∀ pid, MMAP_AREA_VIRT ≤ hint pid) :
    Sound job held new { m with allocationHint := hint } :=
  ⟨h.job, h.clean, h.owner, h.unique, h.held, h.zero, hhint⟩

theorem findVirtualAddress_cases (m : Memory) (pid : PID) (virt size : Nat) :
    (∃ e, findVirtualAddress pid virt size m = (.err e, m)) ∨
    ∃ addr hint, findVirtualAddress pid virt size m =
        (.ok addr, { m with allocationHint := hint }) ∧
      ((∀ p, MMAP_AREA_VIRT ≤ m.allocationHint p) → virt < 2 ^ 32 →
        (addr ≠ 0 ∧ addr < 2 ^ 32) ∧ ∀ p, MMAP_AREA_VIRT ≤ hint p) := by
  unfold findVirtualAddress
  split
  · next hne => exact .inr ⟨virt, m.allocationHint, rfl, fun hh hv => ⟨⟨hne, hv⟩, hh⟩⟩
  split
  · exact .inl ⟨_, rfl⟩
  rw [Prog.bind_ok _ (Prog.get_run m)]
  generalize hfound : (MemoryMapping.findFreeRun m pid (m.allocationHint pid) MMAP_AREA_VIRT_END
    (size / PAGE_SIZE)).or _ = found
  cases found with
  | none => exact .inl ⟨_, rfl⟩
  | some addr =>
    rw [Prog.bind_ok _ (Prog.okOr_some_run _ _ m), Prog.bind_ok _ (Prog.modify_run _ m)]
    refine .inr ⟨addr, _, rfl, fun hh _ => ?_⟩
    have hstart : MMAP_AREA_VIRT / PAGE_SIZE * PAGE_SIZE = MMAP_AREA_VIRT := by decide
    have hend : MMAP_AREA_VIRT ≤ addr ∧ addr < MMAP_AREA_VIRT_END := by
      rcases Option.or_eq_some_iff.1 hfound with h | ⟨-, h⟩
      · obtain ⟨hle, hlt⟩ := MemoryMapping.findFreeRun_spec h
        have := Nat.mul_le_mul_right PAGE_SIZE (Nat.div_le_div_right (c := PAGE_SIZE) (hh pid))
        rw [hstart] at this
        exact ⟨this.trans hle, hlt⟩
      · obtain ⟨hle, hlt⟩ := MemoryMapping.findFreeRun_spec h
        rw [hstart] at hle
        exact ⟨hle, hlt.trans_le (Nat.min_le_right _ _)⟩
    refine ⟨⟨(Nat.lt_of_lt_of_le (by decide : 0 < MMAP_AREA_VIRT) hend.1).ne',
      hend.2.trans (by decide)⟩, fun p => ?_⟩
    rcases eq_or_ne p pid with rfl | hne
    · rw [Function.update_self]
      exact le_min (hend.1.trans (Nat.le_add_right _ _)) (by decide)
    · rw [Function.update_of_ne hne]
      exact hh p

theorem findVirtualAddress_triple {A : Panic → Prop} {virt : Nat} (hvirt : virt < 2 ^ 32)
    (pid : PID) (size : Nat) :
    Prog.Triple (Sound job held new) (findVirtualAddress pid virt size)
      (fun addr m => (addr ≠ 0 ∧ addr < 2 ^ 32) ∧ Sound job held new m)
      (fun _ => Sound job held new) A := by
  intro m hs
  rcases findVirtualAddress_cases m pid virt size with ⟨e, herr⟩ | ⟨addr, hint, hok, hspec⟩
  · rw [herr]
    exact hs
  · rw [hok]
    exact ⟨(hspec hs.hint hvirt).1, hs.setHint (hspec hs.hint hvirt).2⟩

/-! ## 2. Ranges of free pages -/

variable {first phys virt n size : Nat} {flags : MemoryFlags}

theorem pageAddr_add (i k : Nat) : pageAddr i + k * PAGE_SIZE = pageAddr (i + k) := by
  rw [pageAddr, pageAddr, Nat.add_mul, Nat.add_assoc]

theorem nthPage_aliasAddr (hfirst : first + n ≤ RAM_PAGES) (plaintext : Bool) {k : Nat} (hk : k < n) :
    nthPage (aliasAddr plaintext first) k = aliasAddr plaintext (first + k) := by
  have hlt : first < RAM_PAGES := (Nat.lt_add_of_pos_right (Nat.zero_lt_of_lt hk)).trans_le hfirst
  have hlt' : first + k < RAM_PAGES := (Nat.add_lt_add_left hk first).trans_le hfirst
  cases plaintext with
  | false => exact pageAddr_add first k
  | true =>
    show toPlaintextPhysAddr (pageAddr first) + k * PAGE_SIZE =
      toPlaintextPhysAddr (pageAddr (first + k))
    rw [toPlaintextPhysAddr_pageAddr hlt, toPlaintextPhysAddr_pageAddr hlt', Nat.add_mul,
      Nat.add_assoc]

theorem aliasAddr_ne_zero {i : Nat} (hi : i < RAM_PAGES) (plaintext : Bool) :
    aliasAddr plaintext i ≠ 0 := by
  cases plaintext with
  | false => exact fun h => absurd (Nat.eq_zero_of_add_eq_zero h).1 (by decide)
  | true =>
    show toPlaintextPhysAddr (pageAddr i) ≠ 0
    rw [toPlaintextPhysAddr_pageAddr hi]
    exact fun h => absurd (Nat.eq_zero_of_add_eq_zero h).1 (by decide)

/-- The allocator gives out a range of pages that nobody maps, and says whether they
still need zeroing. -/
theorem allocRange_cases (h : Ready m) (n : Nat) (pid : PID) (flags : MemoryFlags) :
    (∃ e, onRam (Ram.allocRange n pid flags) m = (.err e, m)) ∨
    ∃ phys needsZero ram, onRam (Ram.allocRange n pid flags) m =
        (.ok (phys, needsZero), { m with ram := ram }) ∧ phys ≠ 0 ∧
      ∀ {job held new}, Sound job held new m → Sound job held new { m with ram := ram } ∧
        RangeOwned { m with ram := ram } held pid phys n ∧
        (needsZero = false → RangeZero { m with ram := ram } new phys n) := by
  obtain ⟨page, hc⟩ := h
  have hgiven : (∃ e, Ram.allocRange n pid flags m.ram = (.err e, m.ram)) ∨
      ∃ first needsZero ram, Ram.allocRange n pid flags m.ram =
          (.ok (aliasAddr flags.usesPlaintext first, needsZero), ram) ∧ 0 < n ∧
        Ram.Given page m.ram first n pid ram ∧ (needsZero = false → flags.usesPlaintext = false ∧
          ∀ i, first ≤ i ∧ i < first + n → page i = .zeroed) := by
    have halias : ∀ {first zeroed ram}, (∀ i, first ≤ i ∧ i < first + n → zeroed = true →
        page i = .zeroed) → ∃ needsZero, (if (flags.plaintext || flags.noCache || flags.dev) = true
        then pure (toPlaintextPhysAddr (pageAddr first), true)
        else pure (pageAddr first, !zeroed) : Prog Ram Panic Error (Nat × Bool)) ram =
          (.ok (aliasAddr flags.usesPlaintext first, needsZero), ram) ∧
        (needsZero = false → flags.usesPlaintext = false ∧
          ∀ i, first ≤ i ∧ i < first + n → page i = .zeroed) := by
      intro first zeroed ram hzero
      rw [show (flags.plaintext || flags.noCache || flags.dev) = flags.usesPlaintext from rfl]
      cases flags.usesPlaintext with
      | true => exact ⟨true, rfl, nofun⟩
      | false =>
        exact ⟨!zeroed, rfl, fun hz => ⟨rfl, fun i hi => hzero i hi (by simpa using hz)⟩⟩
    unfold Ram.allocRange
    by_cases hone : n = 1
    · subst hone
      rw [if_pos rfl]
      rcases Ram.allocSinglePage_cases hc pid with herr | ⟨first, zeroed, ram, hok, hg, hzero⟩
      · exact .inl ⟨_, Prog.bind_err _ herr⟩
      · obtain ⟨needsZero, hrun, hneeds⟩ := halias
          fun i hi hz => by
            obtain rfl : i = first := Nat.le_antisymm (Nat.le_of_lt_succ hi.2) hi.1
            exact hzero hz
        exact .inr ⟨first, needsZero, ram, (Prog.bind_ok _ hok).trans hrun, Nat.one_pos, hg, hneeds⟩
    · rw [if_neg hone]
      rcases Ram.allocRangeAligned_cases hc Ram.noAlign n pid with
        ⟨e, herr⟩ | ⟨first, zeroed, ram, hok, hg, hzero⟩
      · exact .inl ⟨_, Prog.bind_err _ herr⟩
      · obtain ⟨needsZero, hrun, hneeds⟩ := halias
          fun i hi hz => hzero hz i hi
        refine .inr ⟨first, needsZero, ram, (Prog.bind_ok _ hok).trans hrun, ?_, hg, hneeds⟩
        refine Nat.pos_of_ne_zero fun hzero => ?_
        subst hzero
        cases hok
  rcases hgiven with ⟨e, herr⟩ | ⟨first, needsZero, ram, hok, hpos, hg, hneeds⟩
  · exact .inl ⟨e, onRam_err herr⟩
  · have hfirst : first < RAM_PAGES := (Nat.lt_add_of_pos_right hpos).trans_le hg.le
    have hpage : ∀ k < n, ∀ i, RamPage (nthPage (aliasAddr flags.usesPlaintext first) k) i →
        i = first + k := by
      intro k hk i hi
      rw [nthPage_aliasAddr hg.le _ hk] at hi
      exact hi.inj (ramPage_aliasAddr ((Nat.add_lt_add_left hk first).trans_le hg.le) _)
    refine .inr ⟨_, needsZero, ram, onRam_ok hok, aliasAddr_ne_zero hfirst _,
      fun {job held new} hs => ?_⟩
    obtain ⟨hs', howned⟩ := hs.given hc hg
    refine ⟨hs', ⟨fun k hk i hi => ?_, fun k hk k' hk' i hi hi' => ?_⟩, fun hz k hk i hi _ => ?_⟩
    · rw [hpage k hk i hi]
      exact howned _ ⟨Nat.le_add_right _ _, Nat.add_lt_add_left hk first⟩
    · exact Nat.add_left_cancel ((hpage k hk i hi).symm.trans (hpage k' hk' i hi'))
    · obtain ⟨hplain, hzeroed⟩ := hneeds hz
      have heq := hpage k hk i hi
      have hi' : first ≤ i ∧ i < first + n := by
        rw [heq]
        exact ⟨Nat.le_add_right _ _, Nat.add_lt_add_left hk first⟩
      show m.contents i = _
      rw [hs.zeroed hc hi.2 (hzeroed i hi'), nthPage_aliasAddr hg.le _ hk, hplain]
      exact (zerosAt_pageAddr _).symm

/-- The page after one outside RAM is outside RAM, but for the pages below the aliases. -/
theorem outside_next {addr : Nat} (hrefused : ¬ Refused addr)
    (h : (isAddressInPlaintextDram addr || isAddressEncrypted addr) = false) :
    (isAddressInPlaintextDram (addr + PAGE_SIZE) || isAddressEncrypted (addr + PAGE_SIZE)) = false := by
  have hmod : addr &&& 0xfff = addr % 4096 := Nat.and_two_pow_sub_one_eq_mod addr 12
  unfold Refused at hrefused
  rw [hmod] at hrefused
  simp only [isAddressInPlaintextDram, isAddressEncrypted, Range.contains, PLAINTEXT_DRAM_BASE,
    PLAINTEXT_DRAM_END, ENCRYPTED_DRAM_BASE, ENCRYPTED_DRAM_END, RAM_SIZE, PAGE_SIZE,
    Bool.or_eq_false_iff] at h ⊢
  have hplain := of_decide_eq_false h.1
  have hencrypted := of_decide_eq_false h.2
  exact ⟨decide_eq_false (by omega), decide_eq_false (by omega)⟩

/-- A range that starts outside RAM and can be claimed does not reach into it. -/
theorem outside_of_start (hphys : (isAddressInPlaintextDram phys || isAddressEncrypted phys) = false)
    (hrefused : ∀ k < n, ¬ Refused (nthPage phys k)) :
    ∀ k < n, (isAddressInPlaintextDram (nthPage phys k) || isAddressEncrypted (nthPage phys k))
      = false := by
  intro k hk
  induction k with
  | zero => rwa [nthPage, Nat.zero_mul, Nat.add_zero]
  | succ k ih =>
    have hprev := outside_next (hrefused k (Nat.lt_of_succ_lt hk)) (ih (Nat.lt_of_succ_lt hk))
    rwa [nthPage, Nat.succ_mul, ← Nat.add_assoc]

theorem not_ramPage_of_outside {addr i : Nat}
    (h : (isAddressInPlaintextDram addr || isAddressEncrypted addr) = false) : ¬ RamPage addr i :=
  fun hi => absurd hi.2 (Nat.not_lt.2 (addressToAllocationOffset_ge (by rwa [Bool.or_comm]) hi.1))

/-! ## 3. `mapRange` -/

/-- A request for pages of RAM by their address that may not write to them. -/
def ReadOnlyRam (phys size : Nat) (flags : MemoryFlags) : Prop :=
  (isAddressInPlaintextDram phys || isAddressEncrypted phys) = true ∧ size ≠ 0 ∧
    flags.populate = false ∧ flags.w = false

instance (phys size : Nat) (flags : MemoryFlags) : Decidable (ReadOnlyRam phys size flags) :=
  inferInstanceAs (Decidable (_ ∧ _))

/-- The panics of a request to map memory. -/
def MapPanic (phys size : Nat) (flags : MemoryFlags) (p : Panic) : Prop :=
  p = .mapRwx ∨ p = .permissionFault ∧ ReadOnlyRam phys size flags

theorem pageCount_eq (h : size % PAGE_SIZE = 0) : pageCount size = size / PAGE_SIZE := by
  unfold pageCount PAGE_SIZE at *
  omega

theorem MemoryRange.new_cases {addr : Nat} (h : addr ≠ 0 ∧ addr < 2 ^ 32) (hsize : size < 2 ^ 32) :
    (∃ range, MemoryRange.new addr size = .ok range ∧ size ≠ 0) ∨
    MemoryRange.new addr size = .error .badAddress ∧ size = 0 := by
  unfold MemoryRange.new
  rw [show NonZeroUsize.new addr = some ⟨addr, h.1, h.2⟩ from dif_pos h]
  by_cases hzero : size = 0
  · subst hzero
    exact .inr ⟨rfl, rfl⟩
  · rw [show NonZeroUsize.new size = some ⟨size, hzero, hsize⟩ from dif_pos ⟨hzero, hsize⟩]
    exact .inl ⟨_, rfl, hzero⟩

/-- What `mapRange` knows of the physical range before it maps it. -/
def Acquired (job : Option PendingMapZero) (held : Nat → Option PID) (new : Nat → Prop) (pid : PID)
    (phys size : Nat) (flags : MemoryFlags) (range : Nat × Bool) (m : Memory) : Prop :=
  Sound job held new m ∧
    (range.1 ≠ 0 → RangeOwned m held pid range.1 (pageCount size) ∧
      (range.2 = false → RangeZero m new range.1 (pageCount size))) ∧
    (range.2 = true → range.1 ≠ 0 ∧ (flags.w = false → size ≠ 0 → ReadOnlyRam phys size flags))

theorem acquireRange_triple {A : Panic → Prop} (haligned : size % PAGE_SIZE = 0) :
    Prog.Triple (Sound job held new) (acquireRange processes pid phys size flags)
      (Acquired job held new pid phys size flags) (fun _ => Sound job held new) A := by
  refine Prog.Triple.ite (fun hpop => ?_) fun hpop => ?_
  · refine Prog.Triple.ite (fun _ => Prog.Triple.throw fun _ => id) fun hw => ?_
    refine Prog.Triple.ite (fun _ => Prog.Triple.throw fun _ => id) fun _ => ?_
    intro m hs
    rcases allocRange_cases hs.ready (size / PAGE_SIZE) pid flags with
      ⟨e, herr⟩ | ⟨phys', needsZero, ram, hok, hne, hspec⟩
    · rw [herr]
      exact hs
    · rw [hok]
      obtain ⟨hs', howned, hzero⟩ := hspec hs
      rw [← pageCount_eq haligned] at howned hzero
      exact ⟨hs', fun _ => ⟨howned, hzero⟩, fun _ => ⟨hne, fun h => absurd h hw⟩⟩
  · rw [Bool.not_eq_true] at hpop
    refine Prog.Triple.bind (Q := fun _ m => Sound job held new m ∧
      (phys ≠ 0 → RangeOwned m held pid phys (pageCount size) ∧
        ∀ k < pageCount size, ¬ Refused (nthPage phys k))) ?_ fun _ => Prog.Triple.pure fun m hm => ?_
    · refine Prog.Triple.onlyIf (fun _ => ?_) fun hzero m hs => ⟨hs, fun hne => absurd hne hzero⟩
      exact (claimRange_triple processes pid phys size).post fun _ m hm => ⟨hm.1, fun _ => hm.2⟩
    · refine ⟨hm.1, fun hne => ⟨(hm.2 hne).1, fun hout k hk i hi _ => ?_⟩, fun hin =>
        ⟨fun hzero => ?_, fun hw hsize => ⟨hin, hsize, hpop, hw⟩⟩⟩
      · exact absurd hi (not_ramPage_of_outside (outside_of_start hout (hm.2 hne).2 k hk))
      · rw [show phys = 0 from hzero] at hin
        exact absurd hin (by decide)

/-- Pages that are still to be zeroed are exempt from `new` until they are. -/
theorem mapAcquired_triple {virt phys' : Nat} (hvirt : virt ≠ 0 ∧ virt < 2 ^ 32)
    (hsize : size < 2 ^ 32) (zeroAfterAlloc : Bool) (user : Bool) :
    Prog.Triple (Acquired job held new pid phys size flags (phys', zeroAfterAlloc))
      (do
        mapAllocatedRange processes pid phys' virt size flags user
        let mem ← Prog.ofExcept (MemoryRange.new virt size)
        Prog.onlyIf (zeroAfterAlloc = true) (zeroRange pid virt size)
        pure mem)
      (fun _ => Sound job held new) (fun _ => Sound job held new) (MapPanic phys size flags) := by
  by_cases hphys : phys' = 0
  · subst hphys
    refine Prog.Triple.bind (Q := fun _ m => zeroAfterAlloc = false ∧ Sound job held new m) ?_
      fun _ => Prog.Triple.assume fun hz => ?_
    · intro m hm
      have hz : zeroAfterAlloc = false :=
        Bool.eq_false_of_not_eq_true fun hz => absurd rfl (hm.2.2 hz).1
      exact (mapOnDemandRange_keeps processes size user).conseq (fun _ => id)
        (fun _ _ hs => ⟨hz, hs⟩) (fun _ _ => id) (fun _ => .inl) m hm.1
    · subst hz
      refine Prog.Triple.bind (Q := fun _ => Sound job held new)
        (Prog.Triple.ofExcept (fun _ _ _ => id) fun _ _ _ => id) fun _ => ?_
      exact Prog.Triple.bind (Q := fun _ => Sound job held new)
        (Prog.Triple.onlyIf (fun h => absurd h (by exact nofun)) fun _ _ => id)
        fun _ => Prog.Triple.pure fun _ => id
  · cases zeroAfterAlloc with
    | false =>
      refine Prog.Triple.bind (Q := fun _ => Sound job held new) ?_ fun _ => ?_
      · exact (mapAllocatedRange_triple processes hphys size user).conseq
          (fun m hm => ⟨hm.1, (hm.2.1 hphys).1, (hm.2.1 hphys).2 rfl⟩) (fun _ _ hm => hm.1)
          (fun _ _ hm => hm.1) fun _ => .inl
      · refine Prog.Triple.bind (Q := fun _ => Sound job held new)
          (Prog.Triple.ofExcept (fun _ _ _ => id) fun _ _ _ => id) fun _ => ?_
        exact Prog.Triple.bind (Q := fun _ => Sound job held new)
          (Prog.Triple.onlyIf (fun h => absurd h (by exact nofun)) fun _ _ => id)
          fun _ => Prog.Triple.pure fun _ => id
    | true =>
      let rest (i : Nat) : Prop := new i ∧ ∀ k < pageCount size, ¬ RamPage (nthPage phys' k) i
      refine Prog.Triple.bind (Q := fun _ m => (flags.w = false → size ≠ 0 →
          ReadOnlyRam phys size flags) ∧ Sound job held rest m ∧
          RangeMapped m pid phys' virt flags (pageCount size)) ?_
        fun _ => Prog.Triple.assume fun hro => ?_
      · intro m hm
        refine (mapAllocatedRange_triple processes hphys size user).conseq
          (S := fun m' => m' = m) (fun m' heq => ?_) (fun _ _ h => ⟨(hm.2.2 rfl).2, h⟩)
          (fun _ m' h => ?_) (fun _ => .inl) m rfl
        · rw [heq]
          exact ⟨hm.1.renew fun _ _ _ _ _ hn => .inl hn.1, (hm.2.1 hphys).1,
            fun k hk i hi hn => absurd hi (hn.2 k hk)⟩
        · refine h.1.renew fun p w d i hmaps hn => .inl ⟨hn, fun k hk hi => ?_⟩
          exact absurd hmaps ((h.2 k (List.mem_range.2 hk) i hi).1 p w d)
      · rcases MemoryRange.new_cases hvirt hsize with ⟨range, hok, hne⟩ | ⟨herr, hzero⟩
        · rw [hok]
          refine Prog.Triple.bind (Q := fun _ m => Sound job held rest m ∧
            RangeMapped m pid phys' virt flags (pageCount size)) (Prog.Triple.pure fun _ => id)
            fun _ => ?_
          refine Prog.Triple.bind (Q := fun _ => Sound job held new) ?_
            fun _ => Prog.Triple.pure fun _ => id
          rw [Prog.onlyIf, if_pos rfl]
          exact (zeroRange_triple size).conseq (fun _ => id) (fun _ _ => id)
            (fun _ _ => False.elim) fun p hp => .inr ⟨hp.1, hro hp.2 hne⟩
        · rw [herr]
          refine Prog.Triple.bind (Q := fun _ _ => False) (Prog.Triple.throw fun m hm => ?_)
            fun _ _ => False.elim
          refine hm.1.renew fun p w d i hmaps hn => .inl ⟨hn, fun k hk => ?_⟩
          rw [hzero] at hk
          exact absurd hk (Nat.not_lt_zero k)

theorem mapRange_triple (hvirt : virt < 2 ^ 32) (hsize : size < 2 ^ 32)
    (haligned : size % PAGE_SIZE = 0) (user : Bool) :
    Prog.Triple (Sound job held new) (mapRange processes pid phys virt size flags user)
      (fun _ => Sound job held new) (fun _ => Sound job held new) (MapPanic phys size flags) := by
  unfold mapRange
  refine Prog.Triple.bind (findVirtualAddress_triple hvirt pid size) fun addr =>
    Prog.Triple.assume fun haddr => ?_
  refine Prog.Triple.bind (acquireRange_triple processes haligned) fun range => ?_
  obtain ⟨phys', zeroAfterAlloc⟩ := range
  exact mapAcquired_triple processes haddr hsize zeroAfterAlloc user

/-! ## 4. The deferred path -/

instance (phys i : Nat) : Decidable (RamPage phys i) := inferInstanceAs (Decidable (_ ∧ _))

/-- The pages that the zeroing request keeps for its process. -/
def heldBy (job : Option PendingMapZero) (i : Nat) : Option PID :=
  job.bind fun j =>
    if ∃ k, k < pageCount j.size ∧ RamPage (nthPage j.phys k) i then some j.pid else none

/-- A request that `mapWithDeferredZeroing` made. -/
structure WellFormed (job : PendingMapZero) : Prop where
  phys : job.phys ≠ 0
  virt : job.virt < 2 ^ 32
  size : job.size < 2 ^ 32
  distinct : ∀ k < pageCount job.size, ∀ k' < pageCount job.size, ∀ i,
    RamPage (nthPage job.phys k) i → RamPage (nthPage job.phys k') i → k = k'

/-- A sound state between two calls. -/
def Settled (new : Nat → Prop) (m : Memory) : Prop :=
  ∃ job, Sound job (heldBy job) new m ∧ ∀ j, job = some j → WellFormed j

theorem Settled.keeps {α : Type} {x : Prog Memory Panic Error α} {A : Panic → Prop}
    (h : ∀ job, Prog.Keeps (Sound job (heldBy job) new) x A) : Prog.Keeps (Settled new) x A := by
  intro m ⟨job, hs, hwf⟩
  exact (h job).conseq (S := fun m' => m' = m) (fun m' heq => heq ▸ hs)
    (fun _ _ hs' => ⟨job, hs', hwf⟩) (fun _ _ hs' => ⟨job, hs', hwf⟩) (fun _ => id) m rfl

/-- A request is taken up, or it is over. -/
theorem Sound.setJob (h : Sound job held new m) (job' : Option PendingMapZero) :
    Sound job' held new { m with ram := { m.ram with mm :=
      { m.ram.mm with pendingMapZero := job' } } } := by
  obtain ⟨page, hc, hz⟩ := h.clean
  exact ⟨rfl, ⟨page, ⟨⟨hc.owner, hc.dirty, hc.zeroed, hc.zeroing, hc.dirtyHint, hc.zeroedHint,
    hc.zeroer⟩, hc.count⟩, hz⟩, h.owner, h.unique, h.held, h.zero, h.hint⟩

theorem setJob_run (job' : Option PendingMapZero) (m : Memory) :
    onRam (Ram.modifyMm fun mm => { mm with pendingMapZero := job' }) m =
      (.ok (), { m with ram := { m.ram with mm := { m.ram.mm with pendingMapZero := job' } } }) := rfl

/-- Between the allocation of a range and its mapping. -/
def Ranged (job : Option PendingMapZero) (held : Nat → Option PID) (new : Nat → Prop) (pid : PID)
    (phys n : Nat) (m : Memory) : Prop :=
  Sound job held new m ∧ RangeOwned m held pid phys n ∧ RangeZero m new phys n

theorem attemptAddress_triple {α : Type} {R : α → Memory → Prop} {E : Error → Memory → Prop}
    {A : Panic → Prop} {next : Except Error Nat → Prog Memory Panic Error α} {p : PID}
    (hvirt : virt < 2 ^ 32)
    (hnext : ∀ result, Prog.Triple (Ranged job held new pid phys n) (next result) R E A) :
    Prog.Triple (Ranged job held new pid phys n)
      ((findVirtualAddress p virt size).attempt >>= next) R E A := by
  refine Prog.Triple.bind (Q := fun _ => Ranged job held new pid phys n)
    (Prog.Triple.attempt ?_) hnext
  intro m hm
  rcases findVirtualAddress_cases m p virt size with ⟨e, herr⟩ | ⟨addr, hint, hok, hspec⟩
  · rw [herr]
    exact hm
  · rw [hok]
    exact ⟨hm.1.setHint (hspec hm.1.hint hvirt).2, ⟨hm.2.1.owned, hm.2.1.distinct⟩, hm.2.2⟩

theorem releaseRanged_triple {E : Error → Memory → Prop} {A : Panic → Prop} :
    Prog.Triple (Ranged job held new pid phys (pageCount size))
      (releaseRange processes phys size pid) (fun _ => Sound job held new) E A :=
  (releaseRange_triple processes phys size pid).conseq
    (fun _ hm => ⟨hm.1, fun _ => hm.2.1.loose⟩) (fun _ _ hm => hm.1) (fun _ _ => id) fun _ => id

theorem mapRanged_triple (hphys : phys ≠ 0) (addr : Nat) :
    Prog.Triple (Ranged job held new pid phys (pageCount size))
      (mapAllocatedRange processes pid phys addr size flags true) (fun _ => Sound job held new)
      (fun _ => Sound job held new) fun p => p = .mapRwx :=
  (mapAllocatedRange_triple processes hphys size true).conseq (fun _ => id) (fun _ _ h => h.1)
    (fun _ _ h => h.1) fun _ => id

theorem mapWithDeferredZeroing_keeps (hvirt : virt < 2 ^ 32) (hsize : size < 2 ^ 32)
    (haligned : size % PAGE_SIZE = 0) (pid : PID) (tid : TID) :
    Prog.Keeps (Settled new) (mapWithDeferredZeroing processes pid tid virt size flags)
      fun p => p = .mapRwx := by
  unfold mapWithDeferredZeroing
  refine Prog.Triple.ite (fun _ => Prog.Triple.throw fun _ => id) fun _ => ?_
  refine Prog.Triple.ite (fun _ => Prog.Triple.throw fun _ => id) fun _ => ?_
  intro m ⟨job, hs, hwf⟩
  rw [Prog.bind_ok _ (Prog.get_run m)]
  by_cases hidle : m.ram.mm.pendingMapZero.isSome = true
  · rw [if_pos hidle]
    exact ⟨job, hs, hwf⟩
  rw [if_neg hidle]
  obtain rfl : job = none := by
    rw [← hs.job]
    exact Option.not_isSome_iff_eq_none.1 hidle
  rcases allocRange_cases hs.ready (size / PAGE_SIZE) pid flags with
    ⟨e, herr⟩ | ⟨phys, needsZero, ram, hok, hne, hspec⟩
  · rw [Prog.bind_err _ herr]
    exact ⟨none, hs, nofun⟩
  rw [Prog.bind_ok _ hok]
  obtain ⟨hs', howned, hzero⟩ := hspec hs
  rw [← pageCount_eq haligned] at howned hzero
  have hclosed : ∀ m, Sound none (heldBy none) new m → Settled new m := fun m hm => ⟨none, hm, nofun⟩
  dsimp only
  by_cases hz : needsZero = false
  · -- the pages are zeroed already
    rw [if_pos hz]
    refine Prog.Triple.conseq (P := Ranged none (heldBy none) new pid phys (pageCount size))
      (Q := fun _ => Sound none (heldBy none) new) (E := fun _ => Sound none (heldBy none) new)
      (A := fun p => p = .mapRwx) (attemptAddress_triple hvirt fun result => ?_) (fun _ => id)
      (fun _ => hclosed) (fun _ => hclosed) (fun _ => id) _ ⟨hs', howned, hzero hz⟩
    cases result with
    | error e =>
      exact Prog.Triple.bind (releaseRanged_triple processes) fun _ => Prog.Triple.throw fun _ => id
    | ok addr =>
      refine Prog.Triple.bind (mapRanged_triple processes hne addr) fun _ => ?_
      exact Prog.Triple.bind (Q := fun _ => Sound none (heldBy none) new)
        (Prog.Triple.ofExcept (fun _ _ _ => id) fun _ _ _ => id) fun _ => Prog.Triple.pure fun _ => id
  · -- from now on the request keeps the pages
    rw [if_neg hz]
    let request : PendingMapZero := ⟨phys, virt, size, flags, pid, tid⟩
    rw [Prog.bind_ok _ (setJob_run (some request) _)]
    refine ⟨some request, (hs'.rehold fun i _ q hq => ?_).setJob (some request), fun j hj => ?_⟩
    · have hq : (if ∃ k, k < pageCount size ∧ RamPage (nthPage phys k) i then some pid else none)
        = some q := hq
      split at hq
      · next hin =>
        obtain ⟨k, hk, hi⟩ := hin
        cases hq
        exact .inr (howned.owned k hk i hi).1
      · cases hq
    · cases hj
      exact ⟨hne, hvirt, hsize, howned.distinct⟩

/-- The completion of a request whose pages are zero by now. -/
theorem mapZeroFinished_triple {A : Panic → Prop} (hA : A .mapRwx) :
    Prog.Triple (fun m => Settled new m ∧ ∀ job, m.ram.mm.pendingMapZero = some job →
        RangeZero m new job.phys (pageCount job.size))
      (mapZeroFinished processes) (fun _ => Settled new) (fun _ => Settled new) A := by
  intro m ⟨⟨job, hs, hwf⟩, hzero⟩
  unfold mapZeroFinished
  rw [Prog.bind_ok _ (Prog.get_run m)]
  rw [hs.job] at hzero
  cases job with
  | none =>
    rw [hs.job]
    exact ⟨none, hs, hwf⟩
  | some request =>
    rw [hs.job]
    dsimp only
    rw [Prog.bind_ok _ (setJob_run none m)]
    have hwf := hwf request rfl
    have hclosed : ∀ m, Sound none (heldBy none) new m → Settled new m :=
      fun m hm => ⟨none, hm, nofun⟩
    have howned : RangeOwned m (heldBy none) request.pid request.phys (pageCount request.size) :=
      ⟨fun k hk i hi => ⟨hs.owned_of_held hi.2 (if_pos ⟨k, hk, hi⟩), rfl⟩, hwf.distinct⟩
    have hs' : Sound none (heldBy none) new { m with ram := { m.ram with mm :=
        { m.ram.mm with pendingMapZero := none } } } :=
      (hs.rehold fun i _ q (hq : none = some q) => nomatch hq).setJob none
    refine Prog.Triple.conseq
      (P := Ranged none (heldBy none) new request.pid request.phys (pageCount request.size))
      (Q := fun _ => Sound none (heldBy none) new) (E := fun _ => Sound none (heldBy none) new)
      (A := fun p => p = .mapRwx) (attemptAddress_triple hwf.virt fun result => ?_) (fun _ => id)
      (fun _ => hclosed) (fun _ => hclosed) (fun p (hp : p = .mapRwx) => hp ▸ hA) _
      ⟨hs', ⟨howned.owned, howned.distinct⟩, hzero request rfl⟩
    cases result with
    | error e =>
      exact Prog.Triple.bind (releaseRanged_triple processes) fun _ => Prog.Triple.pure fun _ => id
    | ok addr =>
      refine Prog.Triple.bind (Q := fun _ => Sound none (heldBy none) new) (Prog.Triple.attempt ?_)
        fun _ => Prog.Triple.pure fun _ => id
      exact Prog.Triple.bind (mapRanged_triple processes hwf.phys addr) fun _ =>
        Prog.Triple.ofExcept (fun _ _ _ => id) fun _ _ _ => id

/-- The memory call of a process, which never asks for writable and executable pages. -/
theorem mapMemory_keeps (hvirt : virt < 2 ^ 32) (hsize : size < 2 ^ 32) (pid : PID) (tid : TID) :
    Prog.Keeps (Settled new) (mapMemory processes pid tid phys virt size flags)
      (MapPanic phys size flags) := by
  unfold mapMemory
  refine Prog.Triple.ite (fun _ => Prog.Triple.throw fun _ => id) fun _ => ?_
  refine Prog.Triple.ite (fun _ => Prog.Triple.throw fun _ => id) fun haligned => ?_
  rw [not_not] at haligned
  refine Prog.Triple.ite (fun _ => Prog.Triple.throw fun _ => id) fun _ => ?_
  refine Prog.Triple.ite (fun _ => ?_) fun _ => ?_
  · exact (mapWithDeferredZeroing_keeps processes hvirt hsize haligned pid tid).conseq
      (fun _ => id) (fun _ _ => id) (fun _ _ => id) fun _ => .inl
  · refine Settled.keeps fun job => ?_
    exact Prog.Triple.bind (mapRange_triple processes hvirt hsize haligned true)
      fun _ => Prog.Triple.pure fun _ => id

/-! ## 5. Unmapping -/

theorem virtToPhys_cases (m : Memory) (pid : PID) (virt : Nat) :
    (∃ e, MemoryMapping.virtToPhys pid virt m = (.err e, m)) ∨
    ∃ d, MemoryMapping.virtToPhys pid virt m = (.ok d.phys, m) ∧
      m.entryAt pid (virt / PAGE_SIZE) = .mapped d ∧ virt % PAGE_SIZE = 0 := by
  unfold MemoryMapping.virtToPhys
  rcases getL2Slot_cases m pid virt with ⟨e, herr, -⟩ | ⟨hok, hslot⟩
  · rw [Prog.bind_run, Prog.attempt, herr]
    exact .inl ⟨_, rfl⟩
  · have haligned : virt % PAGE_SIZE = 0 := by
      by_contra hne
      rw [MemoryMapping.getL2Slot, if_pos hne] at hok
      cases hok
    rw [Prog.bind_run, Prog.attempt, hok, entryAt_of_hasSlot hslot]
    dsimp only
    rw [Prog.bind_ok _ (readSlot_run _ _ _)]
    cases m.entries pid (virt / PAGE_SIZE) with
    | empty => exact .inl ⟨_, rfl⟩
    | mapped d => exact .inr ⟨d, rfl, rfl, haligned⟩
    | unmapped frame flags user =>
      refine .inl ?_
      rw [if_neg (by exact nofun), if_neg (by exact nofun)]
      split
      · exact ⟨_, rfl⟩
      · exact ⟨_, rfl⟩

/-- The page is released first and unmapped afterwards, both or neither. -/
theorem unmapOne_keeps {A : Panic → Prop} (pid : PID) (addr : Nat) (error : Option Error) :
    Prog.Keeps (Sound job held new) (unmapOne processes pid addr error) A := by
  intro m hs
  unfold unmapOne
  rcases virtToPhys_cases m pid addr with ⟨e, herr⟩ | ⟨d, hok, hd, haligned⟩
  · have hattempt : (MemoryMapping.virtToPhys pid addr).attempt m = (.ok (.error e), m) := by
      rw [Prog.attempt, herr]
    rw [Prog.bind_ok _ hattempt]
    refine Prog.Triple.bind (Q := fun _ => Sound job held new)
      (unmapPage_keeps pid addr).attempt (fun result => ?_) m hs
    cases result <;> exact Prog.Triple.pure fun _ => id
  · have hattempt : (MemoryMapping.virtToPhys pid addr).attempt m = (.ok (.ok d.phys), m) := by
      rw [Prog.attempt, hok]
    rw [Prog.bind_ok _ hattempt]
    obtain ⟨ram, hrelease, hsound⟩ := releasePage_run processes hs.ready d.phys pid
    dsimp only
    rw [Prog.bind_ok _ hrelease]
    have hd' : ({ m with ram := ram } : Memory).entryAt pid (addr / PAGE_SIZE) = .mapped d :=
      (entryAt_congr rfl rfl).trans hd
    rcases unmapPage_cases { m with ram := ram } pid addr with ⟨e, -, hno⟩ | ⟨hunmap, hslot⟩
    · exact hno.elim (absurd haligned) fun hno => absurd hd' (hno d)
    · have hattempt' : (MemoryMapping.unmapPage pid addr).attempt { m with ram := ram } =
          (.ok (.ok ()), ({ m with ram := ram } : Memory).write pid (addr / PAGE_SIZE) .empty) := by
        rw [Prog.attempt, hunmap]
      rw [Prog.bind_ok _ hattempt']
      exact hsound (by rfl)
        (hs.write_unmapped hslot empty_ne_mapped) fun i hi =>
          ⟨hs.unmapped_write hslot ⟨hd, hi⟩ empty_ne_mapped, (hs.owner _ _ _ _ ⟨hd, hi⟩).2⟩

theorem unmapPages_keeps {A : Panic → Prop} (pid : PID) (addrs : List Nat) (error : Option Error) :
    Prog.Keeps (Sound job held new) (unmapPages processes pid addrs error) A := by
  induction addrs generalizing error with
  | nil => exact Prog.Triple.pure fun _ => id
  | cons addr rest ih => exact Prog.Triple.bind (unmapOne_keeps processes pid addr error) ih

theorem unmapRange_keeps {A : Panic → Prop} (pid : PID) (virt len : Nat) :
    Prog.Keeps (Sound job held new) (unmapRange processes pid virt len) A := by
  unfold unmapRange
  refine Prog.Triple.ite (fun _ => Prog.Triple.throw fun _ => id) fun _ => ?_
  refine Prog.Triple.bind (unmapPages_keeps processes pid _ none) fun error => ?_
  cases error with
  | none => exact Prog.Triple.pure fun _ => id
  | some e => exact Prog.Triple.throw fun _ => id

theorem addressUserAccessible_run (m : Memory) (pid : PID) (virt : Nat) :
    ∃ accessible, MemoryMapping.addressUserAccessible pid virt m = (.ok accessible, m) := by
  unfold MemoryMapping.addressUserAccessible
  rcases getL2Slot_cases m pid virt with ⟨e, herr, -⟩ | ⟨hok, -⟩
  · rw [Prog.bind_run, Prog.attempt, herr]
    exact ⟨false, rfl⟩
  · rw [Prog.bind_run, Prog.attempt, hok]
    exact ⟨_, rfl⟩

theorem checkRangeAccessible_keeps {I : Memory → Prop} {A : Panic → Prop} (pid : PID)
    (addr len : Nat) : Prog.Keeps I (checkRangeAccessible pid addr len) A := by
  unfold checkRangeAccessible
  refine Prog.Triple.ite (fun _ => Prog.Triple.throw fun _ => id) fun _ => ?_
  refine Prog.Triple.forEach fun k _ => ?_
  refine Prog.Triple.bind (Q := fun _ => I) (Prog.Triple.of_run fun m hm => ?_) fun accessible =>
    Prog.Triple.ite (fun _ => Prog.Triple.throw fun _ => id) fun _ => Prog.Triple.pure fun _ => id
  obtain ⟨accessible, hok⟩ := addressUserAccessible_run m pid
    (addr / PAGE_SIZE * PAGE_SIZE + k * PAGE_SIZE)
  exact ⟨accessible, m, hok, hm⟩

theorem releaseAllocationHint_keeps {A : Panic → Prop} (pid : PID) (virt : Nat) :
    Prog.Keeps (Sound job held new) (releaseAllocationHint pid virt) A := by
  refine Prog.Triple.onlyIf (fun hin => Prog.Triple.modify fun m hs => hs.setHint fun p => ?_)
    fun _ _ => id
  rcases eq_or_ne p pid with rfl | hne
  · rw [Function.update_self]
    exact le_min (hs.hint p) hin.1
  · rw [Function.update_of_ne hne]
    exact hs.hint p

theorem unmapMemory_keeps {A : Panic → Prop} (pid : PID) (range : MemoryRange) :
    Prog.Keeps (Sound job held new) (unmapMemory processes pid range) A := by
  unfold unmapMemory
  refine Prog.Triple.bind (checkRangeAccessible_keeps pid _ _) fun _ => ?_
  exact Prog.Triple.bind (unmapRange_keeps processes pid _ _) fun _ =>
    releaseAllocationHint_keeps pid _

/-- The on-demand fault. -/
theorem ensureBacked_cases {S : PID → Nat → Prop} (h : Ready m) (virt : Nat)
    (hS : S pid (virt / PAGE_SIZE)) :
    (∃ e, MemoryMapping.ensureBacked pid virt m = (.err e, m)) ∨
    ∃ d m', MemoryMapping.ensureBacked pid virt m = (.ok (), m') ∧ Grown S m m' ∧
      m'.entryAt pid (virt / PAGE_SIZE) = .mapped d := by
  unfold MemoryMapping.ensureBacked
  rcases getL2Slot_cases m pid virt with ⟨e, herr, -⟩ | ⟨hok, hslot⟩
  · exact .inl ⟨e, Prog.bind_err _ herr⟩
  rw [Prog.bind_ok _ hok, Prog.bind_ok _ (readSlot_run _ _ _)]
  have hentry := entryAt_of_hasSlot hslot
  cases he : m.entries pid (virt / PAGE_SIZE) with
  | empty => exact .inl ⟨_, rfl⟩
  | mapped d => exact .inr ⟨d, m, rfl, .refl h, hentry.trans he⟩
  | unmapped frame flags user =>
    rw [if_neg (by exact nofun), if_neg (by exact nofun)]
    split
    · exact .inl ⟨_, rfl⟩
    · next hshared =>
      obtain rfl : frame = 0 := by
        rw [Bool.not_eq_false] at hshared
        exact of_decide_eq_true hshared
      rcases allocateBackingPage_cases h hS hslot (hentry.trans he) with herr | hok
      · exact .inl herr
      · exact .inr hok

end Memory

end Kernel
