import KeyOS.Kernel.PageOps

/-!
# Mapping and unmapping ranges

Every function that maps or unmaps a range keeps a sound state sound, on success, on
every error and for whatever part of the range it reaches.
-/

namespace Kernel

open Exec Bitmap

namespace Memory

variable {m m' : Memory} {pid : PID} {job : Option PendingMapZero} {held : Nat → Option PID}
  {new : Nat → Prop} (processes : PID → Option Process)

/-! ## 1. Claiming and releasing -/

/-- Pages that nobody maps may be released, also when the call fails. -/
theorem releasePage_run (h : Ready m) (addr : Nat) (pid : PID) :
    ∃ ram, (onRam (Ram.releasePage processes addr pid)).ignore m = (.ok (), { m with ram := ram }) ∧
      ∀ {m' : Memory} {job held new}, m'.ram = m.ram → Sound job held new m' →
        (∀ i, RamPage addr i → Unmapped m' i ∧ held i = none) →
        Sound job held new { m' with ram := ram } := by
  unfold Prog.ignore Ram.releasePage
  rcases claimReleaseMove_run processes h addr pid .release with
    ⟨e, herr⟩ | ⟨ram, hok, -, ⟨rfl, -⟩ | ⟨offset, hoffset, ⟨-, howner⟩, hmoves⟩⟩
  · rw [herr]
    exact ⟨m.ram, rfl, fun hram hs _ => hram ▸ hs⟩
  · rw [hok]
    exact ⟨m.ram, rfl, fun hram hs _ => hram ▸ hs⟩
  · rw [hok]
    refine ⟨ram, rfl, fun hram hs hun => ?_⟩
    rw [← hram] at hmoves howner
    exact hs.transferred hmoves howner fun hlt => .inr (hun offset ⟨hoffset, hlt⟩)

/-- `m'` is `m` after `pid` claimed the page at `addr`. -/
structure Claimed (m : Memory) (addr : Nat) (pid : PID) (m' : Memory) : Prop where
  page : ∀ i, RamPage addr i → m.ram.mm.allocations i = none ∧ m'.ram.mm.allocations i = some pid
  other : ∀ i < RAM_PAGES, ¬ RamPage addr i → m'.ram.mm.allocations i = m.ram.mm.allocations i
  sound : ∀ {job held new}, Sound job held new m → Sound job held new m'

theorem claimPage_cases (h : Ready m) (addr : Nat) (pid : PID) :
    (∃ e, onRam (Ram.claimPage processes addr pid) m = (.err e, m)) ∨
    ∃ ram, onRam (Ram.claimPage processes addr pid) m = (.ok (), { m with ram := ram }) ∧
      Claimed m addr pid { m with ram := ram } := by
  unfold Ram.claimPage
  rcases claimReleaseMove_run processes h addr pid .claim with
    herr | ⟨ram, hok, -, ⟨rfl, hno⟩ | ⟨offset, hoffset, ⟨hnone, howner⟩, hmoves⟩⟩
  · exact .inl herr
  · exact .inr ⟨m.ram, hok, fun i hi => absurd hi (hno i), fun _ _ _ => rfl, id⟩
  · refine .inr ⟨ram, hok, fun i hi => ?_, fun i hlt hi => ?_, fun {job held new} hs =>
      hs.transferred hmoves howner fun hlt => .inr ⟨hs.unmapped_of_vacant hnone,
        hs.held_of_vacant hlt hnone⟩⟩
    · obtain rfl : offset = i := Option.some.inj (hoffset.symm.trans hi.1)
      exact ⟨hnone, by rw [howner, Function.update_self]⟩
    · show ram.mm.allocations i = _
      rw [howner, Function.update_of_ne]
      rintro rfl
      exact hi ⟨hoffset, hlt⟩

/-- The address of page `k` of a range. -/
def nthPage (addr k : Nat) : Nat := addr + k * PAGE_SIZE

/-- The pages that `l` names have no entry, and no request keeps them. -/
def Loose (m : Memory) (held : Nat → Option PID) (phys : Nat) (l : List Nat) : Prop :=
  ∀ k ∈ l, ∀ i, RamPage (nthPage phys k) i → Unmapped m i ∧ held i = none

theorem releasePages_triple {E : Error → Memory → Prop} {A : Panic → Prop} (phys : Nat) (pid : PID)
    {l l' : List Nat} (hl : ∀ k ∈ l', k ∈ l) :
    Prog.Triple (fun m => Sound job held new m ∧ m.Loose held phys l)
      (Prog.forEach l' fun k =>
        (onRam (Ram.releasePage processes (phys + k * PAGE_SIZE) pid)).ignore)
      (fun _ m => Sound job held new m ∧ m.Loose held phys l) E A := by
  refine Prog.Triple.forEach fun k hk => Prog.Triple.of_run fun m ⟨hs, hloose⟩ => ?_
  obtain ⟨ram, hok, hsound⟩ := releasePage_run processes hs.ready (phys + k * PAGE_SIZE) pid
  exact ⟨(), _, hok, hsound rfl hs (hloose k (hl k hk)), hloose⟩

theorem releaseRange_triple {E : Error → Memory → Prop} {A : Panic → Prop} (phys size : Nat)
    (pid : PID) :
    Prog.Triple
      (fun m => Sound job held new m ∧ (phys ≠ 0 → m.Loose held phys (List.range (pageCount size))))
      (releaseRange processes phys size pid)
      (fun _ m => Sound job held new m ∧
        (phys ≠ 0 → m.Loose held phys (List.range (pageCount size)))) E A := by
  refine Prog.Triple.onlyIf (fun hphys => ?_) fun _ _ => id
  refine (releasePages_triple processes phys pid
    fun _ => id).conseq (fun m hm => ⟨hm.1, hm.2 hphys⟩) (fun _ m hm => ⟨hm.1, fun _ => hm.2⟩)
    (fun _ _ => id) fun _ => id

/-- Addresses that no process can claim: unaligned, or in one of the two pages below the
aliases of RAM, which are in no region. -/
def Refused (addr : Nat) : Prop := addr &&& 0xfff ≠ 0 ∨ addr = 0x1ffff000 ∨ addr = 0x3ffff000

theorem gap_no_region {addr : Nat} (h : addr = 0x1ffff000 ∨ addr = 0x3ffff000) :
    addressToAllocationOffset addr = none ∧ ∀ base ∈ SHARED_PERIPHERALS,
      (addr == base || addr == base + 0x1000 || addr == base + 0x2000 || addr == base + 0x3000)
        = false := by
  rcases h with rfl | rfl
  · exact ⟨by decide, by decide⟩
  · exact ⟨by decide, by decide⟩

theorem claimPage_refused {addr : Nat} (h : Refused addr) (r : Ram) :
    ∃ e, Ram.claimPage processes addr pid r = (.err e, r) := by
  unfold Ram.claimPage Ram.claimReleaseMove
  split
  · exact ⟨_, rfl⟩
  · next haligned =>
    obtain ⟨hoffset, hshared⟩ := gap_no_region (h.resolve_left haligned)
    have hno : ∀ shared : Except Error Bool,
        (if isAddressEncrypted addr || isAddressInPlaintextDram addr then .ok false
          else Ram.checkPeripheral processes addr pid) = shared → shared ≠ .ok true := by
      rintro shared hchecked rfl
      split at hchecked
      · cases hchecked
      · unfold Ram.checkPeripheral at hchecked
        split at hchecked
        · cases hchecked
        · next p _ =>
          cases hp : p.checkMemoryPermission addr with
          | error e => rw [hp] at hchecked; cases hchecked
          | ok u =>
            rw [hp] at hchecked
            have hany := Except.ok.inj hchecked
            rw [List.any_eq_true] at hany
            obtain ⟨base, hmem, hbase⟩ := hany
            rw [hshared base hmem, Bool.and_false] at hbase
            cases hbase
    generalize hchecked : (if isAddressEncrypted addr || isAddressInPlaintextDram addr then
      Except.ok false else Ram.checkPeripheral processes addr pid) = shared
    rcases shared with e | (_ | _)
    · exact ⟨e, rfl⟩
    · rw [Prog.bind_ok _ (Prog.ofExcept_ok_run _ r), if_neg (by exact nofun), hoffset]
      exact ⟨_, rfl⟩
    · exact absurd rfl (hno _ hchecked)

/-- The pages of RAM in the range belong to `pid`, and nobody maps them. -/
structure RangeOwned (m : Memory) (held : Nat → Option PID) (pid : PID) (phys n : Nat) : Prop where
  owned : ∀ k < n, ∀ i, RamPage (nthPage phys k) i → Owned m pid i ∧ held i = none
  distinct : ∀ k < n, ∀ k' < n, ∀ i, RamPage (nthPage phys k) i → RamPage (nthPage phys k') i →
    k = k'

theorem RangeOwned.loose {phys n : Nat} (h : RangeOwned m held pid phys n) :
    m.Loose held phys (List.range n) := fun k hk i hi =>
  ⟨(h.owned k (List.mem_range.1 hk) i hi).1.2, (h.owned k (List.mem_range.1 hk) i hi).2⟩

/-- Either all pages of a physical range are claimed, or none. -/
theorem claimRange_triple {A : Panic → Prop} (pid : PID) (phys size : Nat) :
    Prog.Triple (Sound job held new) (claimRange processes pid phys size)
      (fun _ m => Sound job held new m ∧ RangeOwned m held pid phys (pageCount size) ∧
        ∀ k < pageCount size, ¬ Refused (nthPage phys k))
      (fun _ => Sound job held new) A := by
  unfold claimRange
  refine Prog.Triple.ite (fun _ => Prog.Triple.throw fun _ => id) fun _ => ?_
  let J (k : Nat) (m : Memory) : Prop := Sound job held new m ∧ RangeOwned m held pid phys k ∧
    ∀ j < k, ¬ Refused (nthPage phys j)
  refine (Prog.Triple.forOrUndo (J := J) (F := J) (G := fun _ => Sound job held new)
    (n := pageCount size) (fun k _ => ?_) (fun k _ e => ?_) (fun _ _ _ => id) _ 0
    (Nat.zero_add _)).pre fun m hs => ⟨hs, ⟨fun _ h => absurd h (Nat.not_lt_zero _),
      fun _ h => absurd h (Nat.not_lt_zero _)⟩, fun _ h => absurd h (Nat.not_lt_zero _)⟩
  · rintro m ⟨hs, howned, hrefused⟩
    rcases claimPage_cases processes hs.ready (phys + k * PAGE_SIZE) pid with
      ⟨e, herr⟩ | ⟨ram, hok, hclaimed⟩
    · rw [herr]
      exact ⟨hs, howned, hrefused⟩
    · rw [hok]
      have hnew : ∀ i, RamPage (nthPage phys k) i → m.ram.mm.allocations i = none :=
        fun i hi => (hclaimed.page i hi).1
      -- the new page had no owner, so it is none of the earlier ones
      have hother : ∀ j < k, ∀ i, RamPage (nthPage phys j) i → ¬ RamPage (nthPage phys k) i := by
        intro j hj i hi hi'
        have := (howned.owned j hj i hi).1.1
        rw [hnew i hi'] at this
        cases this
      refine ⟨hclaimed.sound hs, ⟨fun j hj i hi => ?_, fun j hj j' hj' i hi hi' => ?_⟩,
        fun j hj => ?_⟩
      · rcases Nat.lt_succ_iff_lt_or_eq.1 hj with hlt | rfl
        · obtain ⟨⟨howner, hun⟩, hnone⟩ := howned.owned j hlt i hi
          exact ⟨⟨(hclaimed.other i hi.2 (hother j hlt i hi)).trans howner, hun⟩, hnone⟩
        · exact ⟨⟨(hclaimed.page i hi).2, hs.unmapped_of_vacant (hnew i hi)⟩,
            hs.held_of_vacant hi.2 (hnew i hi)⟩
      · rcases Nat.lt_succ_iff_lt_or_eq.1 hj with hlt | rfl
        · rcases Nat.lt_succ_iff_lt_or_eq.1 hj' with hlt' | rfl
          · exact howned.distinct j hlt j' hlt' i hi hi'
          · exact absurd hi' (hother j hlt i hi)
        · rcases Nat.lt_succ_iff_lt_or_eq.1 hj' with hlt' | rfl
          · exact absurd hi (hother j' hlt' i hi')
          · rfl
      · rcases Nat.lt_succ_iff_lt_or_eq.1 hj with hlt | rfl
        · exact hrefused j hlt
        · intro hg
          obtain ⟨e, herr⟩ := claimPage_refused processes hg m.ram
          have := onRam_err (m := m) herr
          rw [show nthPage phys j = phys + j * PAGE_SIZE from rfl, hok] at this
          cases this
  · exact (releasePages_triple processes phys pid
      fun _ => id).conseq (fun m hm => ⟨hm.1, hm.2.1.loose⟩) (fun _ _ hm => hm.1)
      (fun _ _ => id) fun _ => id

/-! ## 2. Mapping owned pages -/

/-- The page number that page `k` of a range is mapped to. -/
def nthSlot (virt k : Nat) : Nat := wrappingAdd virt (k * PAGE_SIZE) / PAGE_SIZE

/-- The first `n` pages of the range are mapped. -/
structure RangeMapped (m : Memory) (pid : PID) (phys virt : Nat) (flags : MemoryFlags) (n : Nat) :
    Prop where
  mapped : ∀ k < n, ∃ d, m.entryAt pid (nthSlot virt k) = .mapped d ∧ d.phys = nthPage phys k ∧
    d.ap2 = !flags.w
  aligned : ∀ k < n, wrappingAdd virt (k * PAGE_SIZE) % PAGE_SIZE = 0
  apart : ∀ k < n, ∀ k' < n, nthSlot virt k = nthSlot virt k' → k = k'

/-- The new pages of the range are zero. -/
def RangeZero (m : Memory) (new : Nat → Prop) (phys n : Nat) : Prop :=
  ∀ k < n, ∀ i, RamPage (nthPage phys k) i → new i → m.contents i = zerosAt (nthPage phys k)

/-- Before round `k` of `mapAllocatedRange`. -/
structure Mapping (m : Memory) (job : Option PendingMapZero) (held : Nat → Option PID)
    (new : Nat → Prop) (pid : PID) (phys virt : Nat) (flags : MemoryFlags) (n k : Nat) : Prop where
  sound : Sound job held new m
  owned : ∀ j, k ≤ j → j < n → ∀ i, RamPage (nthPage phys j) i → Owned m pid i ∧ held i = none
  zero : RangeZero m new phys n
  mapped : RangeMapped m pid phys virt flags k

variable {S : PID → Nat → Prop} {phys virt n k : Nat} {flags : MemoryFlags}

theorem RangeMapped.grown (h : RangeMapped m pid phys virt flags k) (hg : Grown S m m') :
    RangeMapped m' pid phys virt flags k := by
  refine ⟨fun j hj => ?_, h.aligned, h.apart⟩
  obtain ⟨d, hd, hrest⟩ := h.mapped j hj
  exact ⟨d, hg.mapped hd, hrest⟩

/-- A page of the range has an owner, whether it is mapped yet or not. -/
theorem Mapping.owner (h : Mapping m job held new pid phys virt flags n k) {j i : Nat} (hj : j < n)
    (hi : RamPage (nthPage phys j) i) : m.ram.mm.allocations i = some pid ∧ held i = none := by
  rcases Nat.lt_or_ge j k with hlt | hge
  · obtain ⟨d, hd, hphys, -⟩ := h.mapped.mapped j hlt
    exact h.sound.owner pid _ d i ⟨hd, by rw [hphys]; exact hi⟩
  · exact ⟨(h.owned j hge hj i hi).1.1, (h.owned j hge hj i hi).2⟩

theorem Mapping.grown (h : Mapping m job held new pid phys virt flags n k) (hg : Grown S m m') :
    Mapping m' job held new pid phys virt flags n k := by
  refine ⟨hg.sound h.sound, fun j hkj hjn i hi => ?_, fun j hj i hi hn => ?_, h.mapped.grown hg⟩
  · exact ⟨hg.owned (h.owned j hkj hjn i hi).1, (h.owned j hkj hjn i hi).2⟩
  · rw [hg.contents i (by rw [(h.owner hj hi).1]; exact nofun)]
    exact h.zero j hj i hi hn

/-- One more page is mapped. -/
theorem Mapping.mapPage (h : Mapping m job held new pid phys virt flags n k) (hk : k < n)
    (hdistinct : ∀ k < n, ∀ k' < n, ∀ i, RamPage (nthPage phys k) i →
      RamPage (nthPage phys k') i → k = k')
    (hslot : HasSlot m pid (nthSlot virt k)) (hempty : m.entryAt pid (nthSlot virt k) = .empty)
    (haligned : wrappingAdd virt (k * PAGE_SIZE) % PAGE_SIZE = 0) {d : PageTableDescriptor}
    (hphys : d.phys = nthPage phys k) (hw : d.ap2 = !flags.w) :
    Mapping (m.write pid (nthSlot virt k) (.mapped d)) job held new pid phys virt flags n (k + 1) := by
  have hother : ∀ j < k, nthSlot virt j ≠ nthSlot virt k := by
    intro j hj heq
    obtain ⟨d', hd', -⟩ := h.mapped.mapped j hj
    rw [heq, hempty] at hd'
    cases hd'
  refine ⟨h.sound.mapPage hslot fun i hi => ?_, fun j hkj hjn i hi => ?_, h.zero,
    ⟨fun j hj => ?_, fun j hj => ?_, fun j hj j' hj' heq => ?_⟩⟩
  · rw [hphys] at hi ⊢
    obtain ⟨howned, hnone⟩ := h.owned k le_rfl hk i hi
    exact ⟨howned, hnone, h.zero k hk i hi⟩
  · obtain ⟨⟨howner, hun⟩, hnone⟩ := h.owned j (Nat.le_of_succ_le hkj) hjn i hi
    refine ⟨⟨howner, hun.write fun d' hd' hi' => ?_⟩, hnone⟩
    cases hd'
    rw [hphys] at hi'
    exact absurd (hdistinct k hk j hjn i hi' hi) (Nat.ne_of_lt hkj)
  · rcases Nat.lt_succ_iff_lt_or_eq.1 hj with hlt | rfl
    · obtain ⟨d', hd', hrest⟩ := h.mapped.mapped j hlt
      exact ⟨d', (entryAt_write_of_ne fun heq => hother j hlt heq.2).trans hd', hrest⟩
    · exact ⟨d, entryAt_write_self hslot, hphys, hw⟩
  · rcases Nat.lt_succ_iff_lt_or_eq.1 hj with hlt | rfl
    · exact h.mapped.aligned j hlt
    · exact haligned
  · rcases Nat.lt_succ_iff_lt_or_eq.1 hj with hlt | rfl
    · rcases Nat.lt_succ_iff_lt_or_eq.1 hj' with hlt' | rfl
      · exact h.mapped.apart j hlt j' hlt' heq
      · exact absurd heq (hother j hlt)
    · rcases Nat.lt_succ_iff_lt_or_eq.1 hj' with hlt' | rfl
      · exact absurd heq.symm (hother j' hlt')
      · rfl

/-- While a partial mapping of `k` pages is torn down: the pages in `rest` are still mapped. -/
structure Tearing (m : Memory) (job : Option PendingMapZero) (held : Nat → Option PID)
    (new : Nat → Prop) (pid : PID) (phys virt n k : Nat) (rest : List Nat) : Prop where
  sound : Sound job held new m
  mapped : ∀ j ∈ rest, j < k ∧ ∃ d, m.entryAt pid (nthSlot virt j) = .mapped d ∧
    d.phys = nthPage phys j
  loose : ∀ j < n, j ∉ rest → ∀ i, RamPage (nthPage phys j) i → Unmapped m i ∧ held i = none
  nodup : rest.Nodup

theorem Mapping.tearing (h : Mapping m job held new pid phys virt flags n k) :
    Tearing m job held new pid phys virt n k (List.range k) := by
  refine ⟨h.sound, fun j hj => ?_, fun j hj hmem i hi => ?_, List.nodup_range⟩
  · obtain ⟨d, hd, hphys, -⟩ := h.mapped.mapped j (List.mem_range.1 hj)
    exact ⟨List.mem_range.1 hj, d, hd, hphys⟩
  · rw [List.mem_range, Nat.not_lt] at hmem
    exact ⟨(h.owned j hmem hj i hi).1.2, (h.owned j hmem hj i hi).2⟩

theorem Tearing.unmapPage {j : Nat} {rest : List Nat}
    (h : Tearing m job held new pid phys virt n k (j :: rest))
    (haligned : ∀ k' < k, wrappingAdd virt (k' * PAGE_SIZE) % PAGE_SIZE = 0)
    (hapart : ∀ k₁ < k, ∀ k₂ < k, nthSlot virt k₁ = nthSlot virt k₂ → k₁ = k₂) :
    ∃ m', MemoryMapping.unmapPage pid (wrappingAdd virt (j * PAGE_SIZE)) m = (.ok (), m') ∧
      Tearing m' job held new pid phys virt n k rest := by
  obtain ⟨hjk, d, hd, hphys⟩ := h.mapped j List.mem_cons_self
  rcases unmapPage_cases m pid (wrappingAdd virt (j * PAGE_SIZE)) with ⟨e, -, hno⟩ | ⟨hok, hslot⟩
  · exact hno.elim (absurd (haligned j hjk)) fun hno => absurd hd (hno d)
  · obtain ⟨hnotMem, hnodup⟩ := List.nodup_cons.1 h.nodup
    refine ⟨_, hok, h.sound.write_unmapped hslot empty_ne_mapped, fun j' hj' => ?_, fun j' hj' hmem i hi => ?_,
      hnodup⟩
    · obtain ⟨hjk', d', hd', hphys'⟩ := h.mapped j' (List.mem_cons_of_mem j hj')
      refine ⟨hjk', d', (entryAt_write_of_ne fun heq => ?_).trans hd', hphys'⟩
      rw [hapart j' hjk' j hjk heq.2] at hj'
      exact hnotMem hj'
    · rcases eq_or_ne j' j with rfl | hne
      · have hmaps : m.Maps pid (nthSlot virt j') d i := ⟨hd, by rw [hphys]; exact hi⟩
        exact ⟨h.sound.unmapped_write hslot hmaps empty_ne_mapped, (h.sound.owner _ _ _ _ hmaps).2⟩
      · obtain ⟨hun, hnone⟩ := h.loose j' hj' (by simp [hne, hmem]) i hi
        exact ⟨hun.write fun d' hd' => absurd hd' (empty_ne_mapped d'), hnone⟩

/-- Map pages that the process owns: all of them, or none. -/
theorem mapAllocatedRange_triple (hphys : phys ≠ 0) (size : Nat) (user : Bool) :
    Prog.Triple
      (fun m => Sound job held new m ∧ RangeOwned m held pid phys (pageCount size) ∧
        RangeZero m new phys (pageCount size))
      (mapAllocatedRange processes pid phys virt size flags user)
      (fun _ m => Sound job held new m ∧ RangeMapped m pid phys virt flags (pageCount size))
      (fun _ m => Sound job held new m ∧ m.Loose held phys (List.range (pageCount size)))
      (fun p => p = .mapRwx) := by
  intro m₀ ⟨hs₀, howned₀, hzero₀⟩
  have hdistinct := howned₀.distinct
  unfold mapAllocatedRange
  generalize hn : pageCount size = n at *
  let J (k : Nat) (m : Memory) : Prop := Mapping m job held new pid phys virt flags n k
  refine ((Prog.Triple.forOrUndo (J := J) (F := J) (fun k hk => ?_) (fun k hk e => ?_)
    (fun _ _ _ => id) n 0 (Nat.zero_add n)).post fun _ m h => ⟨h.sound, h.mapped⟩) m₀ ⟨hs₀,
      fun j _ hjn i hi => howned₀.owned j hjn i hi, hzero₀, ⟨fun _ h => absurd h (Nat.not_lt_zero _),
      fun _ h => absurd h (Nat.not_lt_zero _), fun _ h => absurd h (Nat.not_lt_zero _)⟩⟩
  · intro m hm
    have hpage : nthPage phys k ≠ 0 := fun h => hphys (Nat.eq_zero_of_add_eq_zero h).1
    rw [if_neg hphys]
    rcases mapPage_cases (S := fun _ _ => False) hm.sound.ready (nthPage phys k)
        (wrappingAdd virt (k * PAGE_SIZE)) flags user with
      hpanic | ⟨e, m', herr, hg⟩ | ⟨entry, m', hmaps, hg, hslot, hempty, haligned, hok⟩
    · rw [show phys + k * PAGE_SIZE = nthPage phys k from rfl, hpanic]
    · rw [show phys + k * PAGE_SIZE = nthPage phys k from rfl, herr]
      exact hm.grown hg
    · rw [show phys + k * PAGE_SIZE = nthPage phys k from rfl, hok]
      rw [MapsAs, if_neg hpage] at hmaps
      obtain ⟨d, rfl, hd, hw⟩ := hmaps
      exact (hm.grown hg).mapPage hk hdistinct hslot hempty haligned hd hw
  · -- the pages mapped so far are unmapped, and then all pages are released
    intro m hm
    have htear : Prog.Triple (fun m' => m' = m)
        (Prog.forEach (List.range k) fun j =>
          (MemoryMapping.unmapPage pid (wrappingAdd virt (j * PAGE_SIZE))).ignore)
        (fun _ m' => Tearing m' job held new pid phys virt n k [])
        (fun _ m => Sound job held new m ∧ m.Loose held phys (List.range n))
        (fun p => p = .mapRwx) := by
      refine (Prog.Triple.forEach_rest (J := fun rest m' =>
        Tearing m' job held new pid phys virt n k rest) fun j rest => ?_).pre fun m' heq => by
          rw [heq]; exact hm.tearing
      refine Prog.Triple.of_run fun m' hm' => ?_
      obtain ⟨m'', hok, hm''⟩ := hm'.unmapPage hm.mapped.aligned hm.mapped.apart
      exact ⟨(), m'', by rw [Prog.ignore, hok], hm''⟩
    refine Prog.Triple.bind htear (fun _ => ?_) m rfl
    refine (releaseRange_triple processes phys size
      pid).conseq (fun m' hm' => ⟨hm'.sound, fun _ j hj i hi => ?_⟩) (fun _ m' hm' => ⟨hm'.1, ?_⟩)
      (fun _ _ => id) fun _ => id
    · rw [hn, List.mem_range] at hj
      exact hm'.loose j hj (List.not_mem_nil) i hi
    · exact hn ▸ hm'.2 hphys

theorem unmapPage_keeps {A : Panic → Prop} (pid : PID) (addr : Nat) :
    Prog.Keeps (Sound job held new) (MemoryMapping.unmapPage pid addr) A := by
  intro m hs
  rcases unmapPage_cases m pid addr with ⟨e, herr, -⟩ | ⟨hok, hslot⟩
  · rw [herr]
    exact hs
  · rw [hok]
    exact hs.write_unmapped hslot empty_ne_mapped

/-- On-demand pages have no memory yet, so their entries are free to come and go. -/
theorem mapOnDemandRange_keeps (size : Nat) (user : Bool) :
    Prog.Keeps (Sound job held new) (mapAllocatedRange processes pid 0 virt size flags user)
      (fun p => p = .mapRwx) := by
  unfold mapAllocatedRange
  refine Prog.Triple.forOrUndo (J := fun _ => Sound job held new) (F := fun _ => Sound job held new)
    (n := pageCount size) (fun k _ => ?_) (fun k _ e => ?_) (fun _ _ _ => id) _ 0 (Nat.zero_add _)
  · intro m hs
    rw [if_pos rfl]
    rcases mapPage_cases (S := fun _ _ => False) hs.ready 0
        (wrappingAdd virt (k * PAGE_SIZE)) flags user with
      hpanic | ⟨e, m', herr, hg⟩ | ⟨entry, m', hmaps, hg, hslot, -, -, hok⟩
    · rw [hpanic]
    · rw [herr]
      exact hg.sound hs
    · rw [hok]
      rw [MapsAs, if_pos rfl] at hmaps
      rw [hmaps]
      exact (hg.sound hs).write_unmapped hslot (unmapped_ne_mapped _ _ _)
  · refine Prog.Triple.bind (Q := fun _ => Sound job held new)
      (Prog.Triple.forEach fun j _ => (unmapPage_keeps pid _).ignore) fun _ => ?_
    exact Prog.Triple.onlyIf (fun h => absurd rfl h) fun _ _ => id

/-! ## 3. Zeroing and mapping in one call -/

/-- The entry of page `k` of the range, seen from the page. -/
theorem RangeMapped.maps (h : RangeMapped m pid phys virt flags n) (hk : k < n) {i : Nat}
    (hi : RamPage (nthPage phys k) i) :
    ∃ d, m.Maps pid (nthSlot virt k) d i ∧ d.phys = nthPage phys k := by
  obtain ⟨d, hd, hphys, -⟩ := h.mapped k hk
  exact ⟨d, ⟨hd, by rw [hphys]; exact hi⟩, hphys⟩

/-- The kernel zeroes whatever a writable entry maps. -/
theorem zeroThroughSlot_mapped {d : PageTableDescriptor} {v : Nat} (hd : m.entryAt pid v = .mapped d)
    (hw : d.ap2 = false) : ∃ c, zeroThroughSlot pid v m = (.ok (), { m with contents := c }) ∧
      (∀ i, RamPage d.phys i → c i = zerosAt d.phys) ∧
      ∀ i < RAM_PAGES, ¬ RamPage d.phys i → c i = m.contents i := by
  have hslot : HasSlot m pid v := hasSlot_of_ne_empty (by rw [hd]; exact nofun)
  rw [entryAt_of_hasSlot hslot] at hd
  unfold zeroThroughSlot
  rw [Prog.bind_ok _ (readSlot_run _ _ _), hd]
  dsimp only
  rw [Prog.bind_ok _ (Prog.require_run _ (by rw [hw]; rfl) m)]
  exact ⟨_, rfl, fun i hi => if_pos hi.1, fun i hlt hi => if_neg fun heq => hi ⟨heq, hlt⟩⟩

/-- Fill the range with zeros through its own mapping, which has to be writable. -/
theorem zeroRange_triple (size : Nat) :
    Prog.Triple (fun m => Sound job held (fun i => new i ∧ ∀ k < pageCount size,
        ¬ RamPage (nthPage phys k) i) m ∧ RangeMapped m pid phys virt flags (pageCount size))
      (zeroRange pid virt size) (fun _ => Sound job held new) (fun _ _ => False)
      (fun p => p = .permissionFault ∧ flags.w = false) := by
  unfold zeroRange
  generalize hn : pageCount size = n
  let rest' (i : Nat) : Prop := new i ∧ ∀ k < n, ¬ RamPage (nthPage phys k) i
  let J (rest : List Nat) (m : Memory) : Prop := Sound job held rest' m ∧
    RangeMapped m pid phys virt flags n ∧ (∀ k ∈ rest, k < n) ∧
    ∀ k < n, k ∉ rest → ∀ i, RamPage (nthPage phys k) i → m.contents i = zerosAt (nthPage phys k)
  refine (Prog.Triple.forEach_rest (J := J) fun k rest => ?_).conseq
    (fun m hm => ⟨hm.1, hm.2, fun k hk => List.mem_range.1 hk, fun k hk hmem =>
      absurd (List.mem_range.2 hk) hmem⟩) (fun _ m hm => ?_) (fun _ _ => id) fun _ => id
  · rintro m ⟨hs, hmapped, hlt, hzero⟩
    have hk : k < n := hlt k List.mem_cons_self
    obtain ⟨d, hd, hphys, hap2⟩ := hmapped.mapped k hk
    cases hw : flags.w with
    | false =>
      rw [hw] at hap2
      have hslot : HasSlot m pid (nthSlot virt k) := hasSlot_of_ne_empty (by rw [hd]; exact nofun)
      have hpanic : zeroThroughSlot pid (nthSlot virt k) m = (.panic .permissionFault, m) := by
        rw [entryAt_of_hasSlot hslot] at hd
        unfold zeroThroughSlot
        rw [Prog.bind_ok _ (readSlot_run _ _ _), hd]
        dsimp only
        refine Prog.bind_panic _ ?_
        rw [hap2]
        rfl
      rw [show wrappingAdd virt (k * PAGE_SIZE) / PAGE_SIZE = nthSlot virt k from rfl, hpanic]
      exact ⟨rfl, rfl⟩
    | true =>
      rw [hw] at hap2
      obtain ⟨c, hok, hc, hother⟩ := zeroThroughSlot_mapped hd hap2
      rw [show wrappingAdd virt (k * PAGE_SIZE) / PAGE_SIZE = nthSlot virt k from rfl, hok]
      rw [hphys] at hc hother
      refine ⟨?_, ⟨fun j hj => hmapped.mapped j hj, hmapped.aligned, hmapped.apart⟩,
        fun j hj => hlt j (List.mem_cons_of_mem k hj), fun j hj hmem i hi => ?_⟩
      · by_cases hram : ∃ i, RamPage (nthPage phys k) i
        · obtain ⟨i, hi⟩ := hram
          refine hs.setContents (i := i) (c := zerosAt (nthPage phys k)) ?_
            (fun p w d' _ hn' => absurd hi (hn'.2 k hk)) (fun j hj => ?_) rfl
            rfl fun p w => entryAt_congr rfl rfl
          · rw [(hs.owner pid _ d i ⟨hd, by rw [hphys]; exact hi⟩).1]
            exact nofun
          · rcases eq_or_ne j i with rfl | hne
            · exact (hc j hi).trans (if_pos rfl).symm
            · refine (hother j hj fun hj' => hne (hj'.inj hi)).trans (if_neg hne).symm
        · obtain ⟨page, hcons, hz⟩ := hs.clean
          have hsame : ∀ i < RAM_PAGES, c i = m.contents i := fun i hi =>
            hother i hi fun hi' => hram ⟨i, hi'⟩
          exact ⟨hs.job, ⟨page, hcons, fun i hi hp => (hsame i hi).trans (hz i hi hp)⟩, hs.owner,
            hs.unique, hs.held, fun p w d i hm hn' =>
              (hsame i hm.2.2).trans (hs.zero p w d i hm hn'), hs.hint⟩
      · show c i = _
        by_cases hik : RamPage (nthPage phys k) i
        · -- two entries of the range for one page are the same entry
          obtain ⟨d₁, hm₁, -⟩ := hmapped.maps hj hi
          obtain ⟨d₂, hm₂, -⟩ := hmapped.maps hk hik
          have heq := hmapped.apart j hj k hk (hs.unique _ _ _ _ _ _ i hm₁ hm₂).2
          rw [hc i hik, heq]
        · rw [hother i hi.2 hik]
          refine hzero j hj (fun hmem' => ?_) i hi
          rcases List.mem_cons.1 hmem' with rfl | hmem'
          · exact hik hi
          · exact hmem hmem'
  · obtain ⟨hs, hmapped, -, hzero⟩ := hm
    refine hs.renew fun p w d i hmaps hn' => ?_
    by_cases hin : ∃ k < n, RamPage (nthPage phys k) i
    · obtain ⟨k, hk, hi⟩ := hin
      obtain ⟨d', hm', hphys⟩ := hmapped.maps hk hi
      obtain ⟨rfl, rfl⟩ := hs.unique _ _ _ _ _ _ i hmaps hm'
      have heq : d = d' := L2TableEntry.mapped.inj (hmaps.1.symm.trans hm'.1)
      refine .inr ?_
      rw [hzero k hk List.not_mem_nil i hi, heq, hphys]
    · exact .inl ⟨hn', fun k hk hi => hin ⟨k, hk, hi⟩⟩

end Memory

end Kernel
