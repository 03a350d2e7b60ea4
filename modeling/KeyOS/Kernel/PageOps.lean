import KeyOS.Kernel.Slots

/-!
# What the operations on single pages do

One lemma for each operation, from any state in which the allocator is consistent. It
names the state after the operation, and says that a sound state stays sound.
-/

namespace Kernel

open Exec Bitmap

/-! ## 1. Plaintext addresses -/

theorem ramPage_pageAddr {i : Nat} (hi : i < RAM_PAGES) : RamPage (pageAddr i) i :=
  ⟨addressToAllocationOffset_pageAddr hi, hi⟩

theorem plaintext_end_le : PLAINTEXT_DRAM_END ≤ ENCRYPTED_DRAM_BASE := by decide

theorem page_lt {i : Nat} (hi : i < RAM_PAGES) : i * PAGE_SIZE < RAM_SIZE :=
  (Nat.mul_lt_mul_of_pos_right hi PAGE_SIZE_pos).trans_eq RAM_PAGES_mul

theorem two_pow_or_and {offset : Nat} (h : offset < 2 ^ 29) :
    2 ^ 29 ||| ((2 ^ 30 + offset) &&& (2 ^ 30 - 1)) = 2 ^ 29 + offset := by
  have hand : (2 ^ 30 + offset) &&& (2 ^ 30 - 1) = offset := by
    rw [Nat.and_two_pow_sub_one_eq_mod, Nat.add_mod_left, Nat.mod_eq_of_lt]
    exact h.trans_le (Nat.pow_le_pow_right Nat.two_pos (Nat.le_succ 29))
  have hor := Nat.two_pow_add_eq_or_of_lt h 1
  rw [Nat.mul_one] at hor
  rw [hand, hor]

theorem toPlaintextPhysAddr_pageAddr {i : Nat} (hi : i < RAM_PAGES) :
    toPlaintextPhysAddr (pageAddr i) = PLAINTEXT_DRAM_BASE + i * PAGE_SIZE := by
  have hlt : i * PAGE_SIZE < 2 ^ 29 := (page_lt hi).trans (by decide)
  have henc : ENCRYPTED_DRAM_BASE = 2 ^ 30 := by decide
  have hplain : PLAINTEXT_DRAM_BASE = 2 ^ 29 := by decide
  unfold toPlaintextPhysAddr pageAddr
  rw [henc, hplain]
  exact two_pow_or_and hlt

theorem plaintext_page {i : Nat} (hi : i < RAM_PAGES) :
    isAddressEncrypted (PLAINTEXT_DRAM_BASE + i * PAGE_SIZE) = false ∧
      isAddressInPlaintextDram (PLAINTEXT_DRAM_BASE + i * PAGE_SIZE) = true := by
  have hend : PLAINTEXT_DRAM_BASE + i * PAGE_SIZE < PLAINTEXT_DRAM_END :=
    Nat.add_lt_add_left (page_lt hi) _
  exact ⟨decide_eq_false fun h => absurd h.1 (Nat.not_le.2 (hend.trans_le plaintext_end_le)),
    decide_eq_true ⟨Nat.le_add_right _ _, hend⟩⟩

theorem ramPage_plaintext {i : Nat} (hi : i < RAM_PAGES) :
    RamPage (PLAINTEXT_DRAM_BASE + i * PAGE_SIZE) i := by
  refine ⟨?_, hi⟩
  rw [addressToAllocationOffset, (plaintext_page hi).1, (plaintext_page hi).2,
    if_neg Bool.false_ne_true, if_pos rfl, Nat.add_sub_cancel_left,
    Nat.mul_div_cancel i PAGE_SIZE_pos]

theorem isAddressInPlaintextDram_pageAddr (i : Nat) :
    isAddressInPlaintextDram (pageAddr i) = false :=
  decide_eq_false fun h =>
    absurd h.2 (Nat.not_lt.2 (plaintext_end_le.trans (Nat.le_add_right _ _)))

theorem zerosAt_pageAddr (i : Nat) : zerosAt (pageAddr i) = .zeros false := by
  rw [zerosAt, isAddressInPlaintextDram_pageAddr]

theorem pageAddr_mod (i : Nat) : pageAddr i % PAGE_SIZE = 0 := by
  have hbase : ENCRYPTED_DRAM_BASE = 2 ^ 18 * PAGE_SIZE := by decide
  rw [pageAddr, hbase, ← Nat.add_mul, Nat.mul_mod_left]

theorem plaintext_mod (i : Nat) : (PLAINTEXT_DRAM_BASE + i * PAGE_SIZE) % PAGE_SIZE = 0 := by
  have hbase : PLAINTEXT_DRAM_BASE = 2 ^ 17 * PAGE_SIZE := by decide
  rw [hbase, ← Nat.add_mul, Nat.mul_mod_left]

namespace Memory

variable {m m' m'' : Memory} {pid : PID} {v : Nat}

/-! ## 2. Taking a free page -/

/-- The allocator is consistent. -/
def Ready (m : Memory) : Prop := ∃ page, Consistent page m.ram

theorem Sound.ready {job : Option PendingMapZero} {held : Nat → Option PID} {new : Nat → Prop}
    (h : Sound job held new m) : Ready m := h.clean.imp fun _ hp => hp.1

theorem onRam_ok {α : Type} {x : Prog Ram Panic Error α} {a : α} {ram : Ram}
    (h : x m.ram = (.ok a, ram)) : onRam x m = (.ok a, { m with ram := ram }) := by
  simp only [onRam, Prog.zoom, h]

theorem onRam_err {α : Type} {x : Prog Ram Panic Error α} {e : Error}
    (h : x m.ram = (.err e, m.ram)) : onRam x m = (.err e, m) := by
  simp only [onRam, Prog.zoom, h]

/-- `m'` is `m` after the free page `i` was taken for `pid`. -/
structure Took (m : Memory) (pid : PID) (i : Nat) (m' : Memory) : Prop where
  lt : i < RAM_PAGES
  vacant : m.ram.mm.allocations i = none
  owners : m'.ram.mm.allocations = Function.update m.ram.mm.allocations i (some pid)
  ready : Ready m'
  sound : ∀ {job held new}, Sound job held new m →
    Sound job held new m' ∧ Owned m' pid i ∧ held i = none

section Given

variable {page : Nat → PageState} {first len : Nat} {ram : Ram}

/-- The zeroed pages are those of the bitmap, in whatever way the pages are described. -/
theorem Sound.zeroed {job : Option PendingMapZero} {held : Nat → Option PID} {new : Nat → Prop}
    (h : Sound job held new m) (hc : Consistent page m.ram) {i : Nat} (hi : i < RAM_PAGES)
    (hp : page i = .zeroed) : m.contents i = .zeros false := by
  obtain ⟨page', hc', hz⟩ := h.clean
  exact hz i hi ((hc'.zeroed i hi).1 ((hc.zeroed i hi).2 hp))

theorem vacant_of_given (hc : Consistent page m.ram)
    (hgiven : Ram.Given page m.ram first len pid ram) {i : Nat} (hi : first ≤ i ∧ i < first + len) :
    m.ram.mm.allocations i = none := by
  rw [hc.owner i (hi.2.trans_le hgiven.le), PageState.owner_of_isFree (hgiven.free i hi)]

/-- Nobody maps the pages that the allocator gives out. -/
theorem Sound.given {job : Option PendingMapZero} {held : Nat → Option PID} {new : Nat → Prop}
    (h : Sound job held new m) (hc : Consistent page m.ram)
    (hgiven : Ram.Given page m.ram first len pid ram) :
    Sound job held new { m with ram := ram } ∧
      ∀ i, first ≤ i ∧ i < first + len → Owned { m with ram := ram } pid i ∧ held i = none := by
  have hloose : ∀ i, first ≤ i ∧ i < first + len → Unmapped m i ∧ held i = none := fun i hi =>
    ⟨h.unmapped_of_vacant (vacant_of_given hc hgiven hi),
      h.held_of_vacant (hi.2.trans_le hgiven.le) (vacant_of_given hc hgiven hi)⟩
  refine ⟨?_, fun i hi => ⟨⟨?_, (hloose i hi).1⟩, (hloose i hi).2⟩⟩
  · rw [← h.job, ← hgiven.moves.pending]
    refine h.setRam ⟨_, hgiven.consistent, fun i hi hp =>
      h.zeroed hc hi (hgiven.moves.zeroed i hi hp)⟩ fun i _ => ?_
    rw [hgiven.allocations]
    by_cases hmem : first ≤ i ∧ i < first + len
    · exact .inr (hloose i hmem)
    · exact .inl (fill_of_notMem hmem)
  · show ram.mm.allocations i = some pid
    rw [hgiven.allocations, fill_of_mem hi]

end Given

theorem allocSinglePage_cases (h : Ready m) (pid : PID) :
    onRam (Ram.allocSinglePage pid) m = (.err .outOfMemory, m) ∨
    ∃ i zeroed ram, onRam (Ram.allocSinglePage pid) m =
        (.ok (pageAddr i, zeroed), { m with ram := ram }) ∧
      Took m pid i { m with ram := ram } ∧
      ∀ {job held new}, Sound job held new m → zeroed = true → m.contents i = .zeros false := by
  obtain ⟨page, hc⟩ := h
  rcases Ram.allocSinglePage_cases hc pid with herr | ⟨i, zeroed, ram, hok, hgiven, hzero⟩
  · exact .inl (onRam_err herr)
  · have hmem : i ≤ i ∧ i < i + 1 := ⟨le_rfl, Nat.lt_succ_self i⟩
    refine .inr ⟨i, zeroed, ram, onRam_ok hok, ⟨hgiven.le, vacant_of_given hc hgiven hmem,
      hgiven.allocations.trans fill_one, ⟨_, hgiven.consistent⟩, fun {job held new} hs => ?_⟩,
      fun {job held new} hs hz => hs.zeroed hc hgiven.le (hzero hz)⟩
    exact ⟨(hs.given hc hgiven).1, (hs.given hc hgiven).2 i hmem⟩

/-! ## 3. Growing -/

/-- The entry `p`, `w` was on demand in `m` and has a free page behind it in `m'`. -/
def Backed (m m' : Memory) (p : PID) (w : Nat) : Prop :=
  ∃ flags user d i, m.entryAt p w = .unmapped 0 flags user ∧ m'.entryAt p w = .mapped d ∧
    L2TableEntry.newMapped d.phys flags user = .ok (.mapped d) ∧ RamPage d.phys i ∧
    m.ram.mm.allocations i = none ∧ m'.ram.mm.allocations i = some p

/-- From `m` to `m'` some free pages became tables, or back on-demand entries in `S`. -/
structure Grown (S : PID → Nat → Prop) (m m' : Memory) : Prop where
  ready : Ready m'
  slots : ∀ p w, HasSlot m p w → HasSlot m' p w
  entries : ∀ p w, m'.entryAt p w = m.entryAt p w ∨ S p w ∧ Backed m m' p w
  owners : ∀ i, m'.ram.mm.allocations i = m.ram.mm.allocations i ∨
    m.ram.mm.allocations i = none
  contents : ∀ i, m.ram.mm.allocations i ≠ none → m'.contents i = m.contents i
  sound : ∀ {job held new}, Sound job held new m → Sound job held new m'

namespace Grown

variable {S S' : PID → Nat → Prop}

theorem refl (h : Ready m) : Grown S m m :=
  ⟨h, fun _ _ => id, fun _ _ => .inl rfl, fun _ => .inl rfl, fun _ _ => rfl, id⟩

theorem owner_eq (h : Grown S m m') {i : Nat} (hi : m.ram.mm.allocations i ≠ none) :
    m'.ram.mm.allocations i = m.ram.mm.allocations i :=
  (h.owners i).resolve_right hi

theorem vacant (h : Grown S m m') {i : Nat} (hi : m'.ram.mm.allocations i = none) :
    m.ram.mm.allocations i = none := by
  rcases h.owners i with heq | hnone
  · rw [← heq, hi]
  · exact hnone

theorem trans (h : Grown S m m') (h' : Grown S m' m'') : Grown S m m'' := by
  refine ⟨h'.ready, fun p w hslot => h'.slots p w (h.slots p w hslot), fun p w => ?_, fun i => ?_,
    fun i hi => ?_, fun {job held new} hs => h'.sound (h.sound hs)⟩
  · rcases h'.entries p w with heq' | ⟨hS, flags, user, d, i, hold, hd, hnew, hram, hnone, hown⟩
    · rcases h.entries p w with heq | ⟨hS, flags, user, d, i, hold, hd, hnew, hram, hnone, hown⟩
      · exact .inl (heq'.trans heq)
      · refine .inr ⟨hS, flags, user, d, i, hold, heq'.trans hd, hnew, hram, hnone, ?_⟩
        rw [h'.owner_eq (by rw [hown]; exact nofun), hown]
    · refine .inr ⟨hS, flags, user, d, i, ?_, hd, hnew, hram, h.vacant hnone, hown⟩
      rcases h.entries p w with heq | ⟨-, _, _, _, _, -, hmapped, -⟩
      · rw [← heq, hold]
      · rw [hold] at hmapped
        cases hmapped
  · by_cases hi : m.ram.mm.allocations i = none
    · exact .inr hi
    · have heq := h.owner_eq hi
      exact .inl ((h'.owner_eq (by rwa [heq])).trans heq)
  · have heq := h.owner_eq hi
    exact (h'.contents i (by rwa [heq])).trans (h.contents i hi)

theorem owned (h : Grown S m m') {i : Nat} (hi : Owned m pid i) : Owned m' pid i := by
  have hsome : m.ram.mm.allocations i ≠ none := by rw [hi.1]; exact nofun
  refine ⟨(h.owner_eq hsome).trans hi.1, fun p w d hm => ?_⟩
  rcases h.entries p w with heq | ⟨-, _, _, d', i', -, hd', -, hram, hnone, -⟩
  · exact hi.2 p w d ⟨heq.symm.trans hm.1, hm.2⟩
  · have := hm.1
    rw [hd'] at this
    cases this
    obtain rfl := hram.inj hm.2
    exact hsome hnone

/-- A mapped entry keeps its page. -/
theorem mapped (h : Grown S m m') {p : PID} {w : Nat} {d : PageTableDescriptor}
    (hd : m.entryAt p w = .mapped d) : m'.entryAt p w = .mapped d := by
  rcases h.entries p w with heq | ⟨-, _, _, _, _, hold, -⟩
  · rw [heq, hd]
  · rw [hd] at hold
    cases hold

end Grown

theorem setContents_run {phys i : Nat} (hi : RamPage phys i) (c : Contents) (m : Memory) :
    setContents phys c m = (.ok (), { m with contents := Function.update m.contents i c }) := by
  unfold setContents
  rw [Prog.modify_run]
  congr 2
  funext j
  rw [hi.1]
  rcases eq_or_ne j i with rfl | hne
  · rw [Function.update_self, if_pos rfl]
  · rw [Function.update_of_ne hne, if_neg fun h => hne (Option.some.inj h).symm]

/-- A page that is taken and written is nobody's to look after. -/
theorem Took.sound_of {i : Nat} {c : Contents} (htook : Took m pid i m') (m'' : Memory)
    (hram : m''.ram = m'.ram) (hcontents : m''.contents = Function.update m'.contents i c)
    (hhint : m''.allocationHint = m'.allocationHint)
    (hentries : ∀ p w, m''.entryAt p w = m'.entryAt p w) {job : Option PendingMapZero}
    {held : Nat → Option PID} {new : Nat → Prop} (hs : Sound job held new m) :
    Sound job held new m'' := by
  obtain ⟨hs', ⟨howner, hun⟩, -⟩ := htook.sound hs
  exact hs'.setContents (c := c) (by rw [howner]; exact nofun)
    (fun p w d hmaps _ => absurd hmaps (hun p w d))
    (fun j _ => by rw [hcontents]; exact Function.update_apply ..) hram hhint hentries

/-- The state with tables for `group`, as `allocateTables` edits it. -/
def addTables (m : Memory) (pid : PID) (group : Nat) : Memory :=
  { m with
    tables := fun p g => m.tables p g || decide (p = pid ∧ g = group)
    entries := fun p v => if p = pid ∧ v / 1024 = group then .empty else m.entries p v }

theorem hasSlot_addTables {group : Nat} {p : PID} {w : Nat} (h : HasSlot m p w) :
    HasSlot (m.addTables pid group) p w := by
  refine ⟨?_, h.2⟩
  show (m.tables p (w / 1024) || _) = true
  rw [h.1, Bool.true_or]

/-- New tables are empty, and no walk found an entry before. -/
theorem entryAt_addTables {group : Nat} (hnone : m.tables pid group = false) (p : PID) (w : Nat) :
    (m.addTables pid group).entryAt p w = m.entryAt p w := by
  by_cases hgroup : p = pid ∧ w / 1024 = group
  · obtain ⟨rfl, rfl⟩ := hgroup
    rw [entryAt_of_not (m := m) fun hslot => absurd (hnone.symm.trans hslot.1) (by exact nofun)]
    unfold entryAt
    split
    · exact if_pos ⟨rfl, rfl⟩
    · rfl
  · have htables : (m.addTables pid group).tables p (w / 1024) = m.tables p (w / 1024) := by
      show (m.tables p (w / 1024) || decide (p = pid ∧ w / 1024 = group)) = _
      rw [decide_eq_false hgroup, Bool.or_false]
    exact entryAt_congr htables (if_neg hgroup)

theorem allocateTables_cases {S : PID → Nat → Prop} (h : Ready m) (pid : PID) {group : Nat}
    (hnone : m.tables pid group = false) :
    MemoryMapping.allocateTables pid group m = (.err .outOfMemory, m) ∨
    ∃ m', MemoryMapping.allocateTables pid group m = (.ok (), m') ∧ Grown S m m' ∧
      m'.tables pid group = true := by
  unfold MemoryMapping.allocateTables
  rcases allocSinglePage_cases h pid with herr | ⟨i, zeroed, ram, hok, htook, -⟩
  · exact .inl (Prog.bind_err _ herr)
  rw [Prog.bind_ok _ hok]
  dsimp only
  rw [Prog.bind_ok _ (setContents_run (ramPage_pageAddr htook.lt) .data _)]
  let filled : Memory := { m with ram := ram, contents := Function.update m.contents i .data }
  have hentries : ∀ p w, (filled.addTables pid group).entryAt p w = m.entryAt p w := fun p w =>
    (entryAt_addTables (m := filled) hnone p w).trans (entryAt_congr rfl rfl)
  refine .inr ⟨filled.addTables pid group, rfl, ⟨htook.ready, fun p w hslot =>
    hasSlot_addTables (m := filled) hslot, fun p w => .inl (hentries p w), fun j => ?_,
    fun j hj => ?_, fun {job held new} hs => htook.sound_of
      (filled.addTables pid group) rfl rfl rfl
      (fun p w => (hentries p w).trans (entryAt_congr rfl rfl)) hs⟩, ?_⟩
  · show ram.mm.allocations j = _ ∨ _
    rw [show ram.mm.allocations = _ from htook.owners]
    rcases eq_or_ne j i with rfl | hne
    · exact .inr htook.vacant
    · exact .inl (Function.update_of_ne hne ..)
  · refine Function.update_of_ne ?_ ..
    rintro rfl
    exact hj htook.vacant
  · show (m.tables pid group || decide (pid = pid ∧ group = group)) = true
    rw [decide_eq_true ⟨rfl, rfl⟩, Bool.or_true]

/-- An error leaves no trace but new tables. -/
theorem allocateL2Slot_cases {S : PID → Nat → Prop} (h : Ready m) (pid : PID) (virt : Nat) :
    (∃ e m', MemoryMapping.allocateL2Slot pid virt m = (.err e, m') ∧ Grown S m m') ∨
    ∃ m', MemoryMapping.allocateL2Slot pid virt m = (.ok (virt / PAGE_SIZE), m') ∧
      Grown S m m' ∧ HasSlot m' pid (virt / PAGE_SIZE) ∧
      m'.entryAt pid (virt / PAGE_SIZE) = .empty ∧ virt % PAGE_SIZE = 0 := by
  have hgroup : virt / PAGE_SIZE / 1024 = virt / 2 ^ 22 := Nat.div_div_eq_div_mul _ _ _
  have hsection : virt / PAGE_SIZE / 256 = virt / 2 ^ 20 := Nat.div_div_eq_div_mul _ _ _
  unfold MemoryMapping.allocateL2Slot
  split
  · exact .inl ⟨_, m, rfl, .refl h⟩
  · next haligned =>
    rw [not_not] at haligned
    split
    · exact .inl ⟨_, m, rfl, .refl h⟩
    · next hallowed =>
      rw [Prog.bind_ok _ (Prog.get_run m)]
      have htables : (∃ e, Prog.onlyIf (m.tables pid (virt / 2 ^ 22) = false)
            (MemoryMapping.allocateTables pid (virt / 2 ^ 22)) m = (.err e, m)) ∨
          ∃ m', Prog.onlyIf (m.tables pid (virt / 2 ^ 22) = false)
            (MemoryMapping.allocateTables pid (virt / 2 ^ 22)) m = (.ok (), m') ∧
            Grown S m m' ∧ m'.tables pid (virt / 2 ^ 22) = true := by
        by_cases hnone : m.tables pid (virt / 2 ^ 22) = false
        · rw [Prog.onlyIf_true_run hnone]
          rcases allocateTables_cases h pid hnone with herr | hok
          · exact .inl ⟨_, herr⟩
          · exact .inr hok
        · rw [Prog.onlyIf_false_run hnone]
          exact .inr ⟨m, rfl, .refl h, Bool.eq_true_of_not_eq_false hnone⟩
      rcases htables with ⟨e, herr⟩ | ⟨m', hok, hgrown, htable⟩
      · exact .inl ⟨e, m, Prog.bind_err _ herr, .refl h⟩
      · rw [Prog.bind_ok _ hok, Prog.bind_ok _ (readSlot_run _ _ _)]
        have hslot : HasSlot m' pid (virt / PAGE_SIZE) := by
          unfold HasSlot
          rw [hgroup, hsection]
          exact ⟨htable, Bool.eq_true_of_not_eq_false hallowed⟩
        split
        · next hempty =>
          refine .inr ⟨m', rfl, hgrown, hslot, ?_, haligned⟩
          rw [entryAt_of_hasSlot hslot]
          cases hentry : m'.entries pid (virt / PAGE_SIZE) with
          | empty => rfl
          | mapped d => rw [hentry] at hempty; cases hempty
          | unmapped frame flags user => rw [hentry] at hempty; cases hempty
        · exact .inl ⟨_, m', rfl, hgrown⟩

/-! ## 4. Backing pages -/

theorem newMapped_cases (phys : Nat) (flags : MemoryFlags) (user : Bool) :
    phys % PAGE_SIZE ≠ 0 ∧ L2TableEntry.newMapped phys flags user = .error .badAlignment ∨
    ∃ d, L2TableEntry.newMapped phys flags user = .ok (.mapped d) ∧ d.phys = phys ∧
      d.ap2 = !flags.w ∧ d.user = user := by
  unfold L2TableEntry.newMapped
  split
  · next h => exact .inl ⟨h, rfl⟩
  · next h =>
    rw [not_not] at h
    exact .inr ⟨_, rfl, Nat.div_mul_cancel (Nat.dvd_of_mod_eq_zero h), rfl, rfl⟩

/-- The address of page `i` through the alias that the flags ask for. -/
def aliasAddr (plaintext : Bool) (i : Nat) : Nat :=
  if plaintext then toPlaintextPhysAddr (pageAddr i) else pageAddr i

theorem ramPage_aliasAddr {i : Nat} (hi : i < RAM_PAGES) (plaintext : Bool) :
    RamPage (aliasAddr plaintext i) i := by
  cases plaintext with
  | false => exact ramPage_pageAddr hi
  | true =>
    show RamPage (toPlaintextPhysAddr (pageAddr i)) i
    rw [toPlaintextPhysAddr_pageAddr hi]
    exact ramPage_plaintext hi

theorem aliasAddr_mod {i : Nat} (hi : i < RAM_PAGES) (plaintext : Bool) :
    aliasAddr plaintext i % PAGE_SIZE = 0 := by
  cases plaintext with
  | false => exact pageAddr_mod i
  | true =>
    show toPlaintextPhysAddr (pageAddr i) % PAGE_SIZE = 0
    rw [toPlaintextPhysAddr_pageAddr hi]
    exact plaintext_mod i

/-- The kernel zeroes a page of RAM through a writable mapping of it. -/
theorem zeroThroughSlot_run {d : PageTableDescriptor} {i : Nat} (hentry : m.entries pid v = .mapped d)
    (hw : d.ap2 = false) (hi : RamPage d.phys i) : zeroThroughSlot pid v m =
      (.ok (), { m with contents := Function.update m.contents i (zerosAt d.phys) }) := by
  unfold zeroThroughSlot
  rw [Prog.bind_ok _ (readSlot_run _ _ _), hentry]
  dsimp only
  rw [Prog.bind_ok _ (Prog.require_run _ (by rw [hw]; rfl) m)]
  exact setContents_run hi _ m

/-- A free page, zeroed by now, is mapped where an on-demand entry was. -/
theorem Took.grown {S : PID → Nat → Prop} {i : Nat} {ram : Ram} {c : Nat → Contents}
    {flags : MemoryFlags} {user : Bool} {d : PageTableDescriptor}
    (htook : Took m pid i { m with ram := ram }) (hS : S pid v) (hslot : HasSlot m pid v)
    (hentry : m.entryAt pid v = .unmapped 0 flags user)
    (hd : L2TableEntry.newMapped d.phys flags user = .ok (.mapped d)) (hi : RamPage d.phys i)
    (hc : ∀ j ≠ i, c j = m.contents j)
    (hzero : ∀ {job held new}, Sound job held new m → c i = zerosAt d.phys) :
    Grown S m ({ m with ram := ram, contents := c }.write pid v (.mapped d)) := by
  let filled : Memory := { m with ram := ram, contents := c }
  have hentries : ∀ p w, filled.entryAt p w = m.entryAt p w := fun p w => entryAt_congr rfl rfl
  have howner : ram.mm.allocations i = some pid := by
    rw [show ram.mm.allocations = _ from htook.owners, Function.update_self]
  refine ⟨htook.ready, fun p w => id, fun p w => ?_, fun j => ?_, fun j hj => ?_,
    fun {job held new} hs => ?_⟩
  · by_cases hpw : p = pid ∧ w = v
    · obtain ⟨rfl, rfl⟩ := hpw
      exact .inr ⟨hS, flags, user, d, i, hentry, entryAt_write_self (m := filled) hslot, hd, hi,
        htook.vacant, howner⟩
    · exact .inl ((entryAt_write_of_ne (m := filled) hpw).trans (hentries p w))
  · show ram.mm.allocations j = _ ∨ _
    rw [show ram.mm.allocations = _ from htook.owners]
    rcases eq_or_ne j i with rfl | hne
    · exact .inr htook.vacant
    · exact .inl (Function.update_of_ne hne ..)
  · refine hc j ?_
    rintro rfl
    exact hj htook.vacant
  · obtain ⟨hs', ⟨-, hun⟩, hnone⟩ := htook.sound hs
    -- the page is zeroed while nobody maps it
    have hfilled : Sound job held new filled := by
      refine hs'.setContents (c := c i) (i := i) ?_ (fun p w d hmaps _ => absurd hmaps (hun p w d))
        (fun j _ => ?_) rfl rfl fun p w => entryAt_congr rfl rfl
      · show ram.mm.allocations i ≠ none
        rw [howner]
        exact nofun
      · show c j = if j = i then c i else m.contents j
        split
        · next hj => rw [hj]
        · next hj => exact hc j hj
    refine hfilled.mapPage hslot fun j hj => ?_
    obtain rfl := hj.inj hi
    exact ⟨⟨howner, fun p w d hm => hun p w d ⟨(hentries p w).symm.trans hm.1, hm.2⟩⟩, hnone,
      fun _ => hzero hs⟩

theorem allocateBackingPage_cases {S : PID → Nat → Prop} (h : Ready m) (hS : S pid v)
    (hslot : HasSlot m pid v) {flags : MemoryFlags} {user : Bool}
    (hentry : m.entryAt pid v = .unmapped 0 flags user) :
    (∃ e, MemoryMapping.allocateBackingPage pid v (.unmapped 0 flags user) m = (.err e, m)) ∨
    ∃ d m', MemoryMapping.allocateBackingPage pid v (.unmapped 0 flags user) m = (.ok (), m') ∧
      Grown S m m' ∧ m'.entryAt pid v = .mapped d := by
  unfold MemoryMapping.allocateBackingPage
  rw [Prog.bind_ok _ (Prog.ofExcept_run (x := L2TableEntry.flags _) rfl m)]
  split
  · exact .inl ⟨_, rfl⟩
  next hw =>
  rcases allocSinglePage_cases h pid with herr | ⟨i, zeroed, ram, hok, htook, hclean⟩
  · exact .inl ⟨_, Prog.bind_err _ herr⟩
  rw [Prog.bind_ok _ hok]
  dsimp only
  have hmod := aliasAddr_mod htook.lt flags.usesPlaintext
  have hi := ramPage_aliasAddr htook.lt flags.usesPlaintext
  rcases newMapped_cases (aliasAddr flags.usesPlaintext i) flags user with
    ⟨hmod', -⟩ | ⟨d, hd, hphys, hap2, -⟩
  · exact absurd hmod hmod'
  have hmapped : L2TableEntry.toMapped
      (.unmapped (aliasAddr flags.usesPlaintext i / PAGE_SIZE) flags user) = .ok (.mapped d) := by
    rw [← hd, ← Nat.div_mul_cancel (Nat.dvd_of_mod_eq_zero hmod)]
    rw [Nat.mul_div_cancel _ PAGE_SIZE_pos]
    rfl
  have halias : (if flags.usesPlaintext = true then toPlaintextPhysAddr (pageAddr i)
    else pageAddr i) = aliasAddr flags.usesPlaintext i := rfl
  rw [halias, Prog.bind_ok _ (Prog.ofExcept_run (x := L2TableEntry.withPhys _ _) rfl _),
    Prog.bind_ok _ (Prog.ofExcept_run (x := L2TableEntry.toMapped _) hmapped _),
    Prog.bind_ok _ (writeSlot_run _ _ _ _)]
  rw [← hphys] at hi hd
  have hap2 : d.ap2 = false := by rw [hap2, Bool.eq_true_of_not_eq_false hw]; rfl
  have hzeroed : ∀ {z : Bool}, z = false ∨ z = true ∧ (∀ {job held new}, Sound job held new m →
      m.contents i = zerosAt d.phys) → ∃ m', Prog.onlyIf (z = false) (zeroThroughSlot pid v)
        (({ m with ram := ram } : Memory).write pid v (.mapped d)) = (.ok (), m') ∧
        Grown S m m' ∧ m'.entryAt pid v = .mapped d := by
    rintro z (rfl | ⟨rfl, hzero⟩)
    · rw [Prog.onlyIf_true_run rfl, zeroThroughSlot_run (d := d) (if_pos ⟨rfl, rfl⟩) hap2 hi]
      exact ⟨_, rfl, htook.grown hS hslot hentry hd hi (fun j hj => Function.update_of_ne hj ..)
        fun _ => Function.update_self .., entryAt_write_self (m := { m with
          ram := ram, contents := Function.update m.contents i (zerosAt d.phys) }) hslot⟩
    · rw [Prog.onlyIf_false_run (by intro h; cases h)]
      exact ⟨_, rfl, htook.grown hS hslot hentry hd hi (fun _ _ => rfl) hzero,
        entryAt_write_self (m := { m with ram := ram }) hslot⟩
  refine .inr ⟨d, hzeroed ?_⟩
  cases hplain : flags.usesPlaintext with
  | true => exact .inl rfl
  | false =>
    cases zeroed with
    | false => exact .inl rfl
    | true =>
      refine .inr ⟨rfl, fun {job held new} hs => ?_⟩
      rw [hclean hs rfl, hphys, hplain]
      exact (zerosAt_pageAddr i).symm

/-! ## 5. Mapping and unmapping -/

/-- The entry that `mapPage` writes: `phys` is 0 for an on-demand page. -/
def MapsAs (phys : Nat) (flags : MemoryFlags) (user : Bool) (entry : L2TableEntry) : Prop :=
  if phys = 0 then entry = .unmapped 0 flags user
  else ∃ d, entry = .mapped d ∧ d.phys = phys ∧ d.ap2 = !flags.w

theorem mapPage_cases {S : PID → Nat → Prop} (h : Ready m) (phys virt : Nat) (flags : MemoryFlags)
    (user : Bool) :
    MemoryMapping.mapPage pid phys virt flags user m = (.panic .mapRwx, m) ∨
    (∃ e m', MemoryMapping.mapPage pid phys virt flags user m = (.err e, m') ∧ Grown S m m') ∨
    ∃ entry m', MapsAs phys flags user entry ∧ Grown S m m' ∧
      HasSlot m' pid (virt / PAGE_SIZE) ∧ m'.entryAt pid (virt / PAGE_SIZE) = .empty ∧
      virt % PAGE_SIZE = 0 ∧
      MemoryMapping.mapPage pid phys virt flags user m =
        (.ok (), m'.write pid (virt / PAGE_SIZE) entry) := by
  unfold MemoryMapping.mapPage
  by_cases hrwx : (!(flags.w && flags.x)) = true
  · rw [Prog.bind_ok _ (Prog.require_run _ hrwx m)]
    have hentry : (∃ e, (if phys ≠ 0 then L2TableEntry.newMapped phys flags user
          else .ok (.newOnDemand 0 flags user)) = .error e) ∨
        ∃ entry, (if phys ≠ 0 then L2TableEntry.newMapped phys flags user
          else .ok (.newOnDemand 0 flags user)) = .ok entry ∧ MapsAs phys flags user entry := by
      unfold MapsAs
      by_cases hphys : phys = 0
      · rw [if_neg (not_not.2 hphys)]
        exact .inr ⟨_, rfl, by rw [if_pos hphys]; rfl⟩
      · rw [if_pos hphys]
        rcases newMapped_cases phys flags user with ⟨-, herr⟩ | ⟨d, hd, hp, hw, -⟩
        · exact .inl ⟨_, herr⟩
        · exact .inr ⟨_, hd, by rw [if_neg hphys]; exact ⟨d, rfl, hp, hw⟩⟩
    rcases hentry with ⟨e, herr⟩ | ⟨entry, hentry, hmaps⟩
    · exact .inr (.inl ⟨e, m, Prog.bind_err _ (Prog.ofExcept_err_run herr m), .refl h⟩)
    · rw [Prog.bind_ok _ (Prog.ofExcept_run hentry m)]
      rcases allocateL2Slot_cases h pid virt with ⟨e, m', herr, hg⟩ | ⟨m', hok, hg, hslot, he⟩
      · exact .inr (.inl ⟨e, m', Prog.bind_err _ herr, hg⟩)
      · refine .inr (.inr ⟨entry, m', hmaps, hg, hslot, he.1, he.2, ?_⟩)
        rw [Prog.bind_ok _ hok]
        rfl
  · rw [Bool.not_eq_true] at hrwx
    refine .inl (Prog.bind_panic _ ?_)
    rw [hrwx]
    rfl

theorem unmapPage_cases (m : Memory) (pid : PID) (virt : Nat) :
    (∃ e, MemoryMapping.unmapPage pid virt m = (.err e, m) ∧
      (virt % PAGE_SIZE ≠ 0 ∨ ∀ d, m.entryAt pid (virt / PAGE_SIZE) ≠ .mapped d)) ∨
    MemoryMapping.unmapPage pid virt m = (.ok (), m.write pid (virt / PAGE_SIZE) .empty) ∧
      HasSlot m pid (virt / PAGE_SIZE) := by
  unfold MemoryMapping.unmapPage
  rcases getL2Slot_cases m pid virt with ⟨e, herr, hno⟩ | ⟨hok, hslot⟩
  · refine .inl ⟨e, Prog.bind_err _ herr, hno.imp_right fun hno d => ?_⟩
    rw [entryAt_of_not hno]
    exact nofun
  · rw [Prog.bind_ok _ hok, Prog.bind_ok _ (readSlot_run _ _ _), entryAt_of_hasSlot hslot]
    split
    · next hfree =>
      refine .inl ⟨_, rfl, .inr fun d hd => ?_⟩
      rw [hd] at hfree
      cases hfree
    · exact .inr ⟨rfl, hslot⟩

/-! ## 6. Owners of pages -/

section Owners

variable {job : Option PendingMapZero} {held : Nat → Option PID} {new : Nat → Prop}

/-- The owner of one page changes, which nobody maps unless the owner stays. -/
theorem Sound.transferred (h : Sound job held new m) {offset : Nat} {o : Option PID} {ram : Ram}
    (hmoves : ∀ page, Consistent page m.ram → ∃ page', Ram.Moves page m.ram page' ram)
    (howner : ram.mm.allocations = Function.update m.ram.mm.allocations offset o)
    (hpage : offset < RAM_PAGES → o = m.ram.mm.allocations offset ∨
      Unmapped m offset ∧ held offset = none) : Sound job held new { m with ram := ram } := by
  obtain ⟨page, hc, -⟩ := h.clean
  obtain ⟨page', hm⟩ := hmoves page hc
  rw [← h.job, ← hm.pending]
  refine h.setRam (h.clean_of_moves hmoves) fun i hi => ?_
  rw [howner]
  rcases eq_or_ne i offset with rfl | hne
  · rw [Function.update_self]
    exact hpage hi
  · exact .inl (Function.update_of_ne hne ..)

variable (processes : PID → Option Process)

/-- What a call of `claimReleaseMove` does to the owners, and to a sound state. -/
theorem claimReleaseMove_run (h : Ready m) (addr : Nat) (p : PID) (action : Ram.ClaimReleaseMove) :
    (∃ e, onRam (Ram.claimReleaseMove processes addr p action) m = (.err e, m)) ∨
    ∃ ram, onRam (Ram.claimReleaseMove processes addr p action) m =
        (.ok (), { m with ram := ram }) ∧ Ready { m with ram := ram } ∧
      (ram = m.ram ∧ (∀ i, ¬ RamPage addr i) ∨
        ∃ offset, addressToAllocationOffset addr = some offset ∧
          Ram.Transferred m.ram offset p ram action ∧
          ∀ page, Consistent page m.ram → ∃ page', Ram.Moves page m.ram page' ram) := by
  obtain ⟨page, hc⟩ := h
  rcases Ram.claimReleaseMove_cases hc processes addr p action with
    ⟨e, herr⟩ | ⟨hno, hok⟩ | ⟨offset, page', ram, hoffset, hok, hm, ht, -, -⟩
  · exact .inl ⟨e, onRam_err herr⟩
  · refine .inr ⟨m.ram, onRam_ok hok, ⟨page, hc⟩, .inl ⟨rfl, fun i hi => ?_⟩⟩
    exact absurd hi.2 (Nat.not_lt.2 (addressToAllocationOffset_ge hno hi.1))
  · refine .inr ⟨ram, onRam_ok hok, ⟨page', hm.consistent⟩, .inr ⟨offset, hoffset, ht,
      fun page₁ hc₁ => ?_⟩⟩
    rcases Ram.claimReleaseMove_cases hc₁ processes addr p action with
      ⟨e, herr⟩ | ⟨-, hok'⟩ | ⟨offset', page₁', ram', -, hok', hm', -⟩
    · rw [hok] at herr
      cases herr
    · rw [hok] at hok'
      cases hok'
      exact ⟨page₁, hc₁, fun _ _ => id, rfl⟩
    · rw [hok] at hok'
      cases hok'
      exact ⟨page₁', hm'⟩

end Owners

end Memory

end Kernel
