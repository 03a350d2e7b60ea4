import KeyOS.Kernel.Memory
import KeyOS.Kernel.Ownership

/-!
# What the page tables map

`entryAt` is the entry that a walk of the tables finds. `Sound` ties the entries of all
processes to the owners of the pages: a page of RAM is mapped by its owner only, and
once. `job` is the zeroing request whose DMA is in flight, and `held` are the pages that
it keeps for a process until it maps them. `new` are the pages that had no owner when an
operation began: they must be zero as soon as they are mapped. The hints of
`findVirtualAddress` stay in their area.
-/

namespace Kernel

open Exec Bitmap

/-- The address is in page `i` of RAM, seen through either alias. -/
def RamPage (phys i : Nat) : Prop := addressToAllocationOffset phys = some i ∧ i < RAM_PAGES

theorem RamPage.inj {phys i j : Nat} (hi : RamPage phys i) (hj : RamPage phys j) : i = j :=
  Option.some.inj (hi.1.symm.trans hj.1)

/-- The contents of a page whose bytes all read as zero at the address. -/
def zerosAt (phys : Nat) : Contents := .zeros (isAddressInPlaintextDram phys)

namespace Memory

variable {m m' : Memory} {pid : PID} {v i : Nat} {d : PageTableDescriptor}

/-! ## 1. Walking the tables -/

def HasSlot (m : Memory) (pid : PID) (v : Nat) : Prop :=
  m.tables pid (v / 1024) = true ∧ MemoryMapping.allowsSection pid (v / 256) = true

instance (m : Memory) (pid : PID) (v : Nat) : Decidable (HasSlot m pid v) :=
  inferInstanceAs (Decidable (_ ∧ _))

def entryAt (m : Memory) (pid : PID) (v : Nat) : L2TableEntry :=
  if HasSlot m pid v then m.entries pid v else .empty

theorem empty_ne_mapped (d : PageTableDescriptor) : L2TableEntry.empty.normalize ≠ .mapped d := by
  exact nofun

theorem unmapped_ne_mapped (frame : Nat) (flags : MemoryFlags) (user : Bool)
    (d : PageTableDescriptor) : (L2TableEntry.unmapped frame flags user).normalize ≠ .mapped d := by
  intro h
  rw [L2TableEntry.normalize] at h
  split at h <;> cases h

theorem entryAt_of_hasSlot (h : HasSlot m pid v) : m.entryAt pid v = m.entries pid v := if_pos h

theorem entryAt_of_not (h : ¬ HasSlot m pid v) : m.entryAt pid v = .empty := if_neg h

theorem hasSlot_of_ne_empty (h : m.entryAt pid v ≠ .empty) : HasSlot m pid v := by
  by_contra hslot
  exact h (entryAt_of_not hslot)

theorem entryAt_congr {p : PID} {w : Nat} (htables : m'.tables p (w / 1024) = m.tables p (w / 1024))
    (hentries : m'.entries p w = m.entries p w) : m'.entryAt p w = m.entryAt p w := by
  have hslot : HasSlot m' p w ↔ HasSlot m p w := by
    unfold HasSlot
    rw [htables]
  by_cases h : HasSlot m p w
  · rw [entryAt_of_hasSlot h, entryAt_of_hasSlot (hslot.2 h), hentries]
  · rw [entryAt_of_not h, entryAt_of_not (hslot.not.2 h)]

def Maps (m : Memory) (pid : PID) (v : Nat) (d : PageTableDescriptor) (i : Nat) : Prop :=
  m.entryAt pid v = .mapped d ∧ RamPage d.phys i

def Unmapped (m : Memory) (i : Nat) : Prop := ∀ pid v d, ¬ m.Maps pid v d i

/-- The process has the page, and nobody maps it. -/
def Owned (m : Memory) (pid : PID) (i : Nat) : Prop :=
  m.ram.mm.allocations i = some pid ∧ m.Unmapped i

/-- `writeSlot` as a function of the state. -/
def write (m : Memory) (pid : PID) (slot : Nat) (entry : L2TableEntry) : Memory :=
  { m with entries := fun p v =>
      if p = pid ∧ v = slot then entry.normalize else m.entries p v }

@[simp] theorem writeSlot_run (pid : PID) (slot : Nat) (entry : L2TableEntry) (m : Memory) :
    writeSlot pid slot entry m = (.ok (), m.write pid slot entry) := rfl

@[simp] theorem readSlot_run (pid : PID) (slot : Nat) (m : Memory) :
    readSlot pid slot m = (.ok (m.entries pid slot), m) := rfl

theorem hasSlot_write {p : PID} {w slot : Nat} {entry : L2TableEntry} :
    HasSlot (m.write pid slot entry) p w ↔ HasSlot m p w := Iff.rfl

theorem entryAt_write_self {entry : L2TableEntry} (h : HasSlot m pid v) :
    (m.write pid v entry).entryAt pid v = entry.normalize := by
  rw [entryAt_of_hasSlot (hasSlot_write.2 h)]
  exact if_pos ⟨rfl, rfl⟩

theorem entryAt_write_of_ne {p : PID} {w slot : Nat} {entry : L2TableEntry}
    (h : ¬ (p = pid ∧ w = slot)) : (m.write pid slot entry).entryAt p w = m.entryAt p w := by
  by_cases hslot : HasSlot m p w
  · rw [entryAt_of_hasSlot (hasSlot_write.2 hslot), entryAt_of_hasSlot hslot]
    exact if_neg h
  · rw [entryAt_of_not (hasSlot_write.not.2 hslot), entryAt_of_not hslot]

/-- Only the page behind a new entry is mapped by it. -/
theorem Unmapped.write (h : m.Unmapped i) {entry : L2TableEntry}
    (he : ∀ d, entry.normalize = .mapped d → ¬ RamPage d.phys i) :
    (m.write pid v entry).Unmapped i := by
  intro p w d hm
  by_cases hslot : HasSlot m p w
  · by_cases hpw : p = pid ∧ w = v
    · obtain ⟨rfl, rfl⟩ := hpw
      have := hm.1
      rw [entryAt_write_self hslot] at this
      exact he d this hm.2
    · have := hm.1
      rw [entryAt_write_of_ne hpw] at this
      exact h p w d ⟨this, hm.2⟩
  · have := hm.1
    rw [entryAt_of_not (hasSlot_write.not.2 hslot)] at this
    cases this

theorem getL2Slot_cases (m : Memory) (pid : PID) (addr : Nat) :
    (∃ e, MemoryMapping.getL2Slot pid addr m = (.err e, m) ∧
      (addr % PAGE_SIZE ≠ 0 ∨ ¬ HasSlot m pid (addr / PAGE_SIZE))) ∨
    MemoryMapping.getL2Slot pid addr m = (.ok (addr / PAGE_SIZE), m) ∧
      HasSlot m pid (addr / PAGE_SIZE) := by
  have hgroup : addr / PAGE_SIZE / 1024 = addr / 2 ^ 22 := Nat.div_div_eq_div_mul _ _ _
  have hsection : addr / PAGE_SIZE / 256 = addr / 2 ^ 20 := Nat.div_div_eq_div_mul _ _ _
  unfold HasSlot
  rw [hgroup, hsection]
  unfold MemoryMapping.getL2Slot
  split
  · next h => exact .inl ⟨_, rfl, .inl h⟩
  · split
    · next h => exact .inl ⟨_, rfl, .inr fun hslot => by rw [h] at hslot; cases hslot.2⟩
    · next h =>
      rw [Prog.bind_ok _ (Prog.get_run m)]
      split
      · next ht => exact .inr ⟨rfl, ht, Bool.eq_true_of_not_eq_false h⟩
      · next ht => exact .inl ⟨_, rfl, .inr fun hslot => ht hslot.1⟩

/-! ## 2. Soundness -/

structure Sound (job : Option PendingMapZero) (held : Nat → Option PID) (new : Nat → Prop)
    (m : Memory) : Prop where
  job : m.ram.mm.pendingMapZero = job
  clean : ∃ page, Consistent page m.ram ∧
    ∀ i < RAM_PAGES, page i = .zeroed → m.contents i = .zeros false
  owner : ∀ pid v d i, m.Maps pid v d i → m.ram.mm.allocations i = some pid ∧ held i = none
  unique : ∀ pid v d pid' v' d' i, m.Maps pid v d i → m.Maps pid' v' d' i → pid = pid' ∧ v = v'
  held : ∀ i < RAM_PAGES, ∀ pid, held i = some pid → m.ram.mm.allocations i = some pid
  zero : ∀ pid v d i, m.Maps pid v d i → new i → m.contents i = zerosAt d.phys
  hint : ∀ pid, MMAP_AREA_VIRT ≤ m.allocationHint pid

variable {job job' : Option PendingMapZero} {held held' : Nat → Option PID} {new new' : Nat → Prop}
  {ram : Ram}

namespace Sound

theorem unmapped_of_vacant (h : Sound job held new m) (hi : m.ram.mm.allocations i = none) :
    Unmapped m i := by
  intro pid v d hmaps
  rw [(h.owner pid v d i hmaps).1] at hi
  cases hi

theorem owned_of_held (h : Sound job held new m) (hlt : i < RAM_PAGES) (hi : held i = some pid) :
    Owned m pid i := by
  refine ⟨h.held i hlt pid hi, fun p v d hmaps => ?_⟩
  rw [(h.owner p v d i hmaps).2] at hi
  cases hi

theorem held_of_vacant (h : Sound job held new m) (hlt : i < RAM_PAGES)
    (hi : m.ram.mm.allocations i = none) : held i = none := by
  cases hh : held i with
  | none => rfl
  | some q =>
    have := h.held i hlt q hh
    rw [hi] at this
    cases this

/-- Other pages to look after. -/
theorem rehold (h : Sound job held new m)
    (hheld : ∀ i < RAM_PAGES, ∀ q, held' i = some q → held i = some q ∨ Owned m q i) :
    Sound job held' new m := by
  refine ⟨h.job, h.clean, fun pid v d i hmaps => ⟨(h.owner pid v d i hmaps).1, ?_⟩, h.unique,
    fun i hi q hq => ?_, h.zero, h.hint⟩
  · cases hq : held' i with
    | none => rfl
    | some q =>
      rcases hheld i hmaps.2.2 q hq with hold | ⟨-, hun⟩
      · rw [(h.owner pid v d i hmaps).2] at hold
        cases hold
      · exact absurd hmaps (hun pid v d)
  · rcases hheld i hi q hq with hold | ⟨howner, -⟩
    · exact h.held i hi q hold
    · exact howner

/-- Other pages that must be zero. -/
theorem renew (h : Sound job held new m)
    (hnew : ∀ pid v d i, m.Maps pid v d i → new' i → new i ∨ m.contents i = zerosAt d.phys) :
    Sound job held new' m :=
  ⟨h.job, h.clean, h.owner, h.unique, h.held, fun pid v d i hmaps hn =>
    (hnew pid v d i hmaps hn).elim (h.zero pid v d i hmaps) id, h.hint⟩

/-- The allocator's state changes, but only pages that nobody maps change their owner. -/
theorem setRam (h : Sound job held new m)
    (hclean : ∃ page, Consistent page ram ∧
      ∀ i < RAM_PAGES, page i = .zeroed → m.contents i = .zeros false)
    (hpages : ∀ i < RAM_PAGES, ram.mm.allocations i = m.ram.mm.allocations i ∨
      Unmapped m i ∧ held i = none) :
    Sound ram.mm.pendingMapZero held new { m with ram := ram } := by
  refine ⟨rfl, hclean, fun pid v d i hmaps => ?_, h.unique, fun i hi pid hp => ?_, h.zero, h.hint⟩
  · rcases hpages i hmaps.2.2 with heq | ⟨hun, -⟩
    · show ram.mm.allocations i = some pid ∧ held i = none
      rw [heq]
      exact h.owner pid v d i hmaps
    · exact absurd hmaps (hun pid v d)
  · rcases hpages i hi with heq | ⟨-, hnone⟩
    · show ram.mm.allocations i = some pid
      rw [heq]
      exact h.held i hi pid hp
    · rw [hnone] at hp
      cases hp

/-- The clean part after a step of the allocator that makes no page zeroed. -/
theorem clean_of_moves (h : Sound job held new m)
    (hm : ∀ page, Consistent page m.ram → ∃ page', Ram.Moves page m.ram page' ram) :
    ∃ page, Consistent page ram ∧
      ∀ i < RAM_PAGES, page i = .zeroed → m.contents i = .zeros false := by
  obtain ⟨page, hc, hz⟩ := h.clean
  obtain ⟨page', hm⟩ := hm page hc
  exact ⟨page', hm.consistent, fun i hi hp => hz i hi (hm.zeroed i hi hp)⟩

/-- Entries change, but no new page is mapped. -/
theorem unmap (h : Sound job held new m) (hram : m'.ram = m.ram)
    (hcontents : m'.contents = m.contents)
    (hhint : m'.allocationHint = m.allocationHint)
    (hentries : ∀ p w d, m'.entryAt p w = .mapped d → m.entryAt p w = .mapped d) :
    Sound job held new m' := by
  have hmaps : ∀ {p w d i}, m'.Maps p w d i → m.Maps p w d i := fun h => ⟨hentries _ _ _ h.1, h.2⟩
  refine ⟨by rw [hram]; exact h.job, by rw [hram, hcontents]; exact h.clean, fun p w d i hm => ?_,
    fun _ _ _ _ _ _ _ h₁ h₂ => h.unique _ _ _ _ _ _ _ (hmaps h₁) (hmaps h₂),
    fun i hi q hq => ?_, fun p w d i hm hn => ?_, by rw [hhint]; exact h.hint⟩
  · rw [hram]
    exact h.owner p w d i (hmaps hm)
  · rw [hram]
    exact h.held i hi q hq
  · rw [hcontents]
    exact h.zero p w d i (hmaps hm) hn

/-- An entry that maps nothing takes the place of any other. -/
theorem write_unmapped (h : Sound job held new m) (hslot : HasSlot m pid v) {entry : L2TableEntry}
    (he : ∀ d, entry.normalize ≠ .mapped d) : Sound job held new (m.write pid v entry) := by
  refine h.unmap rfl rfl rfl fun p w d hmapped => ?_
  by_cases hpw : p = pid ∧ w = v
  · obtain ⟨rfl, rfl⟩ := hpw
    rw [entryAt_write_self hslot] at hmapped
    exact absurd hmapped (he d)
  · rwa [entryAt_write_of_ne hpw] at hmapped

/-- The page that an entry mapped is mapped by nobody when the entry is gone. -/
theorem unmapped_write (h : Sound job held new m) (hslot : HasSlot m pid v)
    (hmaps : m.Maps pid v d i) {entry : L2TableEntry} (he : ∀ d, entry.normalize ≠ .mapped d) :
    Unmapped (m.write pid v entry) i := by
  intro p w d' hm
  by_cases hpw : p = pid ∧ w = v
  · obtain ⟨rfl, rfl⟩ := hpw
    have := hm.1
    rw [entryAt_write_self hslot] at this
    exact he d' this
  · have := hm.1
    rw [entryAt_write_of_ne hpw] at this
    exact hpw (h.unique p w d' pid v d i ⟨this, hm.2⟩ hmaps)

/-- A free slot maps a page of its process, which is zero if it is new. -/
theorem mapPage (h : Sound job held new m) (hslot : HasSlot m pid v)
    (hpage : ∀ i, RamPage d.phys i → Owned m pid i ∧ held i = none ∧
      (new i → m.contents i = zerosAt d.phys)) :
    Sound job held new (m.write pid v (.mapped d)) := by
  have hmaps : ∀ {p w d' j}, (m.write pid v (.mapped d)).Maps p w d' j →
      m.Maps p w d' j ∧ ¬ RamPage d.phys j ∨ p = pid ∧ w = v ∧ d' = d := by
    intro p w d' j hm
    by_cases hpw : p = pid ∧ w = v
    · obtain ⟨rfl, rfl⟩ := hpw
      have := hm.1
      rw [entryAt_write_self hslot] at this
      cases this
      exact .inr ⟨rfl, rfl, rfl⟩
    · have hmapped := hm.1
      rw [entryAt_write_of_ne hpw] at hmapped
      exact .inl ⟨⟨hmapped, hm.2⟩, fun hram => (hpage j hram).1.2 p w d' ⟨hmapped, hm.2⟩⟩
  refine ⟨h.job, h.clean, fun p w d' j hm => ?_, fun p w d' p' w' d'' j h₁ h₂ => ?_, h.held,
    fun p w d' j hm hn => ?_, h.hint⟩
  · rcases hmaps hm with ⟨hm', -⟩ | ⟨rfl, rfl, rfl⟩
    · exact h.owner p w d' j hm'
    · obtain ⟨howned, hnone, -⟩ := hpage j hm.2
      exact ⟨howned.1, hnone⟩
  · rcases hmaps h₁ with ⟨h₁', hram⟩ | ⟨rfl, rfl, rfl⟩
    · rcases hmaps h₂ with ⟨h₂', -⟩ | ⟨rfl, rfl, rfl⟩
      · exact h.unique _ _ _ _ _ _ _ h₁' h₂'
      · exact absurd h₂.2 hram
    · rcases hmaps h₂ with ⟨-, hram⟩ | ⟨rfl, rfl, -⟩
      · exact absurd h₁.2 hram
      · exact ⟨rfl, rfl⟩
  · rcases hmaps hm with ⟨hm', -⟩ | ⟨rfl, rfl, rfl⟩
    · exact h.zero p w d' j hm' hn
    · exact (hpage j hm.2).2.2 hn

/-- An owned page gets other contents. -/
theorem setContents (h : Sound job held new m) {c : Contents}
    (howned : m.ram.mm.allocations i ≠ none)
    (hc : ∀ pid v d, m.Maps pid v d i → new i → c = zerosAt d.phys)
    (hcontents : ∀ j < RAM_PAGES, m'.contents j = if j = i then c else m.contents j)
    (hram : m'.ram = m.ram) (hhint : m'.allocationHint = m.allocationHint)
    (hentries : ∀ p w, m'.entryAt p w = m.entryAt p w) : Sound job held new m' := by
  have hmaps : ∀ {p w d j}, m'.Maps p w d j → m.Maps p w d j := fun hm =>
    ⟨(hentries _ _).symm.trans hm.1, hm.2⟩
  obtain ⟨page, hc', hz⟩ := h.clean
  refine ⟨by rw [hram]; exact h.job, ⟨page, by rw [hram]; exact hc', fun j hj hp => ?_⟩,
    fun p w d j hm => ?_,
    fun _ _ _ _ _ _ _ h₁ h₂ => h.unique _ _ _ _ _ _ _ (hmaps h₁) (hmaps h₂),
    fun j hj p hp => by rw [hram]; exact h.held j hj p hp, fun p w d j hm hn => ?_,
    by rw [hhint]; exact h.hint⟩
  · rw [hcontents j hj, if_neg]
    · exact hz j hj hp
    · rintro rfl
      have := hc'.owner j hj
      rw [hp] at this
      exact howned this
  · rw [hram]
    exact h.owner p w d j (hmaps hm)
  · rw [hcontents j hm.2.2]
    split
    · next hj =>
      subst hj
      exact hc p w d (hmaps hm) hn
    · exact h.zero p w d j (hmaps hm) hn

/-- The contents behind an address change; outside RAM that is nothing that matters. -/
theorem setContentsAt (h : Sound job held new m) {phys : Nat} {c : Contents}
    (howned : ∀ i, RamPage phys i → m.ram.mm.allocations i ≠ none)
    (hc : ∀ i, RamPage phys i → ∀ pid v d, m.Maps pid v d i → new i → c = zerosAt d.phys) :
    Sound job held new { m with contents := fun i =>
      if addressToAllocationOffset phys = some i then c else m.contents i } := by
  by_cases hram : ∃ i, RamPage phys i
  · obtain ⟨i, hi⟩ := hram
    refine h.setContents (i := i) (howned i hi) (hc i hi) (fun j hj => ?_) rfl rfl
      fun p w => entryAt_congr rfl rfl
    rcases eq_or_ne j i with rfl | hne
    · exact (if_pos hi.1).trans (if_pos rfl).symm
    · exact (if_neg fun hj' => hne (RamPage.inj ⟨hj', hj⟩ hi)).trans (if_neg hne).symm
  · have hsame : ∀ i < RAM_PAGES,
        (if addressToAllocationOffset phys = some i then c else m.contents i) = m.contents i :=
      fun i hi => if_neg fun heq => hram ⟨i, heq, hi⟩
    obtain ⟨page, hcons, hz⟩ := h.clean
    exact ⟨h.job, ⟨page, hcons, fun i hi hp => (hsame i hi).trans (hz i hi hp)⟩, h.owner, h.unique,
      h.held, fun p w d i hm hn => (hsame i hm.2.2).trans (h.zero p w d i hm hn), h.hint⟩

end Sound

end Memory

end Kernel
