import KeyOS.Kernel.Allocator

/-!
# The states of a page of RAM

A page has an owner, or is dirty, or is being zeroed, or is zeroed. The allocator's
bitmaps, ownership array, counter and zeroer describe one such state for each page
(`Represents`), and every operation moves pages along

  owned → dirty → zeroing → zeroed → owned

with the shortcut from dirty to owned when the zeroer cannot keep up.
-/

namespace Kernel

open Exec Bitmap

inductive PageState where
  | owned (pid : PID)
  | dirty
  | zeroing
  | zeroed
deriving DecidableEq

namespace PageState

def owner : PageState → Option PID
  | owned pid => some pid
  | dirty | zeroing | zeroed => none

/-- A page that the allocator may give out. -/
def isFree : PageState → Bool
  | dirty | zeroed => true
  | owned _ | zeroing => false

theorem owner_of_isFree {s : PageState} (h : s.isFree = true) : s.owner = none := by
  cases s with
  | owned pid => cases h
  | dirty | zeroing | zeroed => rfl

theorem owner_eq_some {s : PageState} {pid : PID} : s.owner = some pid ↔ s = owned pid := by
  cases s with
  | owned q => exact ⟨fun h => congrArg owned (Option.some.inj h), fun h => by cases h; rfl⟩
  | dirty | zeroing | zeroed => exact ⟨nofun, nofun⟩

end PageState

/-! ## 1. Pages and addresses -/

theorem RAM_PAGES_mul : RAM_PAGES * PAGE_SIZE = RAM_SIZE := rfl

theorem PAGE_SIZE_pos : 0 < PAGE_SIZE := by decide

theorem FRAGMENTED_AREA_PAGES_lt : Ram.FRAGMENTED_AREA_PAGES < RAM_PAGES := by decide

theorem RAM_PAGES_le_memPages : RAM_PAGES ≤ Ram.memPages := Nat.le_add_right _ _

/-- The address of a page of RAM. -/
def pageAddr (i : Nat) : Nat := ENCRYPTED_DRAM_BASE + i * PAGE_SIZE

theorem pageAddr_lt {i : Nat} (h : i < RAM_PAGES) : pageAddr i < ENCRYPTED_DRAM_END :=
  Nat.add_lt_add_left (Nat.mul_lt_mul_of_pos_right h (by decide)) _

theorem isAddressEncrypted_pageAddr {i : Nat} (h : i < RAM_PAGES) :
    isAddressEncrypted (pageAddr i) = true :=
  decide_eq_true ⟨Nat.le_add_right _ _, pageAddr_lt h⟩

theorem pageAddr_div (i : Nat) : (pageAddr i - ENCRYPTED_DRAM_BASE) / PAGE_SIZE = i := by
  rw [pageAddr, Nat.add_sub_cancel_left]
  exact Nat.mul_div_cancel i (by decide)

theorem addressToAllocationOffset_pageAddr {i : Nat} (h : i < RAM_PAGES) :
    addressToAllocationOffset (pageAddr i) = some i := by
  rw [addressToAllocationOffset, if_pos (isAddressEncrypted_pageAddr h), pageAddr_div]

theorem div_lt_pages {addr base n : Nat} (h₁ : base ≤ addr) (h₂ : addr < base + n * PAGE_SIZE) :
    (addr - base) / PAGE_SIZE < n := by
  rw [Nat.div_lt_iff_lt_mul (by decide)]
  exact Nat.sub_lt_left_of_lt_add h₁ h₂

theorem offsetInRegions_lt {addr : Nat} :
    ∀ (regions : List Range) (offset i : Nat),
      (∀ r ∈ regions, r.stop = r.start + (r.stop - r.start) / PAGE_SIZE * PAGE_SIZE) →
      offsetInRegions addr regions offset = some i →
      i < offset + (regions.map fun r => (r.stop - r.start) / PAGE_SIZE).sum
  | [], _, _, _, h => nomatch h
  | r :: rest, offset, i, haligned, h => by
    rw [List.map_cons, List.sum_cons]
    unfold offsetInRegions at h
    split at h
    · next hmem =>
      obtain ⟨h₁, h₂⟩ := of_decide_eq_true hmem
      rw [haligned r List.mem_cons_self] at h₂
      have := div_lt_pages h₁ h₂
      cases h
      omega
    · have := offsetInRegions_lt rest _ i
        (fun q hq => haligned q (List.mem_cons_of_mem r hq)) h
      omega

theorem offsetInRegions_ge {addr : Nat} : ∀ (regions : List Range) (offset i : Nat),
    offsetInRegions addr regions offset = some i → offset ≤ i
  | [], _, _, h => nomatch h
  | r :: rest, offset, i, h => by
    unfold offsetInRegions at h
    split at h
    · cases h
      exact Nat.le_add_right _ _
    · exact (Nat.le_add_right _ _).trans (offsetInRegions_ge rest _ i h)

/-- Only addresses in RAM have the index of a page of RAM. -/
theorem addressToAllocationOffset_ge {addr i : Nat}
    (hram : (isAddressEncrypted addr || isAddressInPlaintextDram addr) = false)
    (h : addressToAllocationOffset addr = some i) : RAM_PAGES ≤ i := by
  rw [Bool.or_eq_false_iff] at hram
  unfold addressToAllocationOffset at h
  rw [hram.1, hram.2, if_neg Bool.false_ne_true, if_neg Bool.false_ne_true] at h
  exact offsetInRegions_ge _ _ _ h

/-- An address that has an index has one inside `allocations`. -/
theorem addressToAllocationOffset_lt {addr i : Nat}
    (h : addressToAllocationOffset addr = some i) : i < Ram.memPages := by
  unfold addressToAllocationOffset at h
  split at h
  · next hmem =>
    obtain ⟨h₁, h₂⟩ := of_decide_eq_true hmem
    cases h
    rw [ENCRYPTED_DRAM_END, ← RAM_PAGES_mul] at h₂
    exact (div_lt_pages h₁ h₂).trans_le RAM_PAGES_le_memPages
  · split at h
    · next hmem =>
      obtain ⟨h₁, h₂⟩ := of_decide_eq_true hmem
      cases h
      rw [PLAINTEXT_DRAM_END, ← RAM_PAGES_mul] at h₂
      exact (div_lt_pages h₁ h₂).trans_le RAM_PAGES_le_memPages
    · exact offsetInRegions_lt additionalRegions RAM_PAGES i (by decide) h

theorem words_of_pages (n : Nat) : n * PAGE_SIZE / 4 = n * 1024 := by
  unfold PAGE_SIZE
  omega

/-! ## 2. The state that the allocator stores -/

namespace PageZeroer

/-- Page `i` is in the range that the zeroer works on. -/
def Zeroing (z : PageZeroer) (i : Nat) : Prop :=
  z.currentPage ≤ pageAddr i ∧ pageAddr i < z.currentPage + z.currentPageNum * PAGE_SIZE

def Idle (z : PageZeroer) : Prop :=
  z.running = false ∧ z.currentPageNum = 0 ∧ z.transfer = none

/-- The zeroer's statics name the pages of the transfer that is in flight, from page
`first` on. -/
structure Busy (z : PageZeroer) (first : Nat) : Prop where
  running : z.running = true
  page : z.currentPage = pageAddr first
  pos : 0 < z.currentPageNum
  le : first + z.currentPageNum ≤ RAM_PAGES
  transfer : z.transfer = some (z.currentPage, z.currentPageNum * PAGE_SIZE / 4)

theorem Idle.not_zeroing {z : PageZeroer} (h : z.Idle) (i : Nat) : ¬ z.Zeroing i := by
  rw [Zeroing, h.2.1, Nat.zero_mul, Nat.add_zero]
  exact fun hz => absurd hz.2 (Nat.not_lt.2 hz.1)

theorem Busy.zeroing_iff {z : PageZeroer} {first : Nat} (h : z.Busy first) (i : Nat) :
    z.Zeroing i ↔ first ≤ i ∧ i < first + z.currentPageNum := by
  rw [Zeroing, h.page, pageAddr, pageAddr, Nat.add_assoc, ← Nat.add_mul,
    Nat.add_le_add_iff_left, Nat.add_lt_add_iff_left, Nat.mul_le_mul_right_iff PAGE_SIZE_pos,
    Nat.mul_lt_mul_right PAGE_SIZE_pos]

end PageZeroer

/-- `page` is the state of every page of RAM, for the owners `a`. -/
structure Represents (page : Nat → PageState) (a : Nat → Option PID) (r : Ram) : Prop where
  owner : ∀ i < RAM_PAGES, a i = (page i).owner
  dirty : ∀ i < RAM_PAGES, r.mm.freePagesDirty i = true ↔ page i = .dirty
  zeroed : ∀ i < RAM_PAGES, r.mm.freePagesZeroed i = true ↔ page i = .zeroed
  zeroing : ∀ i < RAM_PAGES, r.zeroer.Zeroing i ↔ page i = .zeroing
  dirtyHint : ∀ n, r.mm.nextDirtyPageHint = some n → n < RAM_PAGES
  zeroedHint : r.mm.nextZeroedPageHint ≤ Ram.FRAGMENTED_AREA_PAGES
  zeroer : r.zeroer.Idle ∨ ∃ first, r.zeroer.Busy first

/-- The invariant of the allocator. -/
structure Consistent (page : Nat → PageState) (r : Ram) : Prop
    extends Represents page r.mm.allocations r where
  count : r.mm.numFreePages = (vacant RAM_PAGES r.mm.allocations).card

namespace Represents

variable {page : Nat → PageState} {a : Nat → Option PID} {r r' : Ram} {i start len : Nat}
  {pid : PID}

theorem isFree_iff (h : Represents page a r) (hi : i < RAM_PAGES) :
    (r.mm.freePagesZeroed i || r.mm.freePagesDirty i) = true ↔ (page i).isFree = true := by
  rw [Bool.or_eq_true, h.zeroed i hi, h.dirty i hi]
  cases page i with
  | owned pid => exact ⟨nofun, nofun⟩
  | dirty => exact ⟨fun _ => rfl, fun _ => .inr rfl⟩
  | zeroing => exact ⟨nofun, nofun⟩
  | zeroed => exact ⟨fun _ => rfl, fun _ => .inl rfl⟩

/-- The pages from `start` on get the state `s`, which is not `zeroing`, and the
zeroer is not working on them. -/
theorem fill {s : PageState} (h : Represents page a r)
    (hnot : ∀ i, start ≤ i ∧ i < start + len → page i ≠ .zeroing) (hs : s ≠ .zeroing)
    (hd : ∀ i < RAM_PAGES, r'.mm.freePagesDirty i =
      Bitmap.fill r.mm.freePagesDirty start len (decide (s = .dirty)) i)
    (hz : ∀ i < RAM_PAGES, r'.mm.freePagesZeroed i =
      Bitmap.fill r.mm.freePagesZeroed start len (decide (s = .zeroed)) i)
    (hdh : ∀ n, r'.mm.nextDirtyPageHint = some n → n < RAM_PAGES)
    (hzh : r'.mm.nextZeroedPageHint ≤ Ram.FRAGMENTED_AREA_PAGES) (hzeroer : r'.zeroer = r.zeroer) :
    Represents (Bitmap.fill page start len s) (Bitmap.fill a start len s.owner) r' := by
  refine ⟨fun i hi => ?_, fun i hi => ?_, fun i hi => ?_, fun i hi => ?_, hdh, hzh,
    hzeroer ▸ h.zeroer⟩
  all_goals by_cases hmem : start ≤ i ∧ i < start + len
  · rw [fill_of_mem hmem, fill_of_mem hmem]
  · rw [fill_of_notMem hmem, fill_of_notMem hmem]
    exact h.owner i hi
  · rw [hd i hi, fill_of_mem hmem, fill_of_mem hmem, decide_eq_true_iff]
  · rw [hd i hi, fill_of_notMem hmem, fill_of_notMem hmem]
    exact h.dirty i hi
  · rw [hz i hi, fill_of_mem hmem, fill_of_mem hmem, decide_eq_true_iff]
  · rw [hz i hi, fill_of_notMem hmem, fill_of_notMem hmem]
    exact h.zeroed i hi
  · rw [hzeroer, h.zeroing i hi, fill_of_mem hmem]
    exact ⟨fun hp => absurd hp (hnot i hmem), fun hp => absurd hp hs⟩
  · rw [hzeroer, fill_of_notMem hmem]
    exact h.zeroing i hi

/-- The transfer in flight determines which pages are being zeroed. -/
theorem zeroing_of_transfer_eq {page' : Nat → PageState} {a' : Nat → Option PID}
    (h : Represents page a r) (h' : Represents page' a' r')
    (ht : r'.zeroer.transfer = r.zeroer.transfer) (hi : i < RAM_PAGES)
    (hp : page' i = .zeroing) : page i = .zeroing := by
  rw [← h.zeroing i hi]
  have hmem := (h'.zeroing i hi).2 hp
  rcases h'.zeroer with idle | ⟨first, busy⟩
  · exact absurd hmem (idle.not_zeroing i)
  · rcases h.zeroer with idle | ⟨first', busy'⟩
    · rw [idle.2.2, busy.transfer] at ht
      cases ht
    · rw [busy.transfer, busy'.transfer] at ht
      obtain ⟨hpage, hwords⟩ := Prod.mk.inj (Option.some.inj ht)
      have hnum : r'.zeroer.currentPageNum = r.zeroer.currentPageNum := by
        rw [words_of_pages, words_of_pages] at hwords
        exact Nat.eq_of_mul_eq_mul_right (by decide) hwords
      unfold PageZeroer.Zeroing at hmem ⊢
      rwa [← hpage, ← hnum]

end Represents

end Kernel
