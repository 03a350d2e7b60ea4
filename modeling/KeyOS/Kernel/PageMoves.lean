import KeyOS.Kernel.PageStates

/-!
# What the allocator's operations do to the pages

One lemma for each operation: from a consistent state it does not panic, and it moves
the pages that it names from one state to the next.
-/

namespace Kernel

open Exec Bitmap

namespace Ram

variable {page : Nat → PageState} {r : Ram} {pid : PID}

@[simp] theorem modifyMm_run (f : MemoryManager → MemoryManager) (r : Ram) :
    modifyMm f r = (.ok (), { r with mm := f r.mm }) := rfl

@[simp] theorem setDirty_run (i : Nat) (v : Bool) (r : Ram) : setDirty i v r =
    (.ok (), { r with mm := { r.mm with
      freePagesDirty := Function.update r.mm.freePagesDirty i v } }) := rfl

@[simp] theorem setOwner_run (i : Nat) (owner : Option PID) (r : Ram) : setOwner i owner r =
    (.ok (), { r with mm := { r.mm with
      allocations := Function.update r.mm.allocations i owner } }) := rfl

/-! ## 1. The counter -/

theorem subtractFreePages_run {pages : Nat} (h : pages ≤ r.mm.numFreePages) :
    ∃ low events, subtractFreePages pages r =
      (.ok (), { r with
        mm := { r.mm with numFreePages := r.mm.numFreePages - pages, lowMemory := low }
        lowMemoryEvents := events }) := by
  unfold subtractFreePages
  rw [Prog.bind_ok _ (Prog.get_run r), Prog.bind_ok _ (Prog.require_run _ (decide_eq_true h) r),
    Prog.bind_ok _ (modifyMm_run _ r), Prog.bind_ok _ (Prog.get_run _)]
  by_cases hlow : r.mm.lowMemory = false ∧
      r.mm.numFreePages - pages < LOW_MEMORY_THRESHOLD / PAGE_SIZE
  · exact ⟨true, r.lowMemoryEvents + 1, by rw [Prog.onlyIf_true_run hlow]; rfl⟩
  · exact ⟨r.mm.lowMemory, r.lowMemoryEvents, Prog.onlyIf_false_run hlow _ _⟩

theorem addFreePages_run {pages : Nat} (h : r.mm.numFreePages + pages ≤ RAM_PAGES) :
    ∃ low, addFreePages pages r =
      (.ok (), { r with
        mm := { r.mm with numFreePages := r.mm.numFreePages + pages, lowMemory := low } }) := by
  unfold addFreePages
  have hmin : min (r.mm.numFreePages + pages) (2 ^ 32 - 1) ≤ RAM_PAGES :=
    (Nat.min_le_left _ _).trans h
  rw [Prog.bind_ok _ (Prog.get_run r),
    Prog.bind_ok _ (Prog.require_run _ (decide_eq_true hmin) r),
    Prog.bind_ok _ (modifyMm_run _ r), Prog.bind_ok _ (Prog.get_run _)]
  by_cases hlow : r.mm.lowMemory = true ∧
      (LOW_MEMORY_THRESHOLD + LOW_MEMORY_HYSTERESIS) / PAGE_SIZE ≤ r.mm.numFreePages + pages
  · exact ⟨false, by rw [Prog.onlyIf_true_run hlow]; rfl⟩
  · exact ⟨r.mm.lowMemory, Prog.onlyIf_false_run hlow _ _⟩

/-! ## 2. Giving pages to a process -/

/-- From `r` to `r'`, the `len` pages from `start` on were given to `pid`. -/
structure Given (page : Nat → PageState) (r : Ram) (start len : Nat) (pid : PID) (r' : Ram) :
    Prop where
  le : start + len ≤ RAM_PAGES
  free : ∀ i, start ≤ i ∧ i < start + len → (page i).isFree = true
  consistent : Consistent (Bitmap.fill page start len (.owned pid)) r'
  allocations : r'.mm.allocations = Bitmap.fill r.mm.allocations start len (some pid)
  zeroer : r'.zeroer = r.zeroer
  pending : r'.mm.pendingMapZero = r.mm.pendingMapZero

/-- Clearing the bits of free pages, giving them an owner and counting them keeps the
invariant, whatever else the state holds. -/
theorem given_of_bits {start len : Nat} (r' : Ram) (h : Consistent page r)
    (hle : start + len ≤ RAM_PAGES)
    (hfree : ∀ i, start ≤ i ∧ i < start + len → (page i).isFree = true)
    (hd : ∀ i < RAM_PAGES, r'.mm.freePagesDirty i =
      Bitmap.fill r.mm.freePagesDirty start len false i)
    (hz : ∀ i < RAM_PAGES, r'.mm.freePagesZeroed i =
      Bitmap.fill r.mm.freePagesZeroed start len false i)
    (hdh : r'.mm.nextDirtyPageHint = r.mm.nextDirtyPageHint)
    (hzh : r'.mm.nextZeroedPageHint ≤ FRAGMENTED_AREA_PAGES)
    (ha : r'.mm.allocations = Bitmap.fill r.mm.allocations start len (some pid))
    (hn : r'.mm.numFreePages = r.mm.numFreePages - len) (hzeroer : r'.zeroer = r.zeroer)
    (hpending : r'.mm.pendingMapZero = r.mm.pendingMapZero) : Given page r start len pid r' := by
  refine ⟨hle, hfree, ⟨?_, ?_⟩, ha, hzeroer, hpending⟩
  · rw [ha]
    refine h.toRepresents.fill (s := .owned pid) (fun i hi hp => ?_) nofun hd hz
      (hdh ▸ h.dirtyHint) hzh hzeroer
    have := hfree i hi
    rw [hp] at this
    cases this
  · have hvacant : ∀ i, start ≤ i ∧ i < start + len → r.mm.allocations i = none := by
      intro i hi
      rw [h.owner i (hi.2.trans_le hle), PageState.owner_of_isFree (hfree i hi)]
    rw [hn, h.count, ha, ← vacant_fill_some hle hvacant pid, Nat.add_sub_cancel]

/-- Free pages are counted. -/
theorem len_le_numFreePages {start len : Nat} (h : Consistent page r)
    (hle : start + len ≤ RAM_PAGES)
    (hfree : ∀ i, start ≤ i ∧ i < start + len → (page i).isFree = true) :
    len ≤ r.mm.numFreePages := by
  have hvacant : ∀ i, start ≤ i ∧ i < start + len → r.mm.allocations i = none := by
    intro i hi
    rw [h.owner i (hi.2.trans_le hle), PageState.owner_of_isFree (hfree i hi)]
  rw [h.count, ← vacant_fill_some hle hvacant PID.kernel]
  exact Nat.le_add_left _ _

/-- Clearing the bit of one page in the bitmap that has it clears it in both. -/
theorem clear_bit {dirty zeroed : Nat → Bool} {i : Nat} (b : Bool)
    (hset : (if b then zeroed i else dirty i) = true) (hother : ¬ (dirty i = true ∧ zeroed i = true)) :
    (if b then dirty else Function.update dirty i false) = Bitmap.fill dirty i 1 false ∧
      (if b then Function.update zeroed i false else zeroed) = Bitmap.fill zeroed i 1 false := by
  rw [fill_one, fill_one]
  cases b with
  | true =>
    have hdirty : dirty i = false := by
      rw [← Bool.not_eq_true]
      exact fun hd => hother ⟨hd, hset⟩
    refine ⟨?_, rfl⟩
    show dirty = _
    rw [← hdirty, Function.update_eq_self]
  | false =>
    have hzeroed : zeroed i = false := by
      rw [← Bool.not_eq_true]
      exact fun hz => hother ⟨hset, hz⟩
    refine ⟨rfl, ?_⟩
    show zeroed = _
    rw [← hzeroed, Function.update_eq_self]

/-- `takeSinglePage` finds a free page and clears its bit, or changes nothing. -/
theorem takeSinglePage_cases (hhint : r.mm.nextZeroedPageHint ≤ FRAGMENTED_AREA_PAGES) :
    takeSinglePage r = (.err .outOfMemory, r) ∨
    ∃ idx zeroed, idx < RAM_PAGES ∧
      (if zeroed then r.mm.freePagesZeroed idx else r.mm.freePagesDirty idx) = true ∧
      takeSinglePage r = (.ok (idx, zeroed), { r with mm := { r.mm with
        freePagesDirty := if zeroed then r.mm.freePagesDirty
          else Function.update r.mm.freePagesDirty idx false
        freePagesZeroed := if zeroed then Function.update r.mm.freePagesZeroed idx false
          else r.mm.freePagesZeroed } }) := by
  have hlt := FRAGMENTED_AREA_PAGES_lt
  unfold takeSinglePage
  rw [Prog.bind_ok _ (Prog.get_run r)]
  simp only [Prog.bind_ok _ (Prog.require_run _ (decide_eq_true hhint) r)]
  -- the five searches, in the order of the code
  cases s₁ : firstOne r.mm.freePagesZeroed r.mm.nextZeroedPageHint FRAGMENTED_AREA_PAGES with
  | some idx =>
    obtain ⟨h₁, h₂⟩ := firstOne_eq_some s₁
    rw [Nat.add_comm] at h₁ h₂
    exact .inr ⟨_, true, h₁.trans hlt, h₂, rfl⟩
  | none =>
  cases s₂ : firstOne r.mm.freePagesZeroed 0 r.mm.nextZeroedPageHint with
  | some idx =>
    obtain ⟨h₁, h₂⟩ := firstOne_eq_some s₂
    rw [Nat.zero_add] at h₁ h₂
    exact .inr ⟨_, true, (h₁.trans_le hhint).trans hlt, h₂, rfl⟩
  | none =>
  cases s₃ : firstOne r.mm.freePagesDirty 0 FRAGMENTED_AREA_PAGES with
  | some idx =>
    obtain ⟨h₁, h₂⟩ := firstOne_eq_some s₃
    rw [Nat.zero_add] at h₁ h₂
    exact .inr ⟨_, false, h₁.trans hlt, h₂, rfl⟩
  | none =>
  cases s₄ : firstOne r.mm.freePagesZeroed FRAGMENTED_AREA_PAGES RAM_PAGES with
  | some idx =>
    obtain ⟨h₁, h₂⟩ := firstOne_eq_some s₄
    rw [Nat.add_comm] at h₁ h₂
    refine .inr ⟨_, true, h₁, h₂, ?_⟩
    dsimp only
    rw [Nat.add_comm FRAGMENTED_AREA_PAGES idx]
    rfl
  | none =>
  cases s₅ : firstOne r.mm.freePagesDirty FRAGMENTED_AREA_PAGES RAM_PAGES with
  | some idx =>
    obtain ⟨h₁, h₂⟩ := firstOne_eq_some s₅
    rw [Nat.add_comm] at h₁ h₂
    refine .inr ⟨_, false, h₁, h₂, ?_⟩
    dsimp only
    rw [Nat.add_comm FRAGMENTED_AREA_PAGES idx]
    rfl
  | none => exact .inl rfl

theorem hintAfter_le (idx : Nat) : hintAfter idx ≤ FRAGMENTED_AREA_PAGES := by
  unfold hintAfter
  split
  · exact Nat.zero_le _
  · next h => exact Nat.le_of_not_lt h

theorem allocSinglePage_cases (h : Consistent page r) (pid : PID) :
    allocSinglePage pid r = (.err .outOfMemory, r) ∨
    ∃ idx zeroed r', allocSinglePage pid r = (.ok (pageAddr idx, zeroed), r') ∧
      Given page r idx 1 pid r' ∧ (zeroed = true → page idx = .zeroed) := by
  unfold allocSinglePage
  rcases takeSinglePage_cases h.zeroedHint with herr | ⟨idx, zeroed, hidx, hbit, hok⟩
  · exact .inl (Prog.bind_err _ herr)
  · have hfree : ∀ i, idx ≤ i ∧ i < idx + 1 → (page i).isFree = true := by
      intro i hi
      obtain rfl : i = idx := le_antisymm (Nat.le_of_lt_succ hi.2) hi.1
      rw [← h.isFree_iff hidx, Bool.or_eq_true]
      cases zeroed with
      | true => exact .inl hbit
      | false => exact .inr hbit
    have hother : ¬ (r.mm.freePagesDirty idx = true ∧ r.mm.freePagesZeroed idx = true) := by
      rw [h.dirty idx hidx, h.zeroed idx hidx]
      rintro ⟨hd, hz⟩
      rw [hd] at hz
      cases hz
    obtain ⟨hd, hz⟩ := clear_bit zeroed hbit hother
    rw [hd, hz] at hok
    rw [Prog.bind_ok _ hok]
    have hnum : 1 ≤ r.mm.numFreePages := len_le_numFreePages h hidx hfree
    obtain ⟨low, events, hsub⟩ := subtractFreePages_run (r := { r with mm := { r.mm with
      freePagesDirty := Bitmap.fill r.mm.freePagesDirty idx 1 false
      freePagesZeroed := Bitmap.fill r.mm.freePagesZeroed idx 1 false } }) hnum
    refine .inr ⟨idx, zeroed, _, (Prog.bind_ok _ hsub).trans rfl, ?_, fun ht => ?_⟩
    · exact given_of_bits _ h hidx hfree (fun _ _ => rfl) (fun _ _ => rfl) rfl (hintAfter_le idx)
        fill_one.symm rfl rfl rfl
    · rw [ht] at hbit
      exact (h.zeroed idx hidx).1 hbit

/-- What `findRange` finds is a range of free pages, all zeroed if it says so. -/
theorem findRange_spec {align numPages idx : Nat} {zeroed : Bool} (h : Consistent page r)
    (hpos : 0 < align) (hle : numPages ≤ RAM_PAGES)
    (hfind : findRange r.mm align numPages = some (idx, zeroed)) :
    idx + numPages ≤ RAM_PAGES ∧
      (∀ i, idx ≤ i ∧ i < idx + numPages → (page i).isFree = true) ∧
      (zeroed = true → ∀ i, idx ≤ i ∧ i < idx + numPages → page i = .zeroed) := by
  unfold findRange at hfind
  simp only at hfind
  split at hfind
  · next i hi =>
    cases hfind
    have hmem := List.mem_of_find?_eq_some hi
    have hall := List.find?_some hi
    have hstop := (mem_onesDown.1 (List.mem_of_mem_filter hmem)).1
    have hbound : idx + numPages ≤ RAM_PAGES := by omega
    have hzero : ∀ i, idx ≤ i ∧ i < idx + numPages → page i = .zeroed := fun i hi =>
      (h.zeroed i (hi.2.trans_le hbound)).1 (allOnes_spec hall hi)
    refine ⟨hbound, fun i hi => ?_, fun _ => hzero⟩
    rw [hzero i hi]
    rfl
  · rw [Option.map_eq_some_iff] at hfind
    obtain ⟨i, hi, hpair⟩ := hfind
    cases hpair
    have hmem := List.mem_of_find?_eq_some hi
    have hall := List.find?_some hi
    have hbound : idx + numPages ≤ RAM_PAGES := by
      rw [stepsDown, List.mem_reverse, List.mem_range'] at hmem
      obtain ⟨k, hk, rfl⟩ := hmem
      have : k * align + align ≤ RAM_PAGES - numPages + 1 + align - 1 := by
        calc k * align + align = (k + 1) * align := (Nat.succ_mul k align).symm
          _ ≤ (RAM_PAGES - numPages + 1 + align - 1) / align * align :=
            Nat.mul_le_mul_right align hk
          _ ≤ RAM_PAGES - numPages + 1 + align - 1 := Nat.div_mul_le_self _ _
      rw [Nat.zero_add, Nat.mul_comm]
      omega
    refine ⟨hbound, fun j hj => ?_, nofun⟩
    rw [← h.isFree_iff (hj.2.trans_le hbound)]
    exact allOnes_spec hall hj

theorem allocRangeAligned_cases (h : Consistent page r) (align : AlignPages) (numPages : Nat)
    (pid : PID) :
    (∃ e, allocRangeAligned align numPages pid r = (.err e, r)) ∨
    ∃ idx zeroed r', allocRangeAligned align numPages pid r = (.ok (pageAddr idx, zeroed), r') ∧
      Given page r idx numPages pid r' ∧
      (zeroed = true → ∀ i, idx ≤ i ∧ i < idx + numPages → page i = .zeroed) := by
  unfold allocRangeAligned
  split
  · exact .inl ⟨_, rfl⟩
  · split
    · exact .inl ⟨_, rfl⟩
    · next hnum =>
      rw [Prog.bind_ok _ (Prog.get_run r)]
      cases hfind : findRange r.mm align.get numPages with
      | none => exact .inl ⟨_, rfl⟩
      | some found =>
        obtain ⟨idx, zeroed⟩ := found
        obtain ⟨hbound, hfree, hzero⟩ := findRange_spec h align.pos (Nat.le_of_not_lt hnum) hfind
        rw [Prog.bind_ok _ (Prog.okOr_some_run _ _ r)]
        simp only [Prog.bind_ok _ (Prog.require_run _ (decide_eq_true hbound) r)]
        obtain ⟨low, events, hsub⟩ := subtractFreePages_run (len_le_numFreePages h hbound hfree)
        rw [Prog.bind_ok _ hsub, Prog.bind_ok _ (modifyMm_run _ _)]
        refine .inr ⟨idx, zeroed, ?_⟩
        cases zeroed with
        | true =>
          refine ⟨_, rfl, ?_, hzero⟩
          refine given_of_bits _ h hbound hfree (fun i hi => ?_) (fun _ _ => rfl) rfl h.zeroedHint
            rfl rfl rfl rfl
          -- a range of zeroed pages has no dirty bit to clear
          by_cases hmem : idx ≤ i ∧ i < idx + numPages
          · rw [fill_of_mem hmem, ← Bool.not_eq_true]
            intro hd
            have := (h.dirty i hi).1 hd
            rw [hzero rfl i hmem] at this
            cases this
          · rw [fill_of_notMem hmem]
        | false =>
          exact ⟨_, rfl, given_of_bits _ h hbound hfree (fun _ _ => rfl) (fun _ _ => rfl) rfl
            h.zeroedHint rfl rfl rfl rfl, hzero⟩

/-! ## 3. The zeroer -/

/-- Some dirty pages went to the zeroer. -/
def Started (page page' : Nat → PageState) : Prop :=
  ∀ i, page' i = page i ∨ page i = .dirty ∧ page' i = .zeroing

/-- `nextDirtyPage` finds a dirty page of RAM. -/
theorem nextDirtyPage_spec {dirty : Nat → Bool} {start offset : Nat} (hstart : start ≤ RAM_PAGES)
    (h : nextDirtyPage dirty start = some offset) : offset < RAM_PAGES ∧ dirty offset = true := by
  unfold nextDirtyPage at h
  split at h
  · next idx hidx =>
    cases h
    exact firstOne_eq_some hidx
  · obtain ⟨h₁, h₂⟩ := firstOne_eq_some h
    rw [Nat.zero_add] at h₁ h₂
    exact ⟨h₁.trans_le hstart, h₂⟩

/-- Starting the zeroer when it is idle takes a range of dirty pages. -/
theorem represents_start {a : Nat → Option PID} {offset pages : Nat}
    (h : Represents page a r) (hidle : r.zeroer.running = false)
    (hpos : 0 < pages) (hle : offset + pages ≤ RAM_PAGES)
    (hdirty : ∀ i, offset ≤ i ∧ i < offset + pages → page i = .dirty) :
    Represents (Bitmap.fill page offset pages .zeroing) a { r with
      mm := { r.mm with
        freePagesDirty := Bitmap.fill r.mm.freePagesDirty offset pages false
        nextDirtyPageHint := some ((offset + pages) % RAM_PAGES) }
      zeroer := { r.zeroer with
        running := true
        currentPage := pageAddr offset
        currentPageNum := pages
        transfer := some (pageAddr offset, pages * PAGE_SIZE / 4) } } := by
  have hnone : ∀ i < RAM_PAGES, page i ≠ .zeroing := by
    intro i hi hp
    rw [← h.zeroing i hi] at hp
    rcases h.zeroer with idle | ⟨first, busy⟩
    · exact idle.not_zeroing i hp
    · rw [busy.running] at hidle
      cases hidle
  have hbusy : PageZeroer.Busy { r.zeroer with
      running := true
      currentPage := pageAddr offset
      currentPageNum := pages
      transfer := some (pageAddr offset, pages * PAGE_SIZE / 4) } offset :=
    ⟨rfl, rfl, hpos, hle, rfl⟩
  refine ⟨fun i hi => ?_, fun i hi => ?_, fun i hi => ?_, fun i hi => ?_, ?_, h.zeroedHint, ?_⟩
  · by_cases hmem : offset ≤ i ∧ i < offset + pages
    · rw [fill_of_mem hmem, h.owner i hi, hdirty i hmem]
      rfl
    · rw [fill_of_notMem hmem]
      exact h.owner i hi
  · show Bitmap.fill r.mm.freePagesDirty offset pages false i = true ↔ _
    by_cases hmem : offset ≤ i ∧ i < offset + pages
    · rw [fill_of_mem hmem, fill_of_mem hmem]
      exact ⟨nofun, nofun⟩
    · rw [fill_of_notMem hmem, fill_of_notMem hmem]
      exact h.dirty i hi
  · show r.mm.freePagesZeroed i = true ↔ _
    rw [h.zeroed i hi]
    by_cases hmem : offset ≤ i ∧ i < offset + pages
    · rw [fill_of_mem hmem, hdirty i hmem]
      exact ⟨nofun, nofun⟩
    · rw [fill_of_notMem hmem]
  · rw [hbusy.zeroing_iff]
    by_cases hmem : offset ≤ i ∧ i < offset + pages
    · rw [fill_of_mem hmem]
      exact ⟨fun _ => rfl, fun _ => hmem⟩
    · rw [fill_of_notMem hmem]
      exact ⟨fun hz => absurd hz hmem, fun hz => absurd hz (hnone i hi)⟩
  · intro n hn
    cases hn
    exact Nat.mod_lt _ (by decide)
  · exact .inr ⟨offset, hbusy⟩

theorem startZeroer_run {a : Nat → Option PID} (h : Represents page a r) :
    ∃ page' dirty hint zeroer,
      startZeroer r = (.ok (), { r with
        mm := { r.mm with freePagesDirty := dirty, nextDirtyPageHint := hint }
        zeroer := zeroer }) ∧
      Represents page' a { r with
        mm := { r.mm with freePagesDirty := dirty, nextDirtyPageHint := hint }
        zeroer := zeroer } ∧
      Started page page' := by
  have hstart : r.mm.nextDirtyPageHint.getD 0 ≤ RAM_PAGES := by
    cases hhint : r.mm.nextDirtyPageHint with
    | none => exact Nat.zero_le _
    | some n => exact (h.dirtyHint n hhint).le
  unfold startZeroer
  rw [Prog.bind_ok _ (Prog.get_run r)]
  split
  · exact ⟨page, _, _, _, rfl, h, fun _ => .inl rfl⟩
  · next hgo =>
    have hidle : r.zeroer.running = false := by
      rw [← Bool.not_eq_true]
      exact fun ht => hgo (.inl ht)
    unfold takeDirtyPages
    simp only [Prog.bind_run, Prog.get_run,
      Prog.require_run _ (decide_eq_true hstart)]
    cases hnext : nextDirtyPage r.mm.freePagesDirty (r.mm.nextDirtyPageHint.getD 0) with
    | none =>
      exact ⟨page, _, none, _, rfl, ⟨h.owner, h.dirty, h.zeroed, h.zeroing, nofun, h.zeroedHint,
        h.zeroer⟩, fun _ => .inl rfl⟩
    | some offset =>
      obtain ⟨hlt, hbit⟩ := nextDirtyPage_spec hstart hnext
      generalize hpages :
        min (leadingOnes r.mm.freePagesDirty offset RAM_PAGES) MAX_DIRTY_PAGES = pages
      have hpos : 0 < pages := by
        rw [← hpages]
        exact Nat.lt_min.2 ⟨leadingOnes_pos hlt hbit, by decide⟩
      have hones : pages ≤ leadingOnes r.mm.freePagesDirty offset RAM_PAGES := by
        rw [← hpages]
        exact Nat.min_le_left _ _
      have hle : offset + pages ≤ RAM_PAGES := by
        have := leadingOnes_le r.mm.freePagesDirty offset RAM_PAGES
        omega
      have hdirty : ∀ i, offset ≤ i ∧ i < offset + pages → page i = .dirty := by
        rintro i ⟨h₁, h₂⟩
        obtain ⟨k, rfl⟩ := Nat.exists_eq_add_of_le h₁
        rw [← h.dirty _ (h₂.trans_le hle)]
        exact leadingOnes_spec ((Nat.add_lt_add_iff_left.1 h₂).trans_le hones)
      refine ⟨_, _, _, _, ?_, represents_start h hidle hpos hle hdirty, fun i => ?_⟩
      · rw [← hpages]
        rfl
      · by_cases hmem : offset ≤ i ∧ i < offset + pages
        · exact .inr ⟨hdirty i hmem, fill_of_mem hmem⟩
        · exact .inl (fill_of_notMem hmem)

/-- When the zeroer is done, the pages that it worked on are zeroed. -/
theorem represents_finish {a : Nat → Option PID} {r' : Ram} {first : Nat}
    (h : Represents page a r) (hbusy : r.zeroer.Busy first)
    (hd : r'.mm.freePagesDirty = r.mm.freePagesDirty)
    (hz : r'.mm.freePagesZeroed =
      Bitmap.fill r.mm.freePagesZeroed first r.zeroer.currentPageNum true)
    (hdh : r'.mm.nextDirtyPageHint = r.mm.nextDirtyPageHint)
    (hzh : r'.mm.nextZeroedPageHint = r.mm.nextZeroedPageHint) (hidle : r'.zeroer.Idle) :
    Represents (Bitmap.fill page first r.zeroer.currentPageNum .zeroed) a r' := by
  refine ⟨fun i hi => ?_, fun i hi => ?_, fun i hi => ?_, fun i hi => ?_, hdh ▸ h.dirtyHint,
    hzh ▸ h.zeroedHint, .inl hidle⟩
  all_goals
    have hzeroing := (hbusy.zeroing_iff i).symm.trans (h.zeroing i hi)
    by_cases hmem : first ≤ i ∧ i < first + r.zeroer.currentPageNum
  · rw [fill_of_mem hmem, h.owner i hi, hzeroing.1 hmem]
    rfl
  · rw [fill_of_notMem hmem]
    exact h.owner i hi
  · rw [hd, fill_of_mem hmem, h.dirty i hi, hzeroing.1 hmem]
    exact ⟨nofun, nofun⟩
  · rw [hd, fill_of_notMem hmem]
    exact h.dirty i hi
  · rw [hz, fill_of_mem hmem, fill_of_mem hmem]
    exact ⟨fun _ => rfl, fun _ => rfl⟩
  · rw [hz, fill_of_notMem hmem, fill_of_notMem hmem]
    exact h.zeroed i hi
  · rw [fill_of_mem hmem]
    exact ⟨fun hz => absurd hz (hidle.not_zeroing i), nofun⟩
  · rw [fill_of_notMem hmem, ← hzeroing]
    exact ⟨fun hz => absurd hz (hidle.not_zeroing i), fun hz => absurd hz hmem⟩

theorem setPagesToZeroed_run {phys offset pages : Nat}
    (hoffset : addressToAllocationOffset phys = some offset) (hle : offset + pages ≤ RAM_PAGES) :
    setPagesToZeroed phys pages r = (.ok (), { r with mm := { r.mm with
      freePagesZeroed := Bitmap.fill r.mm.freePagesZeroed offset pages true } }) := by
  unfold setPagesToZeroed
  rw [hoffset, Prog.bind_ok _ (Prog.expect_some_run _ _ r),
    Prog.bind_ok _ (Prog.require_run _ (decide_eq_true hle) r)]
  rfl

/-- The interrupt at the end of the transfer in flight: the pages are zeroed, and the
zeroer takes the next ones. -/
theorem xdmacInterrupt_run {first : Nat} (h : Consistent page r) (hbusy : r.zeroer.Busy first) :
    ∃ page' r', xdmacInterrupt { r with zeroer := { r.zeroer with transfer := none } } =
        (.ok (), r') ∧
      Consistent page' r' ∧ r'.mm.allocations = r.mm.allocations ∧
      r'.mm.pendingMapZero = r.mm.pendingMapZero ∧
      ∀ i < RAM_PAGES, page' i = .zeroed → page i = .zeroed ∨ page i = .zeroing := by
  have hoffset : addressToAllocationOffset r.zeroer.currentPage = some first := by
    rw [hbusy.page]
    refine addressToAllocationOffset_pageAddr ?_
    exact Nat.lt_of_lt_of_le (Nat.lt_add_of_pos_right hbusy.pos) hbusy.le
  unfold xdmacInterrupt
  rw [Prog.bind_ok _ (Prog.get_run _), Prog.bind_ok _ (Prog.modify_run _ _),
    Prog.bind_ok _ (setPagesToZeroed_run hoffset hbusy.le), Prog.bind_ok _ (Prog.modify_run _ _)]
  have hrep : Represents (Bitmap.fill page first r.zeroer.currentPageNum .zeroed)
      r.mm.allocations { r with
        mm := { r.mm with
          freePagesZeroed :=
            Bitmap.fill r.mm.freePagesZeroed first r.zeroer.currentPageNum true }
        zeroer := ⟨false, r.zeroer.initialized, 0, 0, none⟩ } :=
    represents_finish h.toRepresents hbusy rfl rfl rfl rfl ⟨rfl, rfl, rfl⟩
  obtain ⟨page', dirty, hint, zeroer, hrun, hrep', hstarted⟩ := startZeroer_run hrep
  refine ⟨page', _, hrun, ⟨hrep', h.count⟩, rfl, rfl, fun i hi hz => ?_⟩
  rcases hstarted i with heq | ⟨-, hp⟩
  · rw [heq] at hz
    by_cases hmem : first ≤ i ∧ i < first + r.zeroer.currentPageNum
    · exact .inr ((h.zeroing i hi).1 ((hbusy.zeroing_iff i).2 hmem))
    · rw [fill_of_notMem hmem] at hz
      exact .inl hz
  · rw [hp] at hz
    cases hz

end Ram

end Kernel
