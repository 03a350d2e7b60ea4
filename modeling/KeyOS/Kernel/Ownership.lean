import KeyOS.Kernel.PageMoves

/-!
# Claiming, moving and releasing pages

A process claims a page at an address of its choice, a page moves from one process to
another, and a process gives up one page or all of them. A released page is dirty
before its owner is taken out of `allocations`, and the zeroer may take it at once.
-/

namespace Kernel

open Exec Bitmap

namespace Ram

variable {page : Nat → PageState} {r : Ram} {pid : PID}

/-! ## 1. One page -/

/-- From `r` to `r'` no page became zeroed, and the pages are consistent again. -/
structure Moves (page : Nat → PageState) (r : Ram) (page' : Nat → PageState) (r' : Ram) :
    Prop where
  consistent : Consistent page' r'
  zeroed : ∀ i < RAM_PAGES, page' i = .zeroed → page i = .zeroed
  pending : r'.mm.pendingMapZero = r.mm.pendingMapZero

theorem Given.moves {start len : Nat} {r' : Ram} (h : Given page r start len pid r') :
    Moves page r (Bitmap.fill page start len (.owned pid)) r' := by
  refine ⟨h.consistent, fun i _ hz => ?_, h.pending⟩
  by_cases hmem : start ≤ i ∧ i < start + len
  · rw [fill_of_mem hmem] at hz
    cases hz
  · rwa [fill_of_notMem hmem] at hz

/-- A change of the owner of a page outside RAM does not concern the pages of RAM. -/
theorem consistent_setOwner_of_le {offset : Nat} (h : Consistent page r)
    (hoffset : RAM_PAGES ≤ offset) (owner : Option PID) :
    Consistent page { r with mm := { r.mm with
      allocations := Function.update r.mm.allocations offset owner } } := by
  have hframe : ∀ i < RAM_PAGES,
      Function.update r.mm.allocations offset owner i = r.mm.allocations i := fun i hi =>
    Function.update_of_ne (hi.trans_le hoffset).ne _ _
  refine ⟨⟨fun i hi => ?_, h.dirty, h.zeroed, h.zeroing, h.dirtyHint, h.zeroedHint, h.zeroer⟩,
    ?_⟩
  · exact (hframe i hi).trans (h.owner i hi)
  · refine h.count.trans (congrArg Finset.card ?_)
    ext i
    rw [mem_vacant, mem_vacant]
    refine and_congr_right fun hi => ?_
    show r.mm.allocations i = none ↔ Function.update r.mm.allocations offset owner i = none
    rw [hframe i hi]

/-- A page with an owner gets the state `s`: another owner, or none and dirty. -/
theorem represents_update {a : Nat → Option PID} {offset : Nat} {old : PID} {s : PageState}
    {r' : Ram} (h : Represents page a r) (hoffset : offset < RAM_PAGES)
    (howned : page offset = .owned old) (hs : s ≠ .zeroing ∧ s ≠ .zeroed)
    (hd : r'.mm.freePagesDirty = Function.update r.mm.freePagesDirty offset (decide (s = .dirty)))
    (hz : r'.mm.freePagesZeroed = r.mm.freePagesZeroed)
    (hdh : ∀ n, r'.mm.nextDirtyPageHint = some n → n < RAM_PAGES)
    (hzh : r'.mm.nextZeroedPageHint = r.mm.nextZeroedPageHint) (hzeroer : r'.zeroer = r.zeroer) :
    Represents (Function.update page offset s) (Function.update a offset s.owner) r' := by
  rw [← fill_one, ← fill_one]
  refine h.fill (fun i hi => ?_) hs.1 (fun i _ => ?_) (fun i _ => ?_) hdh (hzh ▸ h.zeroedHint)
    hzeroer
  · obtain rfl : i = offset := le_antisymm (Nat.le_of_lt_succ hi.2) hi.1
    rw [howned]
    exact nofun
  · rw [hd, fill_one]
  · have hbit : r.mm.freePagesZeroed offset = false := by
      rw [← Bool.not_eq_true, h.zeroed offset hoffset, howned]
      exact nofun
    rw [hz, fill_one, decide_eq_false hs.2, ← hbit, Function.update_eq_self]

/-- A page with an owner gets another one. -/
theorem consistent_setOwner {offset : Nat} {old : PID} (h : Consistent page r)
    (hoffset : offset < RAM_PAGES) (hold : r.mm.allocations offset = some old) (pid : PID) :
    Consistent (Function.update page offset (.owned pid)) { r with mm := { r.mm with
      allocations := Function.update r.mm.allocations offset (some pid) } } := by
  have howned : page offset = .owned old := by
    rw [h.owner offset hoffset] at hold
    exact PageState.owner_eq_some.1 hold
  refine ⟨represents_update h.toRepresents hoffset howned ⟨nofun, nofun⟩ ?_ rfl h.dirtyHint rfl rfl,
    ?_⟩
  · have hbit : r.mm.freePagesDirty offset = false := by
      rw [← Bool.not_eq_true, h.dirty offset hoffset, howned]
      exact nofun
    show r.mm.freePagesDirty = Function.update r.mm.freePagesDirty offset false
    rw [← hbit, Function.update_eq_self]
  · show r.mm.numFreePages = (vacant RAM_PAGES (Function.update r.mm.allocations offset _)).card
    rw [vacant_update_some hold, h.count]

theorem moves_setOwner {offset : Nat} {old : PID} (h : Consistent page r)
    (hold : r.mm.allocations offset = some old) (pid : PID) :
    ∃ page', Moves page r page' { r with mm := { r.mm with
      allocations := Function.update r.mm.allocations offset (some pid) } } := by
  rcases Nat.lt_or_ge offset RAM_PAGES with hlt | hge
  · refine ⟨_, consistent_setOwner h hlt hold pid, fun i _ hz => ?_, rfl⟩
    rcases eq_or_ne i offset with rfl | hne
    · rw [Function.update_self] at hz
      cases hz
    · rwa [Function.update_of_ne hne] at hz
  · exact ⟨page, consistent_setOwner_of_le h hge _, fun _ _ => id, rfl⟩

theorem takeFree_cases (h : Consistent page r) {offset : Nat} (hoffset : offset < RAM_PAGES) :
    takeFree offset r = (.err .memoryInUse, r) ∨
    (page offset).isFree = true ∧ takeFree offset r = (.ok (), { r with mm := { r.mm with
      freePagesDirty := Bitmap.fill r.mm.freePagesDirty offset 1 false
      freePagesZeroed := Bitmap.fill r.mm.freePagesZeroed offset 1 false } }) := by
  have hother : ¬ (r.mm.freePagesDirty offset = true ∧ r.mm.freePagesZeroed offset = true) := by
    rw [h.dirty offset hoffset, h.zeroed offset hoffset]
    rintro ⟨hd, hz⟩
    rw [hd] at hz
    cases hz
  unfold takeFree
  rw [Prog.bind_ok _ (Prog.get_run r)]
  by_cases hz : r.mm.freePagesZeroed offset = true
  · obtain ⟨hd', hz'⟩ := clear_bit true hz hother
    refine .inr ⟨?_, ?_⟩
    · rw [(h.zeroed offset hoffset).1 hz]
      rfl
    · rw [if_pos hz, ← hd', ← hz']
      rfl
  · rw [if_neg hz]
    by_cases hd : r.mm.freePagesDirty offset = true
    · obtain ⟨hd', hz'⟩ := clear_bit false hd hother
      refine .inr ⟨?_, ?_⟩
      · rw [(h.dirty offset hoffset).1 hd]
        rfl
      · rw [if_pos hd, ← hd', ← hz']
        rfl
    · rw [if_neg hd]
      exact .inl rfl

/-- The page is vacant before, owned after, and was free if it is a page of RAM. -/
theorem claim_cases (h : Consistent page r) (offset : Nat) (pid : PID) :
    claim offset pid r = (.err .memoryInUse, r) ∨
    r.mm.allocations offset = none ∧
      (offset < RAM_PAGES → (page offset).isFree = true) ∧
      ∃ page' r', claim offset pid r = (.ok (), r') ∧ Moves page r page' r' ∧
        r'.mm.allocations = Function.update r.mm.allocations offset (some pid) ∧
        r'.zeroer = r.zeroer := by
  unfold claim
  rw [Prog.bind_ok _ (Prog.get_run r)]
  cases hvacant : r.mm.allocations offset with
  | some owner => exact .inl rfl
  | none =>
    rw [if_neg (by exact nofun)]
    rcases Nat.lt_or_ge offset RAM_PAGES with hlt | hge
    · rw [Prog.bind_run, Prog.onlyIf_true_run hlt]
      rcases takeFree_cases h hlt with herr | ⟨hfree, hok⟩
      · exact .inl (by rw [Prog.bind_err _ herr])
      · have hrange : ∀ i, offset ≤ i ∧ i < offset + 1 → (page i).isFree = true := by
          intro i hi
          obtain rfl : i = offset := le_antisymm (Nat.le_of_lt_succ hi.2) hi.1
          exact hfree
        have hnum : 1 ≤ r.mm.numFreePages := len_le_numFreePages h hlt hrange
        obtain ⟨low, events, hsub⟩ := subtractFreePages_run (r := { r with mm := { r.mm with
          freePagesDirty := Bitmap.fill r.mm.freePagesDirty offset 1 false
          freePagesZeroed := Bitmap.fill r.mm.freePagesZeroed offset 1 false } }) hnum
        have hgiven := given_of_bits ({ r with
            mm := { r.mm with
              allocations := Function.update r.mm.allocations offset (some pid)
              freePagesDirty := Bitmap.fill r.mm.freePagesDirty offset 1 false
              freePagesZeroed := Bitmap.fill r.mm.freePagesZeroed offset 1 false
              numFreePages := r.mm.numFreePages - 1
              lowMemory := low }
            lowMemoryEvents := events }) h hlt hrange (fun _ _ => rfl) (fun _ _ => rfl) rfl
          h.zeroedHint fill_one.symm rfl rfl rfl
        refine .inr ⟨rfl, fun _ => hfree, _, _, ?_, hgiven.moves, rfl, rfl⟩
        rw [Prog.bind_ok _ hok, hsub]
        rfl
    · refine .inr ⟨rfl, fun hlt => absurd hlt (Nat.not_lt.2 hge), page, _, ?_,
        ⟨consistent_setOwner_of_le h hge _, fun _ _ => id, rfl⟩, rfl, rfl⟩
      rw [Prog.bind_ok _ (Prog.onlyIf_false_run (Nat.not_lt.2 hge) _ r)]
      rfl

theorem move_cases (h : Consistent page r) (offset : Nat) (pid existing : PID) :
    (∃ e, move offset pid existing r = (.err e, r)) ∨
    ∃ current page' r', r.mm.allocations offset = some current ∧
      (current = pid ∨ existing = current) ∧
      move offset pid existing r = (.ok (), r') ∧ Moves page r page' r' ∧
      r'.mm.allocations = Function.update r.mm.allocations offset (some pid) ∧
      r'.zeroer = r.zeroer := by
  unfold move
  rw [Prog.bind_ok _ (Prog.get_run r)]
  cases hold : r.mm.allocations offset with
  | none => exact .inl ⟨.doubleFree, rfl⟩
  | some current =>
    dsimp only
    split
    · exact .inl ⟨_, rfl⟩
    · next hother =>
      obtain ⟨page', hmoves⟩ := moves_setOwner h hold pid
      refine .inr ⟨current, page', _, rfl, ?_, rfl, hmoves, rfl, rfl⟩
      rw [not_and_or, not_not, not_not] at hother
      exact hother

/-- A page that is released is dirty, and the zeroer may start with it at once. -/
theorem release_cases (h : Consistent page r) (offset : Nat) (pid : PID) :
    (∃ e, release offset pid r = (.err e, r)) ∨
    r.mm.allocations offset = some pid ∧
      ∃ page' r', release offset pid r = (.ok (), r') ∧ Moves page r page' r' ∧
        r'.mm.allocations = Function.update r.mm.allocations offset none := by
  unfold release
  rw [Prog.bind_ok _ (Prog.get_run r)]
  cases hold : r.mm.allocations offset with
  | none => exact .inl ⟨.doubleFree, rfl⟩
  | some current =>
    dsimp only
    split
    · exact .inl ⟨_, rfl⟩
    · next hcurrent =>
      rw [not_not] at hcurrent
      subst hcurrent
      refine .inr ⟨rfl, ?_⟩
      rcases Nat.lt_or_ge offset RAM_PAGES with hlt | hge
      · have howned : page offset = .owned current := by
          rw [h.owner offset hlt] at hold
          exact PageState.owner_eq_some.1 hold
        -- the page is dirty for the zeroer although `allocations` still names its owner
        have hdirty : Represents (Function.update page offset .dirty)
            (Function.update r.mm.allocations offset none) { r with mm := { r.mm with
              freePagesDirty := Function.update r.mm.freePagesDirty offset true
              nextDirtyPageHint := r.mm.nextDirtyPageHint.or (some offset) } } := by
          refine represents_update h.toRepresents hlt howned ⟨(by intro h; cases h), (by intro h; cases h)⟩ rfl rfl ?_ rfl rfl
          intro n hn
          rcases Option.or_eq_some_iff.1 hn with hhint | ⟨-, hhint⟩
          · exact h.dirtyHint n hhint
          · cases hhint
            exact hlt
        obtain ⟨page', dirty, hint, zeroer, hrun, hrep, hstarted⟩ := startZeroer_run hdirty
        have hcount := vacant_update_none (n := RAM_PAGES) hlt hold
        have hnum : r.mm.numFreePages + 1 ≤ RAM_PAGES := by
          rw [h.count, ← hcount]
          exact vacant_card_le _ _
        obtain ⟨low, hadd⟩ := addFreePages_run (r := { r with
          mm := { r.mm with freePagesDirty := dirty, nextDirtyPageHint := hint }
          zeroer := zeroer }) hnum
        refine ⟨page', { r with
          mm := { r.mm with
            allocations := Function.update r.mm.allocations offset none
            freePagesDirty := dirty
            nextDirtyPageHint := hint
            numFreePages := r.mm.numFreePages + 1
            lowMemory := low }
          zeroer := zeroer }, ?_, ⟨⟨⟨hrep.owner, hrep.dirty, hrep.zeroed, hrep.zeroing,
          hrep.dirtyHint, hrep.zeroedHint, hrep.zeroer⟩, ?_⟩, ?_, rfl⟩, rfl⟩
        · rw [Prog.bind_run, Prog.onlyIf_true_run hlt, Prog.bind_ok _ (setDirty_run _ _ r),
            Prog.bind_ok _ (modifyMm_run _ _), Prog.bind_ok _ hrun, hadd]
          rfl
        · exact (congrArg (· + 1) h.count).trans hcount.symm
        · intro i hi hz
          rcases hstarted i with heq | ⟨-, hp⟩
          · rw [heq] at hz
            rcases eq_or_ne i offset with rfl | hne
            · rw [Function.update_self] at hz
              cases hz
            · rwa [Function.update_of_ne hne] at hz
          · rw [hp] at hz
            cases hz
      · refine ⟨page, _, ?_, ⟨consistent_setOwner_of_le h hge none, fun _ _ => id, rfl⟩, rfl⟩
        rw [Prog.bind_ok _ (Prog.onlyIf_false_run (Nat.not_lt.2 hge) _ r)]
        rfl

/-- What a successful call did to the owner of the page at `offset`. -/
def Transferred (r : Ram) (offset : Nat) (pid : PID) (r' : Ram) : ClaimReleaseMove → Prop
  | .claim => r.mm.allocations offset = none ∧
      r'.mm.allocations = Function.update r.mm.allocations offset (some pid)
  | .move existing => (∃ current, r.mm.allocations offset = some current ∧
      (current = pid ∨ existing = current)) ∧
      r'.mm.allocations = Function.update r.mm.allocations offset (some pid)
  | .release => r.mm.allocations offset = some pid ∧
      r'.mm.allocations = Function.update r.mm.allocations offset none

/-- A failed call changes nothing, and so does a call for a shared peripheral. -/
theorem claimReleaseMove_cases (h : Consistent page r) (processes : PID → Option Process)
    (addr : Nat) (pid : PID) (action : ClaimReleaseMove) :
    (∃ e, claimReleaseMove processes addr pid action r = (.err e, r)) ∨
    ((isAddressEncrypted addr || isAddressInPlaintextDram addr) = false ∧
      claimReleaseMove processes addr pid action r = (.ok (), r)) ∨
    ∃ offset page' r', addressToAllocationOffset addr = some offset ∧
      claimReleaseMove processes addr pid action r = (.ok (), r') ∧
      Moves page r page' r' ∧ Transferred r offset pid r' action ∧
      (action = .claim → offset < RAM_PAGES → (page offset).isFree = true) ∧
      (action ≠ .release → r'.zeroer = r.zeroer) := by
  unfold claimReleaseMove
  split
  · exact .inl ⟨_, rfl⟩
  · have hpermission : ∀ shared : Except Error Bool,
        (if isAddressEncrypted addr || isAddressInPlaintextDram addr then .ok false
          else checkPeripheral processes addr pid) = shared →
        shared = .ok true → (isAddressEncrypted addr || isAddressInPlaintextDram addr) = false := by
      rintro shared hshared rfl
      split at hshared
      · cases hshared
      · next hram => exact Bool.eq_false_of_not_eq_true hram
    generalize hshared : (if isAddressEncrypted addr || isAddressInPlaintextDram addr then
      Except.ok false else checkPeripheral processes addr pid) = shared
    rcases shared with e | (_ | _)
    · exact .inl ⟨e, rfl⟩
    · rw [Prog.bind_ok _ (Prog.ofExcept_ok_run _ r), if_neg (by exact nofun)]
      cases hoffset : addressToAllocationOffset addr with
      | none => exact .inl ⟨_, rfl⟩
      | some offset =>
        have hlt := addressToAllocationOffset_lt hoffset
        rw [Prog.bind_ok _ (Prog.okOr_some_run _ _ r),
          Prog.bind_ok _ (Prog.require_run _ (decide_eq_true hlt) r)]
        cases action with
        | claim =>
          rcases claim_cases h offset pid with herr | ⟨hnone, hfree, page', r', hok, hm, ha, hz⟩
          · exact .inl ⟨_, herr⟩
          · exact .inr (.inr ⟨offset, page', r', rfl, hok, hm, ⟨hnone, ha⟩, fun _ => hfree,
              fun _ => hz⟩)
        | move existing =>
          rcases move_cases h offset pid existing with
            ⟨e, herr⟩ | ⟨current, page', r', hsome, hwho, hok, hm, ha, hz⟩
          · exact .inl ⟨e, herr⟩
          · exact .inr (.inr ⟨offset, page', r', rfl, hok, hm, ⟨⟨current, hsome, hwho⟩, ha⟩,
              nofun, fun _ => hz⟩)
        | release =>
          rcases release_cases h offset pid with ⟨e, herr⟩ | ⟨hsome, page', r', hok, hm, ha⟩
          · exact .inl ⟨e, herr⟩
          · exact .inr (.inr ⟨offset, page', r', rfl, hok, hm, ⟨hsome, ha⟩, nofun,
              fun hne => absurd rfl hne⟩)
    · exact .inr (.inl ⟨hpermission _ hshared rfl, rfl⟩)

/-! ## 2. All pages of a process -/

/-- Between two rounds of the loop of `releaseAllMemoryForProcess`: some pages of `pid`
are dirty, all others are as they were in `r`. -/
structure Releasing (page : Nat → PageState) (r : Ram) (pid : PID) (r' : Ram) : Prop where
  moves : ∃ page', Moves page r page' r'
  owners : ∀ i, r'.mm.allocations i = r.mm.allocations i ∨
    r.mm.allocations i = some pid ∧ r'.mm.allocations i = none
  zeroer : r'.zeroer = r.zeroer

theorem releaseIfOwned_run {r' : Ram} (h : Releasing page r pid r') (idx : Nat) :
    ∃ r'', releaseIfOwned pid idx r' = (.ok (), r'') ∧ Releasing page r pid r'' := by
  obtain ⟨⟨page', hc, hzeroed, hpending⟩, howners, hzeroer⟩ := h
  unfold releaseIfOwned
  rw [Prog.bind_ok _ (Prog.get_run r')]
  by_cases howned : r'.mm.allocations idx = some pid
  · rw [Prog.onlyIf_true_run howned, Prog.bind_ok _ (setOwner_run _ _ r')]
    have howner : r.mm.allocations idx = some pid := by
      rcases howners idx with heq | ⟨hsome, -⟩
      · rw [← heq, howned]
      · exact hsome
    have howners' : ∀ i, Function.update r'.mm.allocations idx none i = r.mm.allocations i ∨
        r.mm.allocations i = some pid ∧ Function.update r'.mm.allocations idx none i = none := by
      intro i
      rcases eq_or_ne i idx with rfl | hne
      · rw [Function.update_self]
        exact .inr ⟨howner, rfl⟩
      · rw [Function.update_of_ne hne]
        exact howners i
    rcases Nat.lt_or_ge idx RAM_PAGES with hlt | hge
    · rw [Prog.onlyIf_true_run hlt, Prog.bind_ok _ (setDirty_run _ _ _)]
      have hpage : page' idx = .owned pid := by
        rw [hc.owner idx hlt] at howned
        exact PageState.owner_eq_some.1 howned
      have hcount := vacant_update_none (n := RAM_PAGES) hlt howned
      have hnum : r'.mm.numFreePages + 1 ≤ RAM_PAGES := by
        rw [hc.count, ← hcount]
        exact vacant_card_le _ _
      obtain ⟨low, hadd⟩ := addFreePages_run (r := { r' with mm := { r'.mm with
        allocations := Function.update r'.mm.allocations idx none
        freePagesDirty := Function.update r'.mm.freePagesDirty idx true } }) hnum
      refine ⟨_, hadd, ⟨Function.update page' idx .dirty, ⟨?_, ?_⟩, ?_, hpending⟩, howners',
        hzeroer⟩
      · exact represents_update hc.toRepresents hlt hpage ⟨nofun, nofun⟩ rfl rfl hc.dirtyHint rfl rfl
      · exact (congrArg (· + 1) hc.count).trans hcount.symm
      · intro i hi hz
        rcases eq_or_ne i idx with rfl | hne
        · rw [Function.update_self] at hz
          cases hz
        · rw [Function.update_of_ne hne] at hz
          exact hzeroed i hi hz
    · rw [Prog.onlyIf_false_run (Nat.not_lt.2 hge)]
      exact ⟨_, rfl, ⟨page', consistent_setOwner_of_le hc hge none, hzeroed, hpending⟩, howners',
        hzeroer⟩
  · exact ⟨r', Prog.onlyIf_false_run howned _ _, ⟨page', hc, hzeroed, hpending⟩, howners,
      hzeroer⟩

theorem releaseLoop_run (h : Consistent page r) (pid : PID) (l : List Nat) :
    ∃ r', Prog.forEach l (releaseIfOwned pid) r = (.ok (), r') ∧ Releasing page r pid r' := by
  have hloop : Prog.Triple (Releasing page r pid) (Prog.forEach l (releaseIfOwned pid))
      (fun _ => Releasing page r pid) (fun _ _ => False) fun _ => False := by
    refine Prog.Triple.forEach fun idx _ => Prog.Triple.of_run fun r' hr' => ?_
    obtain ⟨r'', hrun, hr''⟩ := releaseIfOwned_run hr' idx
    exact ⟨(), r'', hrun, hr''⟩
  obtain ⟨_, r', hrun, hr'⟩ :=
    hloop.runs (s := r) ⟨⟨page, h, fun _ _ => id, rfl⟩, fun _ => .inl rfl, rfl⟩
  exact ⟨r', hrun, hr'⟩

/-- Releasing all memory of `pid` takes pages from `pid` only. -/
theorem releaseAllMemoryForProcess_run (h : Consistent page r) (pid : PID) :
    ∃ page' r', releaseAllMemoryForProcess pid r = (.ok (), r') ∧ Moves page r page' r' ∧
      ∀ i, r'.mm.allocations i = r.mm.allocations i ∨
        r.mm.allocations i = some pid ∧ r'.mm.allocations i = none := by
  unfold releaseAllMemoryForProcess
  generalize List.range memPages = indices
  obtain ⟨r₁, hrun₁, ⟨page₁, hc, hzeroed, hpending⟩, howners, -⟩ := releaseLoop_run h pid indices
  obtain ⟨page', dirty, hint, zeroer, hrun, hrep, hstarted⟩ := startZeroer_run hc.toRepresents
  rw [Prog.bind_ok _ hrun₁]
  refine ⟨page', _, hrun, ⟨⟨hrep, hc.count⟩, fun i hi hz => ?_, hpending⟩, howners⟩
  rcases hstarted i with heq | ⟨-, hp⟩
  · rw [heq] at hz
    exact hzeroed i hi hz
  · rw [hp] at hz
    cases hz

/-! ## 3. The first state -/

theorem foldl_countPage (allocations : Nat → Option PID) (n : Nat) :
    (List.range n).foldl MemoryManager.countPage (.uninitialized allocations) =
      { MemoryManager.uninitialized allocations with
        freePagesDirty := fun i => decide (i < n) && (allocations i).isNone
        numFreePages := (vacant n allocations).card } := by
  rw [vacant_card_eq_countP]
  induction n with
  | zero => rfl
  | succ n ih =>
    rw [List.range_succ, List.foldl_append, ih, List.countP_append, List.foldl_cons,
      List.foldl_nil, List.countP_singleton]
    have hlt : ∀ i ≠ n, decide (i < n) = decide (i < n + 1) := fun i hne =>
      decide_eq_decide.2 ⟨Nat.lt_succ_of_lt, fun hi =>
        lt_of_le_of_ne (Nat.le_of_lt_succ hi) hne⟩
    cases hn : allocations n with
    | none =>
      simp only [MemoryManager.countPage, MemoryManager.uninitialized, hn, Option.isNone_none,
        if_true]
      congr 1
      funext i
      rcases eq_or_ne i n with rfl | hne
      · rw [Function.update_self, hn, decide_eq_true (Nat.lt_succ_self i)]
        rfl
      · rw [Function.update_of_ne hne, hlt i hne]
    | some owner =>
      simp only [MemoryManager.countPage, MemoryManager.uninitialized, hn, Option.isNone_some,
        Bool.false_eq_true, if_false]
      congr 1
      funext i
      rcases eq_or_ne i n with rfl | hne
      · rw [hn, Option.isNone_some, Bool.and_false, Bool.and_false]
      · rw [hlt i hne]

def initialState (allocations : Nat → Option PID) (i : Nat) : PageState :=
  match allocations i with
  | some pid => .owned pid
  | none => .dirty

/-- The allocator starts with every page owned or dirty, whatever the loader owns. -/
theorem init_consistent (allocations : Nat → Option PID) :
    Consistent (initialState allocations) (Ram.init allocations) := by
  have hidle : PageZeroer.default.Idle := ⟨rfl, rfl, rfl⟩
  unfold Ram.init MemoryManager.initFromMemory
  rw [foldl_countPage]
  refine ⟨⟨fun i _ => ?_, fun i hi => ?_, fun i _ => ?_, fun i _ => ?_, nofun, Nat.zero_le _,
    .inl hidle⟩, by dsimp only [MemoryManager.uninitialized]⟩
  all_goals unfold initialState
  · show allocations i = _
    cases allocations i <;> rfl
  · show (decide (i < RAM_PAGES) && (allocations i).isNone) = true ↔ _
    rw [decide_eq_true hi, Bool.true_and]
    cases allocations i with
    | none => exact ⟨fun _ => rfl, fun _ => rfl⟩
    | some pid => exact ⟨nofun, nofun⟩
  · refine ⟨nofun, fun hp => ?_⟩
    cases hi : allocations i <;> rw [hi] at hp <;> cases hp
  · refine ⟨fun hz => absurd hz (hidle.not_zeroing i), fun hp => ?_⟩
    cases hi : allocations i <;> rw [hi] at hp <;> cases hp

end Ram

end Kernel
