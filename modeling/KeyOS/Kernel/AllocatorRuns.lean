import KeyOS.Kernel.Ownership

/-!
# Runs of the allocator

Processes allocate, claim, move and release pages in any order, processes end, and the
DMA channel finishes its transfers at any time. `Dram` adds what is in the pages to the
state: which of them the zeroer filled since they last had an owner.
-/

namespace Kernel

open Exec Bitmap

/-- The DMA channel has been told to fill page `i` with zeros. -/
def Ram.inTransfer (r : Ram) (i : Nat) : Bool :=
  match r.zeroer.transfer with
  | none => false
  | some (phys, words) => decide (phys ≤ pageAddr i ∧ pageAddr i + PAGE_SIZE ≤ phys + words * 4)

structure Dram where
  ram : Ram
  /-- Pages that had no owner since the transfer in flight started -/
  untouched : Nat → Bool
  /-- Pages that a transfer has filled with zeros and that had no owner since then -/
  zeroFilled : Nat → Bool

namespace Dram

def init (allocations : Nat → Option PID) : Dram :=
  ⟨.init allocations, fun _ => false, fun _ => false⟩

/-- The allocator went on to `ram`. -/
def observe (s : Dram) (ram : Ram) : Dram :=
  { ram := ram
    untouched := fun i => (ram.mm.allocations i).isNone &&
      (s.untouched i || decide (ram.zeroer.transfer ≠ s.ram.zeroer.transfer))
    zeroFilled := fun i => (ram.mm.allocations i).isNone && s.zeroFilled i }

def track {α : Type} (x : Prog Ram Panic Error α) : Prog Dram Panic Error Unit := fun s =>
  match x s.ram with
  | (.ok _, ram) => (.ok (), s.observe ram)
  | (.err e, ram) => (.err e, s.observe ram)
  | (.panic p, ram) => (.panic p, s.observe ram)

/-- The DMA channel reaches the end of its transfer. -/
def finishTransfer (s : Dram) : Dram :=
  { s with
    ram := { s.ram with zeroer := { s.ram.zeroer with transfer := none } }
    zeroFilled := fun i => s.zeroFilled i || (s.ram.inTransfer i && s.untouched i) }

inductive Op where
  | allocSinglePage (pid : PID)
  | allocRangeAligned (align : Ram.AlignPages) (numPages : Nat) (pid : PID)
  | claimPage (processes : PID → Option Process) (addr : Nat) (pid : PID)
  | movePage (processes : PID → Option Process) (addr : Nat) (pid existing : PID)
  | releasePage (processes : PID → Option Process) (addr : Nat) (pid : PID)
  | releaseAllMemoryForProcess (pid : PID)
  | initZeroer
  | startZeroer
  /-- The transfer in flight is done and raises its interrupt. -/
  | transferDone

def step : Op → Prog Dram Panic Error Unit
  | .allocSinglePage pid => track (Ram.allocSinglePage pid)
  | .allocRangeAligned align numPages pid => track (Ram.allocRangeAligned align numPages pid)
  | .claimPage processes addr pid => track (Ram.claimPage processes addr pid)
  | .movePage processes addr pid existing =>
    track (Ram.claimReleaseMove processes addr pid (.move existing))
  | .releasePage processes addr pid => track (Ram.releasePage processes addr pid)
  | .releaseAllMemoryForProcess pid => track (Ram.releaseAllMemoryForProcess pid)
  | .initZeroer => track Ram.initZeroer
  | .startZeroer => track Ram.startZeroer
  | .transferDone => do
    let s ← Prog.get
    if s.ram.zeroer.transfer.isSome then do
      Prog.modify finishTransfer
      track Ram.xdmacInterrupt
    else
      pure ()

/-! ## 1. What holds in every state -/

/-- The pages are consistent, and the zeroed ones are zero. -/
structure Clean (page : Nat → PageState) (s : Dram) : Prop where
  consistent : Consistent page s.ram
  zeroed : ∀ i < RAM_PAGES, page i = .zeroed → s.zeroFilled i = true
  zeroing : ∀ i < RAM_PAGES, page i = .zeroing → s.untouched i = true

variable {page page' : Nat → PageState} {s : Dram} {ram : Ram}

theorem inTransfer_of_zeroing (h : Consistent page ram) {i : Nat} (hi : i < RAM_PAGES)
    (hz : page i = .zeroing) : ram.inTransfer i = true := by
  have hmem := (h.zeroing i hi).2 hz
  rcases h.zeroer with idle | ⟨first, busy⟩
  · exact absurd hmem (idle.not_zeroing i)
  · obtain ⟨h₁, h₂⟩ := (busy.zeroing_iff i).1 hmem
    unfold Ram.inTransfer
    rw [busy.transfer, busy.page, words_of_pages]
    refine decide_eq_true ⟨Nat.add_le_add_left (Nat.mul_le_mul_right _ h₁) _, ?_⟩
    have hnext : (i + 1) * PAGE_SIZE ≤ (first + ram.zeroer.currentPageNum) * PAGE_SIZE :=
      Nat.mul_le_mul_right _ h₂
    have hwords : ram.zeroer.currentPageNum * 1024 * 4 =
        ram.zeroer.currentPageNum * PAGE_SIZE := Nat.mul_assoc _ _ _
    rw [hwords, pageAddr, pageAddr, Nat.add_assoc, Nat.add_assoc, ← Nat.add_mul,
      ← Nat.succ_mul]
    exact Nat.add_le_add_left hnext _

/-- A step of the allocator that makes no page zeroed. -/
theorem clean_observe (h : Clean page s) (hm : Ram.Moves page s.ram page' ram) :
    Clean page' (s.observe ram) := by
  have hvacant : ∀ i < RAM_PAGES, (page' i).owner = none →
      (ram.mm.allocations i).isNone = true := by
    intro i hi hp
    rw [hm.consistent.owner i hi, hp]
    rfl
  refine ⟨hm.consistent, fun i hi hz => ?_, fun i hi hz => ?_⟩
  · show ((ram.mm.allocations i).isNone && s.zeroFilled i) = true
    rw [hvacant i hi (by rw [hz]; rfl), h.zeroed i hi (hm.zeroed i hi hz)]
    rfl
  · show ((ram.mm.allocations i).isNone && (s.untouched i || _)) = true
    rw [hvacant i hi (by rw [hz]; rfl), Bool.true_and, Bool.or_eq_true]
    by_cases ht : ram.zeroer.transfer = s.ram.zeroer.transfer
    · exact .inl (h.zeroing i hi (h.consistent.zeroing_of_transfer_eq
        hm.consistent.toRepresents ht hi hz))
    · exact .inr (decide_eq_true ht)

/-- A step that ends with a value or an error has a clean state after it. -/
theorem track_clean {α : Type} {x : Prog Ram Panic Error α} {o : Outcome Panic Error α}
    (h : Clean page s) (hx : x s.ram = (o, ram)) (ho : ∀ p, o ≠ .panic p)
    (hm : Ram.Moves page s.ram page' ram) :
    ∃ s', Prog.after (track x) s = .ok s' ∧ ∃ page', Clean page' s' := by
  refine ⟨s.observe ram, ?_, page', clean_observe h hm⟩
  unfold Prog.after track
  rw [hx]
  cases o with
  | ok a => rfl
  | err e => rfl
  | panic p => exact absurd rfl (ho p)

theorem moves_refl (h : Consistent page ram) : Ram.Moves page ram page ram :=
  ⟨h, fun _ _ => id, rfl⟩

theorem claimReleaseMove_clean (h : Clean page s) (processes : PID → Option Process) (addr : Nat)
    (pid : PID) (action : Ram.ClaimReleaseMove) :
    ∃ s', Prog.after (track (Ram.claimReleaseMove processes addr pid action)) s = .ok s' ∧
      ∃ page', Clean page' s' := by
  rcases Ram.claimReleaseMove_cases h.consistent processes addr pid action with
    ⟨e, herr⟩ | ⟨-, hok⟩ | ⟨offset, page', ram, -, hok, hm, -⟩
  · exact track_clean h herr nofun (moves_refl h.consistent)
  · exact track_clean h hok nofun (moves_refl h.consistent)
  · exact track_clean h hok nofun hm

theorem startZeroer_moves (h : Consistent page ram) :
    ∃ page' ram', Ram.startZeroer ram = (.ok (), ram') ∧ Ram.Moves page ram page' ram' := by
  obtain ⟨page', dirty, hint, zeroer, hrun, hrep, hstarted⟩ := Ram.startZeroer_run h.toRepresents
  refine ⟨page', _, hrun, ⟨hrep, h.count⟩, fun i _ hz => ?_, rfl⟩
  rcases hstarted i with heq | ⟨-, hp⟩
  · rwa [heq] at hz
  · rw [hp] at hz
    cases hz

/-- The end of a transfer: the pages that become zeroed were filled by it. -/
theorem transferDone_clean {first : Nat} (h : Clean page s) (hbusy : s.ram.zeroer.Busy first) :
    ∃ s', Prog.after (track Ram.xdmacInterrupt) s.finishTransfer = .ok s' ∧
      ∃ page', Clean page' s' := by
  obtain ⟨page', ram, hrun, hc, -, -, hzeroed⟩ := Ram.xdmacInterrupt_run h.consistent hbusy
  have hrun' : Ram.xdmacInterrupt s.finishTransfer.ram = (.ok (), ram) := hrun
  refine ⟨s.finishTransfer.observe ram, ?_, page', hc, fun i hi hz => ?_, fun i hi hz => ?_⟩
  · unfold Prog.after track
    rw [hrun']
  · show ((ram.mm.allocations i).isNone &&
      (s.zeroFilled i || (s.ram.inTransfer i && s.untouched i))) = true
    rw [hc.owner i hi, hz, Bool.and_eq_true, Bool.or_eq_true, Bool.and_eq_true]
    refine ⟨rfl, ?_⟩
    rcases hzeroed i hi hz with hp | hp
    · exact .inl (h.zeroed i hi hp)
    · exact .inr ⟨inTransfer_of_zeroing h.consistent hi hp, h.zeroing i hi hp⟩
  · show ((ram.mm.allocations i).isNone &&
      (s.untouched i || decide (ram.zeroer.transfer ≠ none))) = true
    rw [hc.owner i hi, hz, Bool.and_eq_true, Bool.or_eq_true]
    refine ⟨rfl, .inr (decide_eq_true fun hnone => ?_)⟩
    have hmem := (hc.zeroing i hi).2 hz
    rcases hc.zeroer with idle | ⟨next, busy⟩
    · exact idle.not_zeroing i hmem
    · rw [busy.transfer] at hnone
      cases hnone

theorem step_clean (op : Op) (h : ∃ page, Clean page s) :
    ∃ s', Prog.after (step op) s = .ok s' ∧ ∃ page, Clean page s' := by
  obtain ⟨page, h⟩ := h
  cases op with
  | allocSinglePage pid =>
    rcases Ram.allocSinglePage_cases h.consistent pid with
      herr | ⟨idx, zeroed, ram, hok, hgiven, -⟩
    · exact track_clean h herr nofun (moves_refl h.consistent)
    · exact track_clean h hok nofun hgiven.moves
  | allocRangeAligned align numPages pid =>
    rcases Ram.allocRangeAligned_cases h.consistent align numPages pid with
      ⟨e, herr⟩ | ⟨idx, zeroed, ram, hok, hgiven, -⟩
    · exact track_clean h herr nofun (moves_refl h.consistent)
    · exact track_clean h hok nofun hgiven.moves
  | claimPage processes addr pid => exact claimReleaseMove_clean h processes addr pid _
  | movePage processes addr pid existing => exact claimReleaseMove_clean h processes addr pid _
  | releasePage processes addr pid => exact claimReleaseMove_clean h processes addr pid _
  | releaseAllMemoryForProcess pid =>
    obtain ⟨page', ram, hok, hm, -⟩ := Ram.releaseAllMemoryForProcess_run h.consistent pid
    exact track_clean (x := Ram.releaseAllMemoryForProcess pid) h hok nofun hm
  | initZeroer =>
    have hc := h.consistent
    exact track_clean h (x := Ram.initZeroer) rfl nofun
      ⟨⟨⟨hc.owner, hc.dirty, hc.zeroed, hc.zeroing, hc.dirtyHint, hc.zeroedHint,
        hc.zeroer.imp id fun ⟨first, b⟩ => ⟨first, b.running, b.page, b.pos, b.le, b.transfer⟩⟩,
        hc.count⟩, fun _ _ => id, rfl⟩
  | startZeroer =>
    obtain ⟨page', ram, hok, hm⟩ := startZeroer_moves h.consistent
    exact track_clean h hok nofun hm
  | transferDone =>
    show ∃ s', Prog.after (Prog.get >>= fun s => _) s = .ok s' ∧ _
    rcases h.consistent.zeroer with idle | ⟨first, busy⟩
    · refine ⟨s, ?_, page, h⟩
      unfold Prog.after
      rw [Prog.bind_ok _ (Prog.get_run s), idle.2.2]
      rfl
    · obtain ⟨s', hrun, hs'⟩ := transferDone_clean h busy
      refine ⟨s', ?_, hs'⟩
      rw [← hrun]
      unfold Prog.after
      rw [Prog.bind_ok _ (Prog.get_run s), busy.transfer, Option.isSome_some, if_pos rfl,
        Prog.bind_ok _ (Prog.modify_run _ s)]

theorem init_clean (allocations : Nat → Option PID) :
    Clean (Ram.initialState allocations) (init allocations) := by
  refine ⟨Ram.init_consistent allocations, fun i _ hz => ?_, fun i _ hz => ?_⟩
  all_goals
    unfold Ram.initialState at hz
    cases hi : allocations i <;> rw [hi] at hz <;> cases hz

/-! ## 2. The allocator's invariant -/

/-- The bitmaps, the counter and the zeroer agree with the owners. -/
structure BitsAgree (r : Ram) : Prop where
  disjoint : ∀ i < RAM_PAGES, ¬ (r.mm.freePagesDirty i = true ∧ r.mm.freePagesZeroed i = true)
  vacant : ∀ i < RAM_PAGES, r.mm.freePagesDirty i = true ∨ r.mm.freePagesZeroed i = true →
    r.mm.allocations i = none
  inTransfer : ∀ i < RAM_PAGES, r.mm.allocations i = none → r.mm.freePagesDirty i = false →
    r.mm.freePagesZeroed i = false → r.inTransfer i = true
  count : r.mm.numFreePages =
    (List.range RAM_PAGES).countP fun i => (r.mm.allocations i).isNone

/-- The `len` pages of RAM from `addr` on have no owner, no transfer works on them, and
they are filled with zeros if they are reported as zeroed. -/
def Available (s : Dram) (addr len : Nat) (zeroed : Bool) : Prop :=
  ∃ first, addr = pageAddr first ∧ first + len ≤ RAM_PAGES ∧
    ∀ i, first ≤ i ∧ i < first + len → s.ram.mm.allocations i = none ∧
      s.ram.inTransfer i = false ∧ (zeroed = true → s.zeroFilled i = true)

/-- What an allocation or a claim returns was available. -/
structure AllocatesAvailable (s : Dram) : Prop where
  single : ∀ pid addr zeroed ram, Ram.allocSinglePage pid s.ram = (.ok (addr, zeroed), ram) →
    s.Available addr 1 zeroed
  range : ∀ align numPages pid addr zeroed ram,
    Ram.allocRangeAligned align numPages pid s.ram = (.ok (addr, zeroed), ram) →
    s.Available addr numPages zeroed
  claimed : ∀ processes addr pid ram i, Ram.claimPage processes addr pid s.ram = (.ok (), ram) →
    addressToAllocationOffset addr = some i → i < RAM_PAGES → s.Available (pageAddr i) 1 false

theorem zeroing_of_inTransfer (h : Consistent page ram) {i : Nat} (hi : i < RAM_PAGES)
    (hin : ram.inTransfer i = true) : page i = .zeroing := by
  rw [← h.zeroing i hi]
  unfold Ram.inTransfer at hin
  rcases h.zeroer with idle | ⟨first, busy⟩
  · rw [idle.2.2] at hin
    cases hin
  · rw [busy.transfer, words_of_pages] at hin
    obtain ⟨h₁, h₂⟩ := of_decide_eq_true hin
    refine ⟨h₁, Nat.lt_of_lt_of_le (Nat.lt_add_of_pos_right PAGE_SIZE_pos) (h₂.trans_eq ?_)⟩
    rw [Nat.mul_assoc]
    rfl

theorem not_inTransfer_of_isFree (h : Consistent page ram) {i : Nat} (hi : i < RAM_PAGES)
    (hfree : (page i).isFree = true) : ram.inTransfer i = false := by
  rw [← Bool.not_eq_true]
  intro hin
  rw [zeroing_of_inTransfer h hi hin] at hfree
  cases hfree

theorem Clean.available (h : Clean page s) {first len : Nat} {zeroed : Bool}
    (hle : first + len ≤ RAM_PAGES)
    (hfree : ∀ i, first ≤ i ∧ i < first + len → (page i).isFree = true)
    (hzero : zeroed = true → ∀ i, first ≤ i ∧ i < first + len → page i = .zeroed) :
    s.Available (pageAddr first) len zeroed := by
  refine ⟨first, rfl, hle, fun i hi => ?_⟩
  have hlt := hi.2.trans_le hle
  refine ⟨?_, not_inTransfer_of_isFree h.consistent hlt (hfree i hi), fun hz => ?_⟩
  · rw [h.consistent.owner i hlt, PageState.owner_of_isFree (hfree i hi)]
  · exact h.zeroed i hlt (hzero hz i hi)

theorem Clean.bitsAgree (h : Clean page s) : BitsAgree s.ram := by
  obtain ⟨hc, -, -⟩ := h
  refine ⟨fun i hi => ?_, fun i hi => ?_, fun i hi hnone hd hz => ?_, ?_⟩
  · rw [hc.dirty i hi, hc.zeroed i hi]
    rintro ⟨hd, hz⟩
    rw [hd] at hz
    cases hz
  · rw [hc.dirty i hi, hc.zeroed i hi, hc.owner i hi]
    rintro (hp | hp) <;> rw [hp] <;> rfl
  · refine inTransfer_of_zeroing hc hi ?_
    rw [hc.owner i hi] at hnone
    rw [← Bool.not_eq_true, hc.dirty i hi] at hd
    rw [← Bool.not_eq_true, hc.zeroed i hi] at hz
    cases hp : page i with
    | owned pid =>
      rw [hp] at hnone
      cases hnone
    | dirty => exact absurd hp hd
    | zeroing => rfl
    | zeroed => exact absurd hp hz
  · rw [hc.count, vacant_card_eq_countP]

theorem Clean.allocatesAvailable (h : Clean page s) : AllocatesAvailable s := by
  refine ⟨fun pid addr zeroed ram hrun => ?_, fun align numPages pid addr zeroed ram hrun => ?_,
    fun processes addr pid ram i hrun hoffset hi => ?_⟩
  · rcases Ram.allocSinglePage_cases h.consistent pid with
      herr | ⟨idx, zeroed', ram', hok, hgiven, hzero⟩
    · rw [herr] at hrun
      cases hrun
    · rw [hok] at hrun
      cases hrun
      refine h.available hgiven.le hgiven.free fun ht i hi => ?_
      obtain rfl : i = idx := le_antisymm (Nat.le_of_lt_succ hi.2) hi.1
      exact hzero ht
  · rcases Ram.allocRangeAligned_cases h.consistent align numPages pid with
      ⟨e, herr⟩ | ⟨idx, zeroed', ram', hok, hgiven, hzero⟩
    · rw [herr] at hrun
      cases hrun
    · rw [hok] at hrun
      cases hrun
      exact h.available hgiven.le hgiven.free hzero
  · rcases Ram.claimReleaseMove_cases h.consistent processes addr pid .claim with
      ⟨e, herr⟩ | ⟨hram, -⟩ | ⟨offset, page', ram', hoffset', -, -, -, hfree, -⟩
    · exact absurd (herr.symm.trans hrun) nofun
    · exact absurd (addressToAllocationOffset_ge hram hoffset) (Nat.not_le.2 hi)
    · rw [hoffset] at hoffset'
      cases hoffset'
      refine h.available hi (fun j hj => ?_) nofun
      obtain rfl : j = i := le_antisymm (Nat.le_of_lt_succ hj.2) hj.1
      exact hfree rfl hi

/-- In every run of the allocator, from any ownership table that the loader leaves: no
assertion fires and no slice index is out of range, the bitmaps, the counter and the
zeroer agree with the owners, and an allocation returns only pages that are available,
filled with zeros when it says so. -/
theorem allocator_invariant (allocations : Nat → Option PID) (ops : List Op) :
    ∃ s, Prog.run step ops (init allocations) = .ok s ∧
      BitsAgree s.ram ∧ AllocatesAvailable s := by
  obtain ⟨s, hrun, page, hclean⟩ := Prog.run_keeps (I := fun s => ∃ page, Clean page s) ops
    (fun op _ s hs => step_clean op hs) ⟨_, init_clean allocations⟩
  exact ⟨s, hrun, hclean.bitsAgree, hclean.allocatesAvailable⟩

end Dram

end Kernel
