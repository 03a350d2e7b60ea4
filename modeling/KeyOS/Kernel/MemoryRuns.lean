import KeyOS.Kernel.AllocatorRuns
import KeyOS.Kernel.OtherProcesses
import KeyOS.Kernel.RangeTransfers

/-!
# Runs of the memory manager

Processes begin and end, map and unmap memory, store to it, fault, send, lend and return
it in any order, and the DMA channels finish their work at any time.

A page is mapped once, by its owner, as long as no borrower returns a page that it has
lent on. What a process gets to see of a new page is zero, and the kernel can write the
zeros, as long as nobody asks for a read-only mapping of RAM by its address.
-/

namespace Kernel

open Exec Bitmap

namespace Memory

/-! ## 1. The steps -/

/-- A length of whole pages, in bytes. -/
structure PageLength where
  bytes : UInt32
  aligned : bytes.toNat % PAGE_SIZE = 0

inductive Op where
  /-- The system call of a process -/
  | mapMemory (pid : PID) (tid : TID) (phys virt size : UInt32) (flags : MemoryFlags)
  /-- The kernel's own mappings: stacks, program segments, devices -/
  | mapRange (pid : PID) (phys virt : UInt32) (size : PageLength) (flags : MemoryFlags)
      (mapUser : Bool)
  | unmapMemory (pid : PID) (range : MemoryRange)
  | unmapRange (pid : PID) (virt len : UInt32)
  /-- An access to an on-demand page -/
  | fault (pid : PID) (virt : UInt32)
  /-- A process stores to a page, or the kernel does on its behalf. -/
  | store (pid : PID) (virt : UInt32)
  | movePage (pid : PID) (srcAddr : UInt32) (destPid : PID) (destAddr : UInt32)
  | sendMemory (pid : PID) (srcVirt : UInt32) (destPid : PID) (destVirt len : UInt32)
  | lendMemory (pid : PID) (srcVirt : UInt32) (destPid : PID) (destVirt len : UInt32)
      (mutable : Bool)
  | returnMemory (pid : PID) (srcVirt : UInt32) (destPid : PID) (destVirt len : UInt32)
  | clearSharedRange (pid : PID) (addr len : UInt32) (mode : MemoryMapping.ClearShared)
  | allocateSpace (pid : PID)
  | destroySpace (pid : PID)
  | initZeroer
  | startZeroer
  /-- The transfer of the zeroer is done and raises its interrupt. -/
  | transferDone
  /-- The pages of a parked request are zero, and the channel raises its interrupt. -/
  | mapZeroDone

/-- An operation, and the process table that it finds. -/
structure Call where
  processes : PID → Option Process
  op : Op

/-- The store of a process to one of its pages, if it has the right to. -/
def store (pid : PID) (virt : Nat) : Prog Memory Panic Error Unit := do
  let m ← Prog.get
  match m.entryAt pid (virt / PAGE_SIZE) with
  | .mapped d => Prog.onlyIf (d.ap2 = false) (setContents d.phys .data)
  | _ => pure ()

/-- The transfer of the zeroer reaches its end. A page that somebody has may hold
anything by then. -/
def finishTransfer (m : Memory) : Memory :=
  { m with
    ram := { m.ram with zeroer := { m.ram.zeroer with transfer := none } }
    contents := fun i =>
      if m.ram.inTransfer i then
        if (m.ram.mm.allocations i).isNone then .zeros false else .data
      else m.contents i }

def transferDone : Prog Memory Panic Error Unit := do
  let m ← Prog.get
  if m.ram.zeroer.transfer.isSome then do
    Prog.modify finishTransfer
    onRam Ram.xdmacInterrupt
  else
    pure ()

/-- The channel fills the pages of a request through the alias that will be mapped. -/
def fillRequest (job : PendingMapZero) : Prog Memory Panic Error Unit :=
  Prog.forEach (List.range (pageCount job.size)) fun k =>
    setContents (job.phys + k * PAGE_SIZE) (zerosAt (job.phys + k * PAGE_SIZE))

def mapZeroDone (processes : PID → Option Process) : Prog Memory Panic Error Unit := do
  let m ← Prog.get
  match m.ram.mm.pendingMapZero with
  | none => pure ()
  | some job => do
    fillRequest job
    let _ ← mapZeroFinished processes
    pure ()

def step (call : Call) : Prog Memory Panic Error Unit :=
  match call.op with
  | .mapMemory pid tid phys virt size flags => do
    let _ ← Memory.mapMemory call.processes pid tid phys.toNat virt.toNat size.toNat flags
    pure ()
  | .mapRange pid phys virt size flags mapUser => do
    let _ ← Memory.mapRange call.processes pid phys.toNat virt.toNat size.bytes.toNat flags mapUser
    pure ()
  | .unmapMemory pid range => Memory.unmapMemory call.processes pid range
  | .unmapRange pid virt len => Memory.unmapRange call.processes pid virt.toNat len.toNat
  | .fault pid virt => MemoryMapping.ensureBacked pid virt.toNat
  | .store pid virt => Memory.store pid virt.toNat
  | .movePage pid srcAddr destPid destAddr =>
    Memory.movePage call.processes pid srcAddr.toNat destPid destAddr.toNat
  | .sendMemory pid srcVirt destPid destVirt len => do
    let _ ← Memory.sendMemory call.processes pid srcVirt.toNat destPid destVirt.toNat len.toNat
    pure ()
  | .lendMemory pid srcVirt destPid destVirt len mutable => do
    let _ ← Memory.lendMemory call.processes pid srcVirt.toNat destPid destVirt.toNat len.toNat
      mutable
    pure ()
  | .returnMemory pid srcVirt destPid destVirt len => do
    let _ ← Memory.returnMemory call.processes pid srcVirt.toNat destPid destVirt.toNat len.toNat
    pure ()
  | .clearSharedRange pid addr len mode =>
    Memory.clearSharedRange pid addr.toNat len.toNat mode
  | .allocateSpace pid => Memory.allocateSpace pid
  | .destroySpace pid => Memory.destroySpace pid
  | .initZeroer => onRam Ram.initZeroer
  | .startZeroer => onRam Ram.startZeroer
  | .transferDone => Memory.transferDone
  | .mapZeroDone => Memory.mapZeroDone call.processes

/-- What is returned was not lent on. -/
def Op.ReturnsOwn (op : Op) (m : Memory) : Prop :=
  match op with
  | .returnMemory pid srcVirt destPid destVirt len =>
    pid ≠ destPid → Returnable m pid srcVirt.toNat destPid destVirt.toNat (len.toNat / PAGE_SIZE)
  | _ => True

/-- A request for pages of RAM by their address without the right to write to them. -/
def Op.ReadsRam : Op → Prop
  | .mapMemory _ _ phys _ size flags => ReadOnlyRam phys.toNat size.toNat flags
  | .mapRange _ phys _ size flags _ => ReadOnlyRam phys.toNat size.bytes.toNat flags
  | _ => False

/-- What the loader leaves: the pages that are mapped have their process as their owner. -/
structure Loaded (m : Memory) : Prop where
  ram : ∃ allocations, m.ram = Ram.init allocations
  owner : ∀ pid v d i, m.Maps pid v d i → m.ram.mm.allocations i = some pid
  unique : ∀ pid v d pid' v' d' i, m.Maps pid v d i → m.Maps pid' v' d' i → pid = pid' ∧ v = v'
  hint : ∀ pid, m.allocationHint pid = MMAP_AREA_VIRT

/-! ## 2. What one step keeps -/

variable {m m' : Memory} {pid : PID} {job : Option PendingMapZero} {held : Nat → Option PID}
  {new : Nat → Prop} {A : Panic → Prop} {calls : List Call} {call : Call}

theorem Loaded.settled (h : Loaded m) : Settled (fun _ => False) m := by
  obtain ⟨allocations, hram⟩ := h.ram
  refine ⟨none, ⟨by rw [hram, Ram.init, MemoryManager.initFromMemory, Ram.foldl_countPage]; rfl,
    ⟨Ram.initialState allocations, by rw [hram]; exact Ram.init_consistent allocations,
      fun i _ hz => ?_⟩, fun pid v d i hm => ⟨h.owner pid v d i hm, rfl⟩, h.unique, nofun,
    fun _ _ _ _ _ => False.elim, fun pid => (h.hint pid).ge⟩, nofun⟩
  unfold Ram.initialState at hz
  cases hi : allocations i <;> rw [hi] at hz <;> cases hz

theorem store_keeps (pid : PID) (virt : Nat) (hnew : ∀ i, new i → Unmapped m i) :
    Prog.Triple (fun s => s = m ∧ Sound job held new m) (store pid virt)
      (fun _ => Sound job held new) (fun _ => Sound job held new) A := by
  rintro _ ⟨rfl, hs⟩
  unfold store
  rw [Prog.bind_ok _ (Prog.get_run _)]
  cases hd : Memory.entryAt _ pid (virt / PAGE_SIZE) with
  | empty => exact hs
  | unmapped frame flags user => exact hs
  | mapped d =>
    dsimp only
    by_cases hw : d.ap2 = false
    · rw [Prog.onlyIf_true_run hw]
      refine hs.setContentsAt (fun i hi => ?_) fun i hi p w d' hm hn => ?_
      · rw [(hs.owner pid (virt / PAGE_SIZE) d i ⟨hd, hi⟩).1]
        exact nofun
      · exact absurd hm (hnew i hn p w d')
    · rw [Prog.onlyIf_false_run hw]
      exact hs

theorem setRam_moves (h : Sound job held new m) {ram : Ram}
    (hm : ∀ page, Consistent page m.ram → ∃ page', Ram.Moves page m.ram page' ram)
    (howners : ram.mm.allocations = m.ram.mm.allocations) :
    Sound job held new { m with ram := ram } := by
  obtain ⟨page, hc⟩ := h.ready
  obtain ⟨page', hmoves⟩ := hm page hc
  have hs := h.setRam (h.clean_of_moves hm) fun i _ => .inl (congrFun howners i)
  rwa [hmoves.pending, h.job] at hs

theorem initZeroer_keeps : Prog.Keeps (Sound job held new) (onRam Ram.initZeroer) A := by
  refine Prog.Triple.of_run fun m hs => ⟨(), _, rfl, setRam_moves hs (fun page hc => ?_) rfl⟩
  exact ⟨page, ⟨⟨hc.owner, hc.dirty, hc.zeroed, hc.zeroing, hc.dirtyHint, hc.zeroedHint,
    hc.zeroer.imp id fun ⟨first, b⟩ => ⟨first, b.running, b.page, b.pos, b.le, b.transfer⟩⟩,
    hc.count⟩, fun _ _ => id, rfl⟩

theorem startZeroer_keeps : Prog.Keeps (Sound job held new) (onRam Ram.startZeroer) A := by
  refine Prog.Triple.of_run fun m hs => ?_
  obtain ⟨page, hc⟩ := hs.ready
  obtain ⟨_, dirty, hint, zeroer, hrun, -⟩ := Ram.startZeroer_run hc.toRepresents
  refine ⟨(), _, onRam_ok hrun, setRam_moves hs (fun page hc => ?_) rfl⟩
  obtain ⟨page', ram, hrun', hm⟩ := Dram.startZeroer_moves hc
  rw [hrun] at hrun'
  cases hrun'
  exact ⟨page', hm⟩

/-- The pages of a transfer have no owner, so they are not mapped, and they are zero at its
end. -/
theorem transferDone_keeps : Prog.Keeps (Sound job held new) transferDone A := by
  refine Prog.Triple.of_run fun m hs => ?_
  obtain ⟨page, hc, hz⟩ := hs.clean
  unfold transferDone
  rw [Prog.bind_ok _ (Prog.get_run m)]
  rcases hc.zeroer with idle | ⟨first, busy⟩
  · rw [idle.2.2]
    exact ⟨(), m, rfl, hs⟩
  obtain ⟨page', ram, hrun, hc', howners, hpending, hzeroed⟩ := Ram.xdmacInterrupt_run hc busy
  rw [busy.transfer, Option.isSome_some, if_pos rfl, Prog.bind_ok _ (Prog.modify_run _ m)]
  have hmapped : ∀ {p w d i}, m.Maps p w d i → (finishTransfer m).contents i = m.contents i := by
    intro p w d i hm
    refine if_neg fun hin => ?_
    have howner := hc.owner i hm.2.2
    rw [Dram.zeroing_of_inTransfer hc hm.2.2 hin, (hs.owner _ _ _ _ hm).1] at howner
    cases howner
  refine ⟨(), _, onRam_ok hrun, hpending.trans hs.job, ⟨page', hc', fun i hi hp => ?_⟩,
    fun p w d i hm => ?_, hs.unique, fun i hi q hq => ?_, fun p w d i hm hn => ?_, hs.hint⟩
  · show (finishTransfer m).contents i = _
    unfold finishTransfer
    rcases hzeroed i hi hp with hp | hp
    · dsimp only
      rw [Dram.not_inTransfer_of_isFree hc hi (by rw [hp]; rfl), if_neg Bool.false_ne_true]
      exact hz i hi hp
    · dsimp only
      rw [Dram.inTransfer_of_zeroing hc hi hp, if_pos rfl, hc.owner i hi, hp]
      rfl
  · show ram.mm.allocations i = _ ∧ _
    rw [howners]
    exact hs.owner p w d i hm
  · show ram.mm.allocations i = _
    rw [howners]
    exact hs.held i hi q hq
  · exact (hmapped hm).trans (hs.zero p w d i hm hn)

/-- The channel zeroes pages that the request holds and that nobody maps. -/
theorem fillRequest_triple {request : PendingMapZero} :
    Prog.Triple (fun m => Settled new m ∧ m.ram.mm.pendingMapZero = some request)
      (fillRequest request) (fun _ m => (Settled new m ∧ m.ram.mm.pendingMapZero = some request) ∧
        RangeZero m new request.phys (pageCount request.size)) (fun _ _ => False) A := by
  let J (rest : List Nat) (m : Memory) : Prop :=
    (Settled new m ∧ m.ram.mm.pendingMapZero = some request) ∧
    (∀ k ∈ rest, k < pageCount request.size) ∧
    ∀ k < pageCount request.size, k ∉ rest → ∀ i, RamPage (nthPage request.phys k) i →
      m.contents i = zerosAt (nthPage request.phys k)
  refine (Prog.Triple.forEach_rest (J := J) fun k rest => ?_).conseq
    (fun m hm => ⟨hm, fun k hk => List.mem_range.1 hk, fun k hk hmem =>
      absurd (List.mem_range.2 hk) hmem⟩)
    (fun _ m hm => ⟨hm.1, fun k hk i hi _ => hm.2.2 k hk List.not_mem_nil i hi⟩)
    (fun _ _ => id) fun _ => id
  refine Prog.Triple.modify fun m ⟨⟨⟨job, hs, hwf⟩, hjob⟩, hlt, hzero⟩ => ?_
  obtain rfl : job = some request := hs.job.symm.trans hjob
  have hk : k < pageCount request.size := hlt k List.mem_cons_self
  have howned : ∀ i, RamPage (nthPage request.phys k) i → Owned m request.pid i := fun i hi =>
    hs.owned_of_held hi.2 (if_pos ⟨k, hk, hi⟩)
  refine ⟨⟨⟨some request, hs.setContentsAt (fun i hi => ?_)
    fun i hi p w d hm => absurd hm ((howned i hi).2 p w d), hwf⟩, hjob⟩,
    fun j hj => hlt j (List.mem_cons_of_mem k hj), fun j hj hmem i hi => ?_⟩
  · rw [(howned i hi).1]
    exact nofun
  · show (if addressToAllocationOffset (nthPage request.phys k) = some i then
      zerosAt (nthPage request.phys k) else m.contents i) = zerosAt (nthPage request.phys j)
    by_cases hik : RamPage (nthPage request.phys k) i
    · obtain rfl : j = k := (hwf request rfl).distinct j hj k hk i hi hik
      exact if_pos hik.1
    · rw [if_neg fun heq => hik ⟨heq, hi.2⟩]
      refine hzero j hj (fun hmem' => ?_) i hi
      rcases List.mem_cons.1 hmem' with rfl | hrest
      · exact hik hi
      · exact hmem hrest

theorem mapZeroDone_keeps (processes : PID → Option Process) (hA : A .mapRwx) :
    Prog.Keeps (Settled new) (mapZeroDone processes) A := by
  intro m hs
  unfold mapZeroDone
  rw [Prog.bind_ok _ (Prog.get_run m)]
  cases hjob : m.ram.mm.pendingMapZero with
  | none => exact hs
  | some request =>
    refine Prog.Triple.bind ((fillRequest_triple).conseq (fun _ => id) (fun _ _ => id)
      (fun _ _ => False.elim) fun _ => id) (fun _ => ?_) m ⟨hs, hjob⟩
    refine Prog.Triple.bind ((mapZeroFinished_triple processes hA).pre fun m hm =>
      ⟨hm.1.1, fun job hj => ?_⟩) fun _ => Prog.Triple.pure fun _ => id
    obtain rfl : request = job := Option.some.inj (hm.1.2.symm.trans hj)
    exact hm.2

/-- The panics of a step: only a request to read RAM makes the kernel fault. -/
def StepPanic (op : Op) (p : Panic) : Prop :=
  p = .mapRwx ∨ p = .revertFailed ∨ p = .clearSharedFailed ∨ p = .permissionFault ∧ op.ReadsRam

-- the statement must not be evaluated down to the search for free pages
attribute [local irreducible] Memory.allocateSpace

theorem step_keeps (hnew : ∀ i, new i → Unmapped m i) :
    Prog.Triple (fun s => s = m ∧ Settled new m ∧ call.op.ReturnsOwn m) (step call)
      (fun _ => Settled new) (fun _ => Settled new) (StepPanic call.op) := by
  obtain ⟨processes, op⟩ := call
  have hkeeps : ∀ {x : Prog Memory Panic Error Unit} {B : Panic → Prop},
      Prog.Keeps (Settled new) x B → (∀ p, B p → StepPanic op p) →
      Prog.Triple (fun s => s = m ∧ Settled new m ∧ op.ReturnsOwn m) x (fun _ => Settled new)
        (fun _ => Settled new) (StepPanic op) := fun hx hB =>
    hx.conseq (fun _ h => h.1 ▸ h.2.1) (fun _ _ => id) (fun _ _ => id) hB
  have hdrop : ∀ {α : Type} {x : Prog Memory Panic Error α} {B : Panic → Prop},
      Prog.Keeps (Settled new) x B →
      Prog.Keeps (Settled new) (do let _ ← x; pure ()) B := fun hx =>
    Prog.Triple.bind hx fun _ => Prog.Triple.pure fun _ => id
  cases op with
  | mapMemory pid tid phys virt size flags =>
    refine hkeeps (hdrop (mapMemory_keeps processes virt.toNat_lt size.toNat_lt pid tid))
      fun p hp => ?_
    exact hp.imp_right fun hp => .inr (.inr hp)
  | mapRange pid phys virt size flags mapUser =>
    refine hkeeps (hdrop (Settled.keeps fun job => mapRange_triple processes virt.toNat_lt
      size.bytes.toNat_lt size.aligned mapUser)) fun p hp => ?_
    exact hp.imp_right fun hp => .inr (.inr hp)
  | unmapMemory pid range =>
    exact hkeeps (Settled.keeps fun job => unmapMemory_keeps processes pid range)
      fun _ => False.elim
  | unmapRange pid virt len =>
    exact hkeeps (Settled.keeps fun job => unmapRange_keeps processes pid _ _) fun _ => False.elim
  | fault pid virt =>
    exact hkeeps (Settled.keeps fun job => ensureBacked_keeps pid virt.toNat) fun _ => False.elim
  | store pid virt =>
    rintro _ ⟨rfl, ⟨job, hs, hwf⟩, -⟩
    exact (store_keeps pid virt.toNat hnew).conseq (fun _ => id)
      (fun _ _ hs' => ⟨job, hs', hwf⟩) (fun _ _ hs' => ⟨job, hs', hwf⟩) (fun _ => id) _ ⟨rfl, hs⟩
  | movePage pid srcAddr destPid destAddr =>
    exact hkeeps (Settled.keeps fun job => movePage_keeps processes pid _ destPid _)
      fun _ => False.elim
  | sendMemory pid srcVirt destPid destVirt len =>
    refine hkeeps (hdrop (Settled.keeps fun job => sendMemory_keeps processes destVirt.toNat_lt pid
      destPid)) fun p hp => .inr (.inl hp)
  | lendMemory pid srcVirt destPid destVirt len mutable =>
    refine hkeeps (hdrop (Settled.keeps fun job => lendMemory_keeps processes destVirt.toNat_lt pid
      destPid mutable)) fun p hp => .inr (.inl hp)
  | returnMemory pid srcVirt destPid destVirt len =>
    refine Prog.Triple.bind (Q := fun _ => Settled new) ?_ fun _ => Prog.Triple.pure fun _ => id
    intro s ⟨heq, ⟨job, hs, hwf⟩, hreturn⟩
    refine (returnMemory_triple processes pid _ destPid _ _).conseq (S := fun s => s = m)
      (fun s heq => ?_) (fun _ _ hs' => ⟨job, hs', hwf⟩) (fun _ _ hs' => ⟨job, hs', hwf⟩)
      (fun _ => id) s heq
    rw [heq]
    exact ⟨hs, hreturn⟩
  | clearSharedRange pid addr len mode =>
    exact hkeeps (Settled.keeps fun job => clearSharedRange_keeps rfl pid _ _ mode)
      fun p (hp : Panic.clearSharedFailed = p) => .inr (.inr (.inl hp.symm))
  | allocateSpace pid =>
    exact hkeeps (Settled.keeps fun job => allocateSpace_keeps pid) fun _ => False.elim
  | destroySpace pid => exact hkeeps (destroySpace_keeps pid) fun _ => False.elim
  | initZeroer => exact hkeeps (Settled.keeps fun job => initZeroer_keeps) fun _ => False.elim
  | startZeroer => exact hkeeps (Settled.keeps fun job => startZeroer_keeps) fun _ => False.elim
  | transferDone => exact hkeeps (Settled.keeps fun job => transferDone_keeps) fun _ => False.elim
  | mapZeroDone => exact hkeeps (mapZeroDone_keeps processes (.inl rfl)) fun _ => id

/-- The zeroing duty can be taken up for pages that are not mapped yet. -/
theorem Settled.renew (h : Settled new m) : Settled m.Unmapped m := by
  obtain ⟨job, hs, hwf⟩ := h
  exact ⟨job, hs.renew fun pid v d i hm hn => absurd hm (hn pid v d), hwf⟩

theorem Settled.forget (h : Settled new m) : Settled (fun _ => False) m := by
  obtain ⟨job, hs, hwf⟩ := h
  exact ⟨job, hs.renew fun _ _ _ _ _ => False.elim, hwf⟩

/-! ## 3. Exclusive mappings -/

/-- The step finds nothing in its way: what it returns was not lent on. -/
def ReturnsOwn (call : Call) (m : Memory) : Prop := call.op.ReturnsOwn m

/-- A page of RAM is mapped once, by its owner. -/
structure Exclusive (m : Memory) : Prop where
  once : ∀ pid v d pid' v' d' i, m.Maps pid v d i → m.Maps pid' v' d' i → pid = pid' ∧ v = v'
  owner : ∀ pid v d i, m.Maps pid v d i → m.ram.mm.allocations i = some pid

theorem run_settled (hloaded : Loaded m) (h : Prog.Steps step ReturnsOwn m calls m') :
    Settled (fun _ => False) m' := by
  refine h.keeps (I := Settled fun _ => False) (fun call s s' hs hreturn hrun => ?_)
    hloaded.settled
  exact Prog.after_keeps (step_keeps fun i => False.elim) ⟨rfl, hs, hreturn⟩ hrun

/-- In every run from what the loader leaves, in which no borrower returns a page that it
has lent on, every page of RAM is mapped at most once, and by its owner. -/
theorem pages_exclusive (hloaded : Loaded m) (h : Prog.Steps step ReturnsOwn m calls m') :
    Exclusive m' := by
  obtain ⟨job, hs, -⟩ := run_settled hloaded h
  exact ⟨hs.unique, fun pid v d i hm => (hs.owner pid v d i hm).1⟩

/-! ## 4. New pages -/

/-- The steps by which a process comes to pages that it did not have. -/
def Op.acquires : Op → Bool
  | .mapMemory .. => true
  | .mapRange .. => true
  | .fault .. => true
  | .mapZeroDone => true
  | _ => false

/-- The step returns nothing that was lent on, and asks for no read-only RAM. -/
def NoReadOnly (call : Call) (m : Memory) : Prop := call.op.ReturnsOwn m ∧ ¬ call.op.ReadsRam

/-- What a step from `m` to `m'` shows of the pages that it maps. -/
structure NoStale (call : Call) (m m' : Memory) : Prop where
  /-- A page that nobody mapped is zero as soon as somebody does. -/
  fresh : ∀ pid v d i, m'.Maps pid v d i → m.Unmapped i → m'.contents i = zerosAt d.phys
  /-- A page is zero when a process acquires it. -/
  acquired : call.op.acquires = true → ∀ pid v d i, m'.Maps pid v d i →
    (∀ w d', ¬ m.Maps pid w d' i) → m'.contents i = zerosAt d.phys

theorem fillRequest_others (request : PendingMapZero) : KeepsOthers pid m (fillRequest request) :=
  Prog.Triple.forEach fun _ _ => setContents_others _ _

theorem fillRequest_pending (request : PendingMapZero) :
    Prog.Keeps (fun s => s.ram.mm.pendingMapZero = job) (fillRequest request) fun _ => True :=
  Prog.Triple.forEach fun _ _ => Prog.Triple.modify fun _ => id

theorem mapZeroDone_others (processes : PID → Option Process) (m : Memory) :
    ∃ pid, Prog.Triple (fun s => s = m) (mapZeroDone processes) (fun _ => OthersKept pid m)
      (fun _ => OthersKept pid m) fun _ => True := by
  refine ⟨(m.ram.mm.pendingMapZero.map PendingMapZero.pid).getD .kernel, ?_⟩
  rintro _ rfl
  unfold mapZeroDone
  rw [Prog.bind_ok _ (Prog.get_run _)]
  cases hjob : MemoryManager.pendingMapZero _ with
  | none => exact .refl _
  | some request =>
    refine Prog.Triple.bind (((fillRequest_others request).and (fillRequest_pending request)).conseq
      (fun _ => id) (fun _ _ => id) (fun _ _ h => h.1) fun _ => id) (fun _ => ?_) _ ⟨.refl _, hjob⟩
    refine Prog.Triple.bind ((mapZeroFinished_others processes).pre fun s hs => ⟨hs.1, ?_⟩)
      fun _ => Prog.Triple.pure fun _ => id
    rw [hs.2]
    rfl

/-- An acquisition edits the tables of one process. -/
theorem acquires_others (hacquires : call.op.acquires = true)
    (hrun : Prog.after (step call) m = .ok m') : ∃ pid, OthersKept pid m m' := by
  obtain ⟨processes, op⟩ := call
  have hdrop : ∀ {α : Type} {pid : PID} {x : Prog Memory Panic Error α}, KeepsOthers pid m x →
      Prog.after (do let _ ← x; pure ()) m = .ok m' → OthersKept pid m m' := fun hx h =>
    Prog.after_keeps (Prog.Triple.bind hx fun _ => Prog.Triple.pure fun _ => id) (.refl m) h
  cases op with
  | mapMemory pid tid phys virt size flags =>
    exact ⟨pid, hdrop (mapMemory_others processes tid _ _ _ flags) hrun⟩
  | mapRange pid phys virt size flags mapUser =>
    exact ⟨pid, hdrop (mapRange_others processes _ _ _ flags mapUser) hrun⟩
  | fault pid virt => exact ⟨pid, Prog.after_keeps (ensureBacked_others virt.toNat) (.refl m) hrun⟩
  | mapZeroDone =>
    obtain ⟨pid, hx⟩ := mapZeroDone_others processes m
    exact ⟨pid, Prog.after_keeps hx rfl hrun⟩
  | _ => cases hacquires

/-- Who acquires a page takes it from nobody. -/
theorem unmapped_of_acquires (hs' : Settled new m')
    (hkept : OthersKept pid m m') {p : PID} {v i : Nat} {d : PageTableDescriptor}
    (hmaps : m'.Maps p v d i) (hnot : ∀ w d', ¬ m.Maps p w d' i) : m.Unmapped i := by
  have hsame : ∀ {q w e}, q ≠ pid → (m'.Maps q w e i ↔ m.Maps q w e i) := by
    intro q w e hq
    have hentry : m'.entryAt q w = m.entryAt q w :=
      entryAt_congr (congrFun (hkept q hq).1 _) (congrFun (hkept q hq).2 _)
    unfold Maps
    rw [hentry]
  intro q w e hm
  by_cases hq : q = pid
  · subst hq
    by_cases hp : p = q
    · exact hnot w e (hp ▸ hm)
    · exact hnot v d ((hsame hp).1 hmaps)
  · obtain ⟨_, hs', -⟩ := hs'
    obtain ⟨rfl, -⟩ := hs'.unique q w e p v d i ((hsame hq).2 hm) hmaps
    exact hnot w e hm

/-- In every run in which nothing lent on is returned and no read-only mapping of RAM is
asked for, the kernel never faults while it zeroes a page, and a page that a process
acquires is zero. -/
theorem no_stale_memory {m₀ : Memory} (hloaded : Loaded m₀)
    (h : Prog.Steps step NoReadOnly m₀ calls m) (hcall : NoReadOnly call m) :
    (∀ p, (step call m).1 = .panic p → p ≠ .permissionFault ∧ p ≠ .translationFault) ∧
      ∀ m', Prog.after (step call) m = .ok m' → NoStale call m m' := by
  have hs : Settled (fun _ => False) m := by
    refine h.keeps (I := Settled fun _ => False) (fun call s s' hs hC hrun => ?_) hloaded.settled
    exact Prog.after_keeps (step_keeps fun i => False.elim) ⟨rfl, hs, hC.1⟩ hrun
  refine ⟨fun p hp => ?_, fun m' hrun => ?_⟩
  · have hpanic := step_keeps (fun i => False.elim) m ⟨rfl, hs, hcall.1⟩
    rcases hstep : step call m with ⟨o, s⟩
    rw [hstep] at hp hpanic
    obtain rfl : o = .panic p := hp
    rcases hpanic with rfl | rfl | rfl | ⟨-, hreads⟩
    · exact ⟨nofun, nofun⟩
    · exact ⟨nofun, nofun⟩
    · exact ⟨nofun, nofun⟩
    · exact absurd hreads hcall.2
  · have hs' : Settled m.Unmapped m' :=
      Prog.after_keeps (step_keeps fun _ => id) ⟨rfl, hs.renew, hcall.1⟩ hrun
    have hfresh : ∀ pid v d i, m'.Maps pid v d i → m.Unmapped i → m'.contents i = zerosAt d.phys := by
      obtain ⟨_, hsound, -⟩ := hs'
      exact hsound.zero
    refine ⟨hfresh, fun hacquires pid v d i hm hnot => hfresh pid v d i hm ?_⟩
    obtain ⟨p, hkept⟩ := acquires_others hacquires hrun
    exact unmapped_of_acquires hs'.forget hkept hm hnot

/-! ## 5. What the conditions rule out -/

/-- One page of RAM, mapped writable by one process. -/
def onePage (owner : PID) (slot : Nat) : Memory :=
  { ram :=
      { mm := { MemoryManager.uninitialized (fun i => if i = 0 then some owner else none) with
          freePagesDirty := fun i => decide (i < RAM_PAGES) &&
            (if i = 0 then some owner else none : Option PID).isNone
          numFreePages := (vacant RAM_PAGES fun i => if i = 0 then some owner else none).card }
        zeroer := .default
        lowMemoryEvents := 0 }
    tables := fun _ _ => true
    entries := fun p v =>
      if p = owner ∧ v = slot then
        .mapped ⟨ENCRYPTED_DRAM_BASE / PAGE_SIZE, true, true, false, false, true, nofun⟩
      else .empty
    allocationHint := fun _ => MMAP_AREA_VIRT
    contents := fun _ => .data }

theorem onePage_maps {owner : PID} {slot v i : Nat} {d : PageTableDescriptor}
    (h : (onePage owner slot).Maps pid v d i) : pid = owner ∧ v = slot ∧ i = 0 := by
  have hentry := h.1
  rw [entryAt] at hentry
  split at hentry
  · have hentry : (if pid = owner ∧ v = slot then L2TableEntry.mapped _ else .empty) = .mapped d :=
      hentry
    split at hentry
    · next heq =>
      cases hentry
      have hzero : RamPage (ENCRYPTED_DRAM_BASE / PAGE_SIZE * PAGE_SIZE) 0 := by
        refine ⟨?_, by decide⟩
        decide +kernel
      exact ⟨heq.1, heq.2, h.2.inj hzero⟩
    · cases hentry
  · cases hentry

theorem onePage_loaded (owner : PID) (slot : Nat) : Loaded (onePage owner slot) := by
  refine ⟨⟨fun i => if i = 0 then some owner else none, ?_⟩, fun pid v d i hm => ?_,
    fun pid v d pid' v' d' i hm hm' => ?_, fun _ => rfl⟩
  · rw [Ram.init, MemoryManager.initFromMemory, Ram.foldl_countPage]
    rfl
  · obtain ⟨rfl, -, rfl⟩ := onePage_maps hm
    rfl
  · obtain ⟨rfl, rfl, -⟩ := onePage_maps hm
    obtain ⟨rfl, rfl, -⟩ := onePage_maps hm'
    exact ⟨rfl, rfl⟩

/-- A process lends a page. -/
def lendOut : Call :=
  ⟨fun pid => some (Process.new pid .kernel),
    .lendMemory ⟨2, PID.two_ne⟩ 0x10000000 ⟨3, PID.three_ne⟩ 0x10000000 0x1000 true⟩

/-- The borrower lends the page to a third process. -/
def lendOn : Call :=
  ⟨fun pid => some (Process.new pid .kernel),
    .lendMemory ⟨3, PID.three_ne⟩ 0x10000000 ⟨4, PID.four_ne⟩ 0x10000000 0x1000 true⟩

/-- The borrower returns the page. -/
def giveBack : Call :=
  ⟨fun pid => some (Process.new pid .kernel),
    .returnMemory ⟨3, PID.three_ne⟩ 0x10000000 ⟨2, PID.two_ne⟩ 0x10000000 0x1000⟩

/-- The claim is false for the third process: the page that it borrows is mapped in the
first process as well. -/
theorem returned_early_shared :
    Loaded (onePage ⟨2, by decide⟩ 0x10000) ∧
      ∃ m, Prog.run step [lendOut, lendOn, giveBack] (onePage ⟨2, by decide⟩ 0x10000) = .ok m ∧
        ¬ Exclusive m := by
  refine ⟨onePage_loaded _ _, ?_⟩
  have hshared : (Prog.run step [lendOut, lendOn, giveBack] (onePage ⟨2, by decide⟩ 0x10000)).map
      (fun m => [m.entryAt ⟨2, by decide⟩ 0x10000, m.entryAt ⟨4, by decide⟩ 0x10000]) =
      .ok (List.replicate 2 (.mapped
        ⟨ENCRYPTED_DRAM_BASE / PAGE_SIZE, true, true, false, false, true, nofun⟩)) := by
    decide +kernel
  cases hrun : Prog.run step [lendOut, lendOn, giveBack] (onePage ⟨2, by decide⟩ 0x10000) with
  | error p =>
    rw [hrun] at hshared
    cases hshared
  | ok m =>
    rw [hrun] at hshared
    obtain ⟨h₁, h₂⟩ := List.cons_eq_cons.1 (Except.ok.inj hshared)
    refine ⟨m, rfl, fun hex => ?_⟩
    have hram : RamPage (ENCRYPTED_DRAM_BASE / PAGE_SIZE * PAGE_SIZE) 0 := ⟨by decide +kernel, by decide⟩
    exact absurd (hex.once _ _ _ _ _ _ 0 ⟨h₁, hram⟩ ⟨(List.cons_eq_cons.1 h₂).1, hram⟩).1
      (by decide)

/-- A loan that comes back in order. -/
theorem pages_exclusive_returned :
    ∃ m, Prog.Steps step ReturnsOwn (onePage ⟨2, by decide⟩ 0x10000) [lendOut, giveBack] m ∧
      Exclusive m := by
  have hlent : (Prog.after (step lendOut)
      (onePage ⟨2, by decide⟩ 0x10000)).map
      (fun m => (m.entryAt ⟨3, by decide⟩ 0x10000).isShared) = .ok false := by
    decide +kernel
  have hends : (Prog.run step [lendOut, giveBack] (onePage ⟨2, by decide⟩ 0x10000)).isOk
      = true := by
    decide +kernel
  cases h₁ : Prog.after (step lendOut)
      (onePage ⟨2, by decide⟩ 0x10000) with
  | error p =>
    rw [h₁] at hlent
    cases hlent
  | ok m₁ =>
    rw [h₁] at hlent
    have hlent : (m₁.entryAt ⟨3, by decide⟩ 0x10000).isShared = false := Except.ok.inj hlent
    rw [show [lendOut, giveBack] = [_, giveBack] from rfl,
      Prog.run_cons_ok _ h₁] at hends
    cases h₂ : Prog.after (step giveBack) m₁ with
    | error p =>
      unfold Prog.run at hends
      rw [h₂] at hends
      cases hends
    | ok m₂ =>
      have hreturn : ReturnsOwn giveBack m₁ := by
        intro _ k hk hon
        obtain rfl : k = 0 := Nat.lt_one_iff.1 hk
        exact absurd (hlent.symm.trans hon.1) Bool.false_ne_true
      have hsteps : Prog.Steps step ReturnsOwn (onePage ⟨2, by decide⟩ 0x10000)
        [lendOut, giveBack] m₂ := .cons trivial h₁ (.cons hreturn h₂ (.nil _))
      exact ⟨m₂, hsteps, pages_exclusive (onePage_loaded _ _) hsteps⟩

theorem claim_free {r : Ram} (offset : Nat) (pid : PID) (hlt : offset < RAM_PAGES)
    (howner : r.mm.allocations offset = none) (hzeroed : r.mm.freePagesZeroed offset = false)
    (hdirty : r.mm.freePagesDirty offset = true) (hnum : 1 ≤ r.mm.numFreePages) :
    ∃ r', Ram.claim offset pid r = (.ok (), r') := by
  have htake : Ram.takeFree offset r = Ram.setDirty offset false r := by
    unfold Ram.takeFree
    rw [Prog.bind_ok _ (Prog.get_run r), hzeroed, if_neg Bool.false_ne_true, hdirty, if_pos rfl]
  obtain ⟨low, events, hsub⟩ := Ram.subtractFreePages_run
    (r := { r with mm := { r.mm with
      freePagesDirty := Function.update r.mm.freePagesDirty offset false } }) hnum
  unfold Ram.claim
  rw [Prog.bind_ok _ (Prog.get_run r), howner, if_neg (by exact nofun), Prog.bind_run,
    Prog.onlyIf_true_run hlt, Prog.bind_ok _ (htake.trans (Ram.setDirty_run offset false r)), hsub]
  exact ⟨_, rfl⟩

theorem vacant_pos {n i : Nat} {f : Nat → Option PID} (h : i ∈ vacant n f) :
    1 ≤ (vacant n f).card :=
  Finset.card_pos.2 ⟨i, h⟩

theorem onePage_free (owner : PID) (slot : Nat) :
    1 ≤ (onePage owner slot).ram.mm.numFreePages := by
  have hmem : 1 ∈ vacant RAM_PAGES fun i => if i = 0 then some owner else none :=
    mem_vacant.2 ⟨by decide, rfl⟩
  simp only [onePage]
  exact vacant_pos hmem

/-- A process asks for one page of RAM by its address, to execute code from it. -/
def executeRam : Call :=
  ⟨fun pid => some (Process.new pid .kernel),
    .mapMemory ⟨3, PID.three_ne⟩ 0 0x40001000 0x20000000 0x1000 { MemoryFlags.empty with x := true }⟩

/-- A process asks for one page of memory to write to. -/
def mapOnDemand : Call :=
  ⟨fun pid => some (Process.new pid .kernel),
    .mapMemory ⟨3, PID.three_ne⟩ 0 0 0x20000000 0x1000 { MemoryFlags.empty with w := true }⟩

theorem executeRam_acquires {r : Ram}
    (hclaim : Ram.claim 1 ⟨3, by decide⟩ m.ram = (.ok (), r)) :
    acquireRange executeRam.processes ⟨3, by decide⟩ 0x40001000 0x1000
      { MemoryFlags.empty with x := true } m = (.ok (0x40001000, true), { m with ram := r }) := by
  have hpage : onRam (Ram.claimPage executeRam.processes (0x40001000 + 0 * PAGE_SIZE)
      ⟨3, by decide⟩) m = (.ok (), { m with ram := r }) := by
    refine onRam_ok ?_
    unfold Ram.claimPage Ram.claimReleaseMove
    rw [if_neg (by decide), Prog.bind_ok _ (Prog.ofExcept_run (a := false) (by decide +kernel) _),
      if_neg Bool.false_ne_true, Prog.bind_ok _ (show Prog.okOr _ _ _ = (.ok 1, m.ram) by rfl),
      Prog.bind_ok _ (Prog.require_run _ (by decide +kernel) _)]
    exact hclaim
  have hrange : claimRange executeRam.processes ⟨3, by decide⟩ 0x40001000 0x1000 m =
      (.ok (), { m with ram := r }) := by
    unfold claimRange
    rw [if_neg (by decide), show pageCount 0x1000 = 1 by decide]
    have hattempt : (onRam (Ram.claimPage executeRam.processes (0x40001000 + 0 * PAGE_SIZE)
        ⟨3, by decide⟩)).attempt m = (.ok (.ok ()), { m with ram := r }) := by
      rw [Prog.attempt, hpage]
    change (Prog.attempt _ >>= _) m = _
    rw [Prog.bind_ok _ hattempt]
    rfl
  unfold acquireRange
  rw [if_neg (by decide), Prog.bind_ok _ ((Prog.onlyIf_true_run (by decide) _ m).trans hrange)]
  rfl

/-- The claim is false for it: the kernel faults while it zeroes the page. -/
theorem executeRam_faults :
    Loaded (onePage ⟨2, by decide⟩ 0x10000) ∧
      (step executeRam (onePage ⟨2, by decide⟩ 0x10000)).1 = .panic .permissionFault := by
  refine ⟨onePage_loaded _ _, ?_⟩
  obtain ⟨r, hclaim⟩ := claim_free (r := (onePage ⟨2, by decide⟩ 0x10000).ram) 1
    ⟨3, by decide⟩ (by decide) rfl rfl rfl (onePage_free _ _)
  have hacquire := executeRam_acquires hclaim
  have hmap : (mapRange executeRam.processes ⟨3, by decide⟩ 0x40001000 0x20000000 0x1000
      { MemoryFlags.empty with x := true } true (onePage ⟨2, by decide⟩ 0x10000)).1 =
      .panic .permissionFault := by
    unfold mapRange
    rw [Prog.bind_ok _ (show findVirtualAddress _ _ _ _ = (.ok 0x20000000, _) by rfl),
      Prog.bind_ok _ hacquire]
    rfl
  rcases hrun : mapRange executeRam.processes ⟨3, by decide⟩ 0x40001000 0x20000000 0x1000
    { MemoryFlags.empty with x := true } true (onePage ⟨2, by decide⟩ 0x10000) with ⟨o, m⟩
  rw [hrun] at hmap
  obtain rfl : o = .panic .permissionFault := hmap
  have hcall : mapMemory executeRam.processes ⟨3, by decide⟩ 0 0x40001000 0x20000000 0x1000
      { MemoryFlags.empty with x := true } (onePage ⟨2, by decide⟩ 0x10000) =
      (.panic .permissionFault, m) := by
    unfold mapMemory
    rw [if_neg (by decide), if_neg (by decide), if_neg (by decide), if_neg (by decide)]
    exact Prog.bind_panic _ hrun
  change ((mapMemory executeRam.processes ⟨3, by decide⟩ 0 0x40001000 0x20000000 0x1000
    { MemoryFlags.empty with x := true } >>= fun _ => pure ()) _).1 = _
  rw [Prog.bind_panic _ hcall]

/-- A process maps memory, which it gets on demand. -/
theorem no_stale_memory_mapped :
    ∃ m, Prog.after (step mapOnDemand) (onePage ⟨2, by decide⟩ 0x10000) = .ok m ∧
      NoStale mapOnDemand (onePage ⟨2, by decide⟩ 0x10000) m := by
  have hends : (Prog.after (step mapOnDemand) (onePage ⟨2, by decide⟩ 0x10000)).isOk = true := by
    decide +kernel
  have hcall : NoReadOnly mapOnDemand (onePage ⟨2, by decide⟩ 0x10000) :=
    ⟨trivial, fun hreads => absurd hreads.1 (by decide +kernel)⟩
  cases hrun : Prog.after (step mapOnDemand) (onePage ⟨2, by decide⟩ 0x10000) with
  | error p =>
    rw [hrun] at hends
    cases hends
  | ok m => exact ⟨m, rfl, (no_stale_memory (onePage_loaded _ _) (.nil _) hcall).2 m hrun⟩

end Memory

end Kernel
