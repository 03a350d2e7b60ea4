import KeyOS.Kernel.PageTable

/-!
# Mapping and transferring memory

The functions of the memory manager and of the system services that map ranges of
pages and move, lend and return them between processes. `processes` is the process
table, which they only read, and `pid` is the current process.
-/

namespace Kernel

open Exec

def MemoryRange.new (addr size : Nat) : Except Error MemoryRange :=
  match NonZeroUsize.new addr, NonZeroUsize.new size with
  | some addr, some size => .ok ⟨addr, size⟩
  | _, _ => .error .badAddress

namespace Memory

/-- `ptr.wrapping_add(offset)` -/
def wrappingAdd (ptr offset : Nat) : Nat := (ptr + offset) % 2 ^ 32

/-- How many rounds `(0..size).step_by(PAGE_SIZE)` has. -/
def pageCount (size : Nat) : Nat := (size + PAGE_SIZE - 1) / PAGE_SIZE

variable (processes : PID → Option Process)

/-! ## 1. Mapping -/

/-- Release `size` bytes of pages from `phys`; a `phys` of 0 is a no-op. -/
def releaseRange (phys size : Nat) (pid : PID) : Prog Memory Panic Error Unit :=
  Prog.onlyIf (phys ≠ 0) (Prog.forEach (List.range (pageCount size)) fun k =>
    (onRam (Ram.releasePage processes (phys + k * PAGE_SIZE) pid)).ignore)

/-- Map `size` bytes of physical pages to `virt`, tearing the partial mapping back down
on failure. -/
def mapAllocatedRange (pid : PID) (phys virt size : Nat) (flags : MemoryFlags) (mapUser : Bool) :
    Prog Memory Panic Error Unit :=
  Prog.forOrUndo
    (fun k => MemoryMapping.mapPage pid (if phys = 0 then 0 else phys + k * PAGE_SIZE)
      (wrappingAdd virt (k * PAGE_SIZE)) flags mapUser)
    (fun k => do
      Prog.forEach (List.range k) fun j =>
        (MemoryMapping.unmapPage pid (wrappingAdd virt (j * PAGE_SIZE))).ignore
      releaseRange processes phys size pid)
    (pageCount size) 0

/-- Claim every page of a physical range, or none. -/
def claimRange (pid : PID) (phys size : Nat) : Prog Memory Panic Error Unit :=
  if 2 ^ 32 ≤ phys + size then Prog.throw .badAddress
  else
    Prog.forOrUndo (fun k => onRam (Ram.claimPage processes (phys + k * PAGE_SIZE) pid))
      (fun k => Prog.forEach (List.range k) fun j =>
        (onRam (Ram.releasePage processes (phys + j * PAGE_SIZE) pid)).ignore)
      (pageCount size) 0

/-- `mem.as_slice_mut().fill(0)` through the mapping of the current process. -/
def zeroRange (pid : PID) (virt size : Nat) : Prog Memory Panic Error Unit :=
  Prog.forEach (List.range (pageCount size)) fun k =>
    zeroThroughSlot pid (wrappingAdd virt (k * PAGE_SIZE) / PAGE_SIZE)

/-- The first half of `mapRange`: the physical address to map, which is 0 for on-demand
pages, and whether the pages have to be zeroed after they are mapped. -/
def acquireRange (pid : PID) (phys size : Nat) (flags : MemoryFlags) :
    Prog Memory Panic Error (Nat × Bool) :=
  if flags.populate then
    if flags.w = false then Prog.throw .invalidArguments
    else if phys ≠ 0 then Prog.throw .invalidArguments
    else onRam (Ram.allocRange (size / PAGE_SIZE) pid flags)
  else do
    Prog.onlyIf (phys ≠ 0) (claimRange processes pid phys size)
    pure (phys, isAddressInPlaintextDram phys || isAddressEncrypted phys)

def mapRange (pid : PID) (phys virt size : Nat) (flags : MemoryFlags) (mapUser : Bool) :
    Prog Memory Panic Error MemoryRange := do
  let virt ← findVirtualAddress pid virt size
  let (phys, zeroAfterAlloc) ← acquireRange processes pid phys size flags
  -- At this stage, every physical page is owned by the process
  mapAllocatedRange processes pid phys virt size flags mapUser
  let mem ← Prog.ofExcept (MemoryRange.new virt size)
  Prog.onlyIf (zeroAfterAlloc = true) (zeroRange pid virt size)
  pure mem

/-- The largest request that the zeroing channel takes: 32 MiB. -/
def MAX_MAP_ZERO_BYTES : Nat := 0x800000 * 4

/-- How a request to map populated memory ends. -/
inductive Deferred where
  | mapped (range : MemoryRange)
  /-- The channel works on the pages, and the completion interrupt maps them. -/
  | parked
  /-- The channel is busy, and the thread tries again when it is free. -/
  | retry
deriving DecidableEq

def mapWithDeferredZeroing (pid : PID) (tid : TID) (virt size : Nat) (flags : MemoryFlags) :
    Prog Memory Panic Error Deferred :=
  if (flags.w && flags.populate) = false then Prog.throw .invalidArguments
  else if MAX_MAP_ZERO_BYTES < size then Prog.throw .outOfMemory
  else do
    let m ← Prog.get
    if m.ram.mm.pendingMapZero.isSome then
      pure .retry
    else do
      let (phys, needsZero) ← onRam (Ram.allocRange (size / PAGE_SIZE) pid flags)
      if needsZero = false then
        -- The allocator handed back already-zeroed pages; map them right away
        match ← (findVirtualAddress pid virt size).attempt with
        | .error e => do
          releaseRange processes phys size pid
          Prog.throw e
        | .ok virt => do
          mapAllocatedRange processes pid phys virt size flags true
          let mem ← Prog.ofExcept (MemoryRange.new virt size)
          pure (.mapped mem)
      else do
        onRam (Ram.modifyMm fun mm =>
          { mm with pendingMapZero := some ⟨phys, virt, size, flags, pid, tid⟩ })
        pure .parked

/-- Finish a deferred request: map the zeroed pages into the owner's address space. The
result goes to the thread that waits for it. -/
def mapZeroFinished : Prog Memory Panic Error (Option (PendingMapZero × Except Error MemoryRange)) :=
    do
  let m ← Prog.get
  match m.ram.mm.pendingMapZero with
  | none => pure none
  | some job => do
    onRam (Ram.modifyMm fun mm => { mm with pendingMapZero := none })
    match ← (findVirtualAddress job.pid job.virt job.size).attempt with
    | .ok virt => do
      let result ← (do
        mapAllocatedRange processes job.pid job.phys virt job.size job.flags true
        Prog.ofExcept (MemoryRange.new virt job.size) : Prog Memory Panic Error _).attempt
      pure (some (job, result))
    | .error e => do
      releaseRange processes job.phys job.size job.pid
      pure (some (job, .error e))

def cancelMapZero : Prog Memory Panic Error Unit :=
  onRam (Ram.modifyMm fun mm => { mm with pendingMapZero := none })

/-- The memory call of a process, after the checks of the system call layer. -/
def mapMemory (pid : PID) (tid : TID) (phys virt size : Nat) (flags : MemoryFlags) :
    Prog Memory Panic Error Deferred :=
  if pid ≠ PID.kernel ∧ virt ≠ 0 ∧ USER_AREA_END < virt + size then Prog.throw .badAddress
  else if size % PAGE_SIZE ≠ 0 then Prog.throw .badAlignment
  -- Don't allow RWX pages
  else if flags.w && flags.x then Prog.throw .invalidArguments
  else if flags.populate = true ∧ phys = 0 ∧ tid ≠ IRQ_TID then
    mapWithDeferredZeroing processes pid tid virt size flags
  else do
    let range ← mapRange processes pid phys virt size flags true
    pure (.mapped range)

/-! ## 2. Unmapping -/

/-- One round of `unmapRange`: `error` is the first error so far. -/
def unmapOne (pid : PID) (addr : Nat) (error : Option Error) :
    Prog Memory Panic Error (Option Error) := do
  match ← (MemoryMapping.virtToPhys pid addr).attempt with
  | .error _ => pure ()
  | .ok phys => (onRam (Ram.releasePage processes phys pid)).ignore
  match ← (MemoryMapping.unmapPage pid addr).attempt with
  | .ok () => pure error
  | .error e => pure (error.or (some e))

def unmapPages (pid : PID) : List Nat → Option Error → Prog Memory Panic Error (Option Error)
  | [], error => pure error
  | addr :: rest, error => do
    let error ← unmapOne processes pid addr error
    unmapPages pid rest error

/-- Unmap every page of the range, also after an error. -/
def unmapRange (pid : PID) (virt len : Nat) : Prog Memory Panic Error Unit :=
  if virt % PAGE_SIZE ≠ 0 ∨ len % PAGE_SIZE ≠ 0 then Prog.throw .badAlignment
  else do
    let pages := if virt + len < 2 ^ 32 then pageCount len else 0
    let error ← unmapPages processes pid
      ((List.range pages).map fun k => virt + k * PAGE_SIZE) none
    match error with
    | none => pure ()
    | some e => Prog.throw e

def checkRangeAccessible (pid : PID) (addr len : Nat) : Prog Memory Panic Error Unit := do
  let start := addr / PAGE_SIZE * PAGE_SIZE
  if 2 ^ 32 ≤ pageCount (addr + len) * PAGE_SIZE then
    Prog.throw .badAddress
  else
    Prog.forEach (List.range (pageCount (pageCount (addr + len) * PAGE_SIZE - start))) fun k => do
      let page := start + k * PAGE_SIZE
      let accessible ← MemoryMapping.addressUserAccessible pid page
      if USER_AREA_END < page ∨ accessible = false then Prog.throw .badAddress else pure ()

def unmapMemory (pid : PID) (range : MemoryRange) : Prog Memory Panic Error Unit := do
  checkRangeAccessible pid range.addr.get range.size.get
  unmapRange processes pid range.addr.get range.size.get
  releaseAllocationHint pid range.addr.get

/-! ## 3. Transfers of single pages -/

/-- Ownership follows the page. -/
def moveOwner (phys : Nat) (destPid pid : PID) : Prog Memory Panic Error Unit :=
  Prog.onlyIf (phys ≠ 0) (onRam (Ram.claimReleaseMove processes phys destPid (.move pid)))

def movePage (pid : PID) (srcAddr : Nat) (destPid : PID) (destAddr : Nat) :
    Prog Memory Panic Error Unit := do
  let phys ← MemoryMapping.movePage pid srcAddr destPid destAddr
  moveOwner processes phys destPid pid

def lendPage (pid : PID) (srcAddr : Nat) (destPid : PID) (destAddr : Nat) (mutable : Bool) :
    Prog Memory Panic Error Unit := do
  let phys ← MemoryMapping.lendPage pid srcAddr destPid destAddr mutable
  moveOwner processes phys destPid pid

def unlendPage (pid : PID) (srcAddr : Nat) (destPid : PID) (destAddr : Nat) :
    Prog Memory Panic Error Unit := do
  let phys ← MemoryMapping.returnPage pid srcAddr destPid destAddr
  moveOwner processes phys destPid pid

/-! ## 4. Transfers of ranges -/

/-- `self.process_mut(pid)?` -/
def requireProcess (pid : PID) : Prog Memory Panic Error Unit :=
  if (processes pid).isSome then pure () else Prog.throw .processNotFound

def sendMemory (pid : PID) (srcVirt : Nat) (destPid : PID) (destVirt len : Nat) :
    Prog Memory Panic Error Nat :=
  if len = 0 ∨ len % PAGE_SIZE ≠ 0 ∨ srcVirt % PAGE_SIZE ≠ 0 ∨ destVirt % PAGE_SIZE ≠ 0 ∨
      USER_AREA_END < srcVirt + len ∨ USER_AREA_END < destVirt + len then
    Prog.throw .badAddress
  else if pid = destPid then pure srcVirt
  else do
    requireProcess processes pid
    requireProcess processes destPid
    let destVirt ← findVirtualAddress destPid destVirt len
    Prog.forOrUndo
      (fun k => movePage processes pid (wrappingAdd srcVirt (k * PAGE_SIZE)) destPid
        (wrappingAdd destVirt (k * PAGE_SIZE)))
      -- Move the earlier pages back so the range stays wholly in the sender
      (fun k => Prog.forEach (List.range k) fun j =>
        (movePage processes destPid (wrappingAdd destVirt (j * PAGE_SIZE)) pid
          (wrappingAdd srcVirt (j * PAGE_SIZE))).unwrap .revertFailed)
      (len / PAGE_SIZE) 0
    releaseAllocationHint pid srcVirt
    pure destVirt

def lendMemory (pid : PID) (srcVirt : Nat) (destPid : PID) (destVirt len : Nat)
    (mutable : Bool) : Prog Memory Panic Error Nat :=
  if len = 0 then Prog.throw .badAddress
  else if len % PAGE_SIZE ≠ 0 ∨ srcVirt % PAGE_SIZE ≠ 0 ∨ destVirt % PAGE_SIZE ≠ 0 then
    Prog.throw .badAlignment
  else if pid = destPid then do
    Prog.forEach (List.range (len / PAGE_SIZE)) fun k =>
      MemoryMapping.ensureBacked pid (wrappingAdd srcVirt (k * PAGE_SIZE))
    pure srcVirt
  else do
    requireProcess processes pid
    requireProcess processes destPid
    let destVirt ← findVirtualAddress destPid destVirt len
    Prog.forOrUndo
      (fun k => lendPage processes pid (wrappingAdd srcVirt (k * PAGE_SIZE)) destPid
        (wrappingAdd destVirt (k * PAGE_SIZE)) mutable)
      -- Unlend the earlier pages so the range stays wholly in the sender
      (fun k => Prog.forEach (List.range k) fun j =>
        (unlendPage processes destPid (wrappingAdd destVirt (j * PAGE_SIZE)) pid
          (wrappingAdd srcVirt (j * PAGE_SIZE))).unwrap .revertFailed)
      (len / PAGE_SIZE) 0
    pure destVirt

/-- The loop of `returnMemory`: it goes on after an error and keeps the last one. -/
def returnPages (pid : PID) (srcVirt : Nat) (destPid : PID) (destVirt : Nat) :
    List Nat → Option Error → Prog Memory Panic Error (Option Error)
  | [], error => pure error
  | k :: rest, error => do
    match ← (unlendPage processes pid (wrappingAdd srcVirt (k * PAGE_SIZE)) destPid
        (wrappingAdd destVirt (k * PAGE_SIZE))).attempt with
    | .ok () => returnPages pid srcVirt destPid destVirt rest error
    | .error e => returnPages pid srcVirt destPid destVirt rest (some e)

def returnMemory (pid : PID) (srcVirt : Nat) (destPid : PID) (destVirt len : Nat) :
    Prog Memory Panic Error Nat :=
  if len = 0 ∨ len % PAGE_SIZE ≠ 0 ∨ srcVirt % PAGE_SIZE ≠ 0 ∨ destVirt % PAGE_SIZE ≠ 0 then
    Prog.throw .badAddress
  else if pid = destPid then pure srcVirt
  else do
    requireProcess processes pid
    requireProcess processes destPid
    let error ← returnPages processes pid srcVirt destPid destVirt
      (List.range (len / PAGE_SIZE)) none
    match error with
    | none => pure destVirt
    | some e => Prog.throw e

/-- Drop the reservation of a lent range. -/
def clearSharedRange (pid : PID) (addr len : Nat) (mode : MemoryMapping.ClearShared) :
    Prog Memory Panic Error Unit :=
  Prog.forEach (List.range (pageCount len)) fun k =>
    (MemoryMapping.clearShared pid (wrappingAdd addr (k * PAGE_SIZE)) mode).unwrap
      .clearSharedFailed

/-! ## 5. Address spaces -/

theorem l1Align_pos : 0 < 4 := by decide

/-- The memory part of a new process: its L1 table, and its allocation hint. -/
def allocateSpace (pid : PID) : Prog Memory Panic Error Unit := do
  let (l1Phys, _) ← onRam (Ram.allocRangeAligned ⟨4, l1Align_pos⟩ L1_USER_PAGE_TABLE_PAGES pid)
  Prog.forEach (List.range L1_USER_PAGE_TABLE_PAGES) fun k =>
    setContents (l1Phys + k * PAGE_SIZE) .data
  Prog.modify fun m =>
    { m with
      tables := Function.update m.tables pid fun _ => false
      entries := Function.update m.entries pid fun _ => .empty
      allocationHint := Function.update m.allocationHint pid MMAP_AREA_VIRT }

/-- The memory part of the end of a process. Its tables go with its pages. -/
def destroySpace (pid : PID) : Prog Memory Panic Error Unit := do
  let m ← Prog.get
  Prog.onlyIf (m.ram.mm.pendingMapZero.map PendingMapZero.pid = some pid) cancelMapZero
  onRam (Ram.releaseAllMemoryForProcess pid)
  Prog.modify fun m =>
    { m with
      tables := Function.update m.tables pid fun _ => false
      entries := Function.update m.entries pid fun _ => .empty }

end Memory

end Kernel
