import KeyOS.Kernel.Process
import KeyOS.Lib.Bitmap

/-!
# The allocator of physical pages

The owner of every page is in `allocations`. A page of RAM without an owner is in
the bitmap of dirty pages, in the bitmap of zeroed pages, or in the one range that
the zeroer works on. The two bitmaps are functions of the page index, and so is the
ownership array; every index that does not come from a search of the same slice is
checked where it is used.

The zeroer is the part of the page-zeroing driver that the allocator starts: its
statics and the transfer that its DMA channel works on.
-/

namespace Kernel

open Exec

/-! ## 1. The physical memory map -/

def PAGE_SIZE : Nat := 4096

def RAM_SIZE : Nat := 128 * 1024 * 1024

def RAM_PAGES : Nat := RAM_SIZE / PAGE_SIZE

def PLAINTEXT_DRAM_BASE : Nat := 0x20000000

def PLAINTEXT_DRAM_END : Nat := PLAINTEXT_DRAM_BASE + RAM_SIZE

def ENCRYPTED_DRAM_BASE : Nat := 0x40000000

def ENCRYPTED_DRAM_END : Nat := ENCRYPTED_DRAM_BASE + RAM_SIZE

/-- Converts an address behind the AES bridge into the plain address of the same RAM. -/
def toPlaintextPhysAddr (addr : Nat) : Nat :=
  PLAINTEXT_DRAM_BASE ||| (addr &&& (ENCRYPTED_DRAM_BASE - 1))

def isAddressEncrypted (addr : Nat) : Bool :=
  (Range.mk ENCRYPTED_DRAM_BASE ENCRYPTED_DRAM_END).contains addr

def isAddressInPlaintextDram (addr : Nat) : Bool :=
  (Range.mk PLAINTEXT_DRAM_BASE PLAINTEXT_DRAM_END).contains addr

/-- The memory regions of the chip other than RAM. -/
def additionalRegions : List Range :=
  [ ⟨0xa0000000, 0xa0001000⟩, -- SDMMC0
    ⟨0xf0000000, 0xf0030000⟩, -- CSR1
    ⟨0xf8000000, 0xf8060000⟩, -- CSR2
    ⟨0xfc000000, 0xfc070000⟩, -- CSR3
    ⟨0x00a00000, 0x00a04000⟩, -- L2CC
    ⟨0xf8044000, 0xf8045000⟩, -- SECURAM
    ⟨0xf8045000, 0xf8046000⟩, -- BUREG
    ⟨0x00200000, 0x00220000⟩, -- SRAM0
    ⟨0x00300000, 0x00400000⟩, -- UDPHS_RAM
    ⟨0x00400000, 0x00401000⟩, -- UHPHS_OHCI
    ⟨0x00500000, 0x00501000⟩ ] -- UHPHS_EHCI

/-- The peripherals that the kernel shares with user processes. -/
def SHARED_PERIPHERALS : List Nat :=
  [ 0xf8020000, -- UART1
    0xf804c000, -- SFC
    0xfc01c000, -- TRNG
    0xfc038000, -- PIO
    0xf8048000, -- RSTC
    0xf0014000, -- PMC
    0xf8044000 ] -- SECURAM

structure MemoryFlags where
  populate : Bool
  w : Bool
  x : Bool
  dev : Bool
  noCache : Bool
  plaintext : Bool
deriving DecidableEq, Repr

/-- The scan of the permissions, which end at the first empty slot. -/
def permissionsContain (addr : Nat) : List Range → Bool
  | [] => false
  | region :: rest =>
    region.contains addr || (region.stop != 0 && permissionsContain addr rest)

def Process.checkMemoryPermission (p : Process) (addr : Nat) : Except Error Unit :=
  if p.pid = PID.kernel ∨ isAddressInPlaintextDram addr ∨ isAddressEncrypted addr then .ok ()
  else if permissionsContain addr p.memoryPermissions then .ok ()
  else .error .accessDenied

/-! ## 2. State -/

/-- A `map_memory` job whose DMA is in flight. -/
structure PendingMapZero where
  phys : Nat
  virt : Nat
  size : Nat
  flags : MemoryFlags
  pid : PID
  tid : TID
deriving DecidableEq

structure MemoryManager where
  allocations : Nat → Option PID
  /-- Pages that have been freed but not yet zeroed -/
  freePagesDirty : Nat → Bool
  nextDirtyPageHint : Option Nat
  /-- Pages that are free and zeroed -/
  freePagesZeroed : Nat → Bool
  nextZeroedPageHint : Nat
  numFreePages : Nat
  lowMemory : Bool
  pendingMapZero : Option PendingMapZero

/-- The background channel of the page zeroer. -/
structure PageZeroer where
  running : Bool
  initialized : Bool
  currentPage : Nat
  currentPageNum : Nat
  /-- The transfer that the DMA channel works on: an address and a count of words. -/
  transfer : Option (Nat × Nat)
deriving DecidableEq

def PageZeroer.default : PageZeroer := ⟨false, false, 0, 0, none⟩

structure Ram where
  mm : MemoryManager
  zeroer : PageZeroer
  /-- How many times the low memory event was broadcast -/
  lowMemoryEvents : Nat

namespace Ram

/-- The length of `allocations`: RAM first, then the additional regions in their order. -/
def memPages : Nat :=
  RAM_PAGES + (additionalRegions.map fun range => (range.stop - range.start) / PAGE_SIZE).sum

def modifyMm (f : MemoryManager → MemoryManager) : Prog Ram Panic Error Unit :=
  Prog.modify fun r => { r with mm := f r.mm }

def setDirty (i : Nat) (v : Bool) : Prog Ram Panic Error Unit :=
  modifyMm fun mm => { mm with freePagesDirty := Function.update mm.freePagesDirty i v }

def setZeroed (i : Nat) (v : Bool) : Prog Ram Panic Error Unit :=
  modifyMm fun mm => { mm with freePagesZeroed := Function.update mm.freePagesZeroed i v }

def setOwner (i : Nat) (owner : Option PID) : Prog Ram Panic Error Unit :=
  modifyMm fun mm => { mm with allocations := Function.update mm.allocations i owner }

end Ram

/-! ## 3. Addresses and indices -/

/-- The scan of the additional regions in `addressToAllocationOffset`. -/
def offsetInRegions (addr : Nat) : List Range → Nat → Option Nat
  | [], _ => none
  | range :: rest, offset =>
    if range.contains addr then some (offset + (addr - range.start) / PAGE_SIZE)
    else offsetInRegions addr rest (offset + (range.stop - range.start) / PAGE_SIZE)

def addressToAllocationOffset (addr : Nat) : Option Nat :=
  if isAddressEncrypted addr then some ((addr - ENCRYPTED_DRAM_BASE) / PAGE_SIZE)
  else if isAddressInPlaintextDram addr then some ((addr - PLAINTEXT_DRAM_BASE) / PAGE_SIZE)
  else offsetInRegions addr additionalRegions RAM_PAGES

/-! ## 4. Counting free pages -/

namespace Ram

def LOW_MEMORY_THRESHOLD : Nat := 24 * 1024 * 1024

def LOW_MEMORY_HYSTERESIS : Nat := 1024 * 1024

def addFreePages (pages : Nat) : Prog Ram Panic Error Unit := do
  let r ← Prog.get
  Prog.require .freePagesOverflow
    (decide (min (r.mm.numFreePages + pages) (2 ^ 32 - 1) ≤ RAM_PAGES))
  modifyMm fun mm => { mm with numFreePages := mm.numFreePages + pages }
  let r ← Prog.get
  Prog.onlyIf (r.mm.lowMemory = true ∧
      (LOW_MEMORY_THRESHOLD + LOW_MEMORY_HYSTERESIS) / PAGE_SIZE ≤ r.mm.numFreePages)
    (modifyMm fun mm => { mm with lowMemory := false })

def subtractFreePages (pages : Nat) : Prog Ram Panic Error Unit := do
  let r ← Prog.get
  Prog.require .freePagesUnderflow (decide (pages ≤ r.mm.numFreePages))
  modifyMm fun mm => { mm with numFreePages := mm.numFreePages - pages }
  let r ← Prog.get
  Prog.onlyIf (r.mm.lowMemory = false ∧ r.mm.numFreePages < LOW_MEMORY_THRESHOLD / PAGE_SIZE)
    (Prog.modify fun r =>
      { r with mm := { r.mm with lowMemory := true }, lowMemoryEvents := r.lowMemoryEvents + 1 })

/-! ## 5. Allocation -/

/-- Area at the end of the RAM mostly reserved for large allocations. -/
def BIG_ALLOC_RESERVED_BYTES : Nat := 40 * 1024 * 1024

def FRAGMENTED_AREA_PAGES : Nat := RAM_PAGES - BIG_ALLOC_RESERVED_BYTES / PAGE_SIZE

/-- The first half of `allocSinglePage`: choose a page and clear its bit. -/
def takeSinglePage : Prog Ram Panic Error (Nat × Bool) := do
  let r ← Prog.get
  let hint := r.mm.nextZeroedPageHint
  -- `[hint..FRAGMENTED_AREA_PAGES]`; `[..hint]` is in range when this slice is
  Prog.require .outOfRange (decide (hint ≤ FRAGMENTED_AREA_PAGES))
  match Bitmap.firstOne r.mm.freePagesZeroed hint FRAGMENTED_AREA_PAGES with
  | some idx => do
    setZeroed (idx + hint) false
    pure (idx + hint, true)
  | none =>
    match Bitmap.firstOne r.mm.freePagesZeroed 0 hint with
    | some idx => do
      setZeroed idx false
      pure (idx, true)
    | none =>
      match Bitmap.firstOne r.mm.freePagesDirty 0 FRAGMENTED_AREA_PAGES with
      | some idx => do
        -- Unhappy case, the zeroer cannot keep up; give out a dirty page
        setDirty idx false
        pure (idx, false)
      | none =>
        match Bitmap.firstOne r.mm.freePagesZeroed FRAGMENTED_AREA_PAGES RAM_PAGES with
        | some idx => do
          -- Unhappy case #2, we start going into the big alloc area
          setZeroed (FRAGMENTED_AREA_PAGES + idx) false
          pure (idx + FRAGMENTED_AREA_PAGES, true)
        | none =>
          match Bitmap.firstOne r.mm.freePagesDirty FRAGMENTED_AREA_PAGES RAM_PAGES with
          | some idx => do
            -- Unhappy case #3, the zeroer is truly swamped, and memory is nearing full
            setDirty (FRAGMENTED_AREA_PAGES + idx) false
            pure (idx + FRAGMENTED_AREA_PAGES, false)
          | none => Prog.throw .outOfMemory

/-- Where the search for a zeroed page starts after page `idx` was allocated. -/
def hintAfter (idx : Nat) : Nat :=
  if FRAGMENTED_AREA_PAGES < idx + 1 then 0 else idx + 1

/-- The address of the page, and whether it is already zeroed. -/
def allocSinglePage (pid : PID) : Prog Ram Panic Error (Nat × Bool) := do
  let (idx, zeroed) ← takeSinglePage
  subtractFreePages 1
  setOwner idx (some pid)
  modifyMm fun mm => { mm with nextZeroedPageHint := hintAfter idx }
  pure (ENCRYPTED_DRAM_BASE + idx * PAGE_SIZE, zeroed)

/-- The alignment of a range in pages, a constant of the caller. -/
structure AlignPages where
  get : Nat
  pos : 0 < get

/-- `(0..stop).step_by(align).rev()` -/
def stepsDown (stop align : Nat) : List Nat :=
  (List.range' 0 ((stop + align - 1) / align) align).reverse

/-- The search of `allocRangeAligned`: the highest range of zeroed pages, or else the
highest range of free pages. -/
def findRange (mm : MemoryManager) (align numPages : Nat) : Option (Nat × Bool) :=
  let stop := RAM_PAGES - numPages + 1
  let aligned := (Bitmap.onesDown mm.freePagesZeroed stop).filter fun i =>
    i &&& (align - 1) == 0
  match aligned.find? fun i => Bitmap.allOnes mm.freePagesZeroed i numPages with
  | some idx => some (idx, true)
  | none =>
    ((stepsDown stop align).find? fun i =>
      Bitmap.allOnes (fun j => mm.freePagesZeroed j || mm.freePagesDirty j) i numPages).map
        fun idx => (idx, false)

/-- The address of the range, and whether its pages are already zeroed. -/
def allocRangeAligned (align : AlignPages) (numPages : Nat) (pid : PID) :
    Prog Ram Panic Error (Nat × Bool) :=
  if numPages = 0 then Prog.throw .invalidArguments
  else if RAM_PAGES < numPages then Prog.throw .outOfMemory
  else do
    let r ← Prog.get
    let (idx, zeroed) ← Prog.okOr .outOfMemory (findRange r.mm align.get numPages)
    Prog.require .outOfRange (decide (idx + numPages ≤ RAM_PAGES))
    subtractFreePages numPages
    modifyMm fun mm =>
      { mm with
        allocations := Bitmap.fill mm.allocations idx numPages (some pid)
        freePagesZeroed := Bitmap.fill mm.freePagesZeroed idx numPages false }
    Prog.onlyIf (zeroed = false) (modifyMm fun mm =>
      { mm with freePagesDirty := Bitmap.fill mm.freePagesDirty idx numPages false })
    pure (ENCRYPTED_DRAM_BASE + idx * PAGE_SIZE, zeroed)

def noAlign : AlignPages := ⟨1, Nat.one_pos⟩

/-- The address to map for a mapping with `flags`, and whether the pages still need
zeroing. -/
def allocRange (numPages : Nat) (pid : PID) (flags : MemoryFlags) :
    Prog Ram Panic Error (Nat × Bool) := do
  let (allocated, zeroed) ←
    if numPages = 1 then allocSinglePage pid else allocRangeAligned noAlign numPages pid
  if flags.plaintext || flags.noCache || flags.dev then
    pure (toPlaintextPhysAddr allocated, true)
  else
    pure (allocated, !zeroed)

/-! ## 6. Zeroing -/

def MAX_DIRTY_PAGES : Nat := 8 * 1024 * 1024 / PAGE_SIZE

/-- The first dirty page from the hint on, or else the first one before it. -/
def nextDirtyPage (dirty : Nat → Bool) (start : Nat) : Option Nat :=
  match Bitmap.firstOne dirty start RAM_PAGES with
  | some idx => some (start + idx)
  | none => Bitmap.firstOne dirty 0 start

def takeDirtyPages : Prog Ram Panic Error (Option (Nat × Nat)) := do
  let r ← Prog.get
  let start := r.mm.nextDirtyPageHint.getD 0
  Prog.require .outOfRange (decide (start ≤ RAM_PAGES))
  match nextDirtyPage r.mm.freePagesDirty start with
  | none => do
    modifyMm fun mm => { mm with nextDirtyPageHint := none }
    pure none
  | some offset => do
    let pages := min (Bitmap.leadingOnes r.mm.freePagesDirty offset RAM_PAGES) MAX_DIRTY_PAGES
    modifyMm fun mm =>
      { mm with
        freePagesDirty := Bitmap.fill mm.freePagesDirty offset pages false
        nextDirtyPageHint := some ((offset + pages) % RAM_PAGES) }
    pure (some (ENCRYPTED_DRAM_BASE + offset * PAGE_SIZE, pages))

def setPagesToZeroed (phys pages : Nat) : Prog Ram Panic Error Unit := do
  let offset ← Prog.expect .noAllocationOffset (addressToAllocationOffset phys)
  Prog.require .outOfRange (decide (offset + pages ≤ RAM_PAGES))
  modifyMm fun mm => { mm with freePagesZeroed := Bitmap.fill mm.freePagesZeroed offset pages true }

/-- `page_zeroer::start` -/
def startZeroer : Prog Ram Panic Error Unit := do
  let r ← Prog.get
  if r.zeroer.running = true ∨ r.zeroer.initialized = false then
    pure ()
  else
    match ← takeDirtyPages with
    | none => pure ()
    | some (phys, pages) =>
      Prog.modify fun r =>
        { r with zeroer :=
          { r.zeroer with
            running := true
            currentPage := phys
            currentPageNum := pages
            transfer := some (phys, pages * PAGE_SIZE / 4) } }

/-- The background half of `xdmac_interrupt`. -/
def xdmacInterrupt : Prog Ram Panic Error Unit := do
  let r ← Prog.get
  Prog.modify fun r => { r with zeroer := { r.zeroer with currentPage := 0, currentPageNum := 0 } }
  setPagesToZeroed r.zeroer.currentPage r.zeroer.currentPageNum
  Prog.modify fun r => { r with zeroer := { r.zeroer with running := false } }
  startZeroer

/-- The end of `page_zeroer::init`. -/
def initZeroer : Prog Ram Panic Error Unit :=
  Prog.modify fun r => { r with zeroer := { r.zeroer with initialized := true } }

/-! ## 7. Ownership -/

inductive ClaimReleaseMove where
  | claim
  | release
  | move (existing : PID)
deriving DecidableEq

/-- The permission check and the peripheral scan of `claimReleaseMove`, for addresses
outside RAM: `true` when the address is a shared peripheral and the call is over. -/
def checkPeripheral (processes : PID → Option Process) (addr : Nat) (pid : PID) :
    Except Error Bool :=
  match processes pid with
  | none => .error .processNotFound
  | some p => do
    p.checkMemoryPermission addr
    pure (SHARED_PERIPHERALS.any fun base => decide (pid ≠ PID.kernel) &&
      (addr == base || addr == base + 0x1000 || addr == base + 0x2000 || addr == base + 0x3000))

/-- Take the page out of the bitmap that it is in. -/
def takeFree (offset : Nat) : Prog Ram Panic Error Unit := do
  let r ← Prog.get
  if r.mm.freePagesZeroed offset then setZeroed offset false
  else if r.mm.freePagesDirty offset then setDirty offset false
  -- No owner but not actually free: it is being zeroed right now
  else Prog.throw .memoryInUse

def claim (offset : Nat) (pid : PID) : Prog Ram Panic Error Unit := do
  let r ← Prog.get
  if (r.mm.allocations offset).isSome then
    Prog.throw .memoryInUse
  else do
    Prog.onlyIf (offset < RAM_PAGES) do
      takeFree offset
      subtractFreePages 1
    setOwner offset (some pid)

def move (offset : Nat) (pid existing : PID) : Prog Ram Panic Error Unit := do
  let r ← Prog.get
  match r.mm.allocations offset with
  | none => Prog.throw .doubleFree
  | some current =>
    if current ≠ pid ∧ existing ≠ current then Prog.throw .memoryInUse
    else setOwner offset (some pid)

def release (offset : Nat) (pid : PID) : Prog Ram Panic Error Unit := do
  let r ← Prog.get
  match r.mm.allocations offset with
  | none => Prog.throw .doubleFree
  | some current =>
    if current ≠ pid then Prog.throw .memoryInUse
    else do
      Prog.onlyIf (offset < RAM_PAGES) do
        setDirty offset true
        modifyMm fun mm => { mm with nextDirtyPageHint := mm.nextDirtyPageHint.or (some offset) }
        startZeroer
        addFreePages 1
      setOwner offset none

def claimReleaseMove (processes : PID → Option Process) (addr : Nat) (pid : PID)
    (action : ClaimReleaseMove) : Prog Ram Panic Error Unit :=
  if addr &&& 0xfff ≠ 0 then Prog.throw .badAlignment
  else do
    -- RAM can have any owner and is no shared peripheral
    let shared ← Prog.ofExcept
      (if isAddressEncrypted addr || isAddressInPlaintextDram addr then .ok false
        else checkPeripheral processes addr pid)
    if shared then
      pure ()
    else do
      let offset ← Prog.okOr .badAddress (addressToAllocationOffset addr)
      Prog.require .outOfRange (decide (offset < memPages))
      match action with
      | .claim => claim offset pid
      | .move existing => move offset pid existing
      | .release => release offset pid

def claimPage (processes : PID → Option Process) (addr : Nat) (pid : PID) :
    Prog Ram Panic Error Unit :=
  claimReleaseMove processes addr pid .claim

def releasePage (processes : PID → Option Process) (addr : Nat) (pid : PID) :
    Prog Ram Panic Error Unit :=
  claimReleaseMove processes addr pid .release

/-- The loop body of `releaseAllMemoryForProcess`. -/
def releaseIfOwned (pid : PID) (idx : Nat) : Prog Ram Panic Error Unit := do
  let r ← Prog.get
  Prog.onlyIf (r.mm.allocations idx = some pid) do
    setOwner idx none
    Prog.onlyIf (idx < RAM_PAGES) do
      setDirty idx true
      addFreePages 1

def releaseAllMemoryForProcess (pid : PID) : Prog Ram Panic Error Unit := do
  Prog.forEach (List.range memPages) (releaseIfOwned pid)
  startZeroer

end Ram

/-! ## 8. Initialization -/

namespace MemoryManager

/-- Before `initFromMemory`, with the ownership table that the loader left. -/
def uninitialized (allocations : Nat → Option PID) : MemoryManager :=
  { allocations := allocations
    freePagesDirty := fun _ => false
    nextDirtyPageHint := none
    freePagesZeroed := fun _ => false
    nextZeroedPageHint := 0
    numFreePages := 0
    lowMemory := false
    pendingMapZero := none }

def countPage (mm : MemoryManager) (offset : Nat) : MemoryManager :=
  if (mm.allocations offset).isNone then
    { mm with
      freePagesDirty := Function.update mm.freePagesDirty offset true
      numFreePages := mm.numFreePages + 1 }
  else mm

def initFromMemory (allocations : Nat → Option PID) : MemoryManager :=
  (List.range RAM_PAGES).foldl countPage (uninitialized allocations)

end MemoryManager

def Ram.init (allocations : Nat → Option PID) : Ram :=
  ⟨.initFromMemory allocations, .default, 0⟩

end Kernel
