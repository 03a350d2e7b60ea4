import KeyOS.Kernel.Allocator

/-!
# Page tables

The L2 entries of every process and the operations on single pages: mapping, moving,
lending and returning them. An entry is a value instead of a descriptor word, with the
physical address as a page frame, so that an unaligned entry cannot be built. Cache
and TLB maintenance is left out.

`contents` is what the pages of RAM hold, as far as it matters here: zeros that are
read through one of the two aliases of RAM, or anything else.
-/

namespace Kernel

open Exec

def MMAP_AREA_VIRT : Nat := 0x30000000

def MMAP_AREA_VIRT_END : Nat := 0x40000000

def USER_AREA_END : Nat := 0x70000000

def L1_USER_PAGE_TABLE_ENTRIES : Nat := 2048

def L1_USER_PAGE_TABLE_PAGES : Nat := 2

namespace MemoryFlags

def empty : MemoryFlags := ⟨false, false, false, false, false, false⟩

/-- The flags that make the kernel use the plaintext alias of RAM. -/
def usesPlaintext (flags : MemoryFlags) : Bool := flags.plaintext || flags.noCache || flags.dev

end MemoryFlags

/-! ## 1. Entries -/

/-- A small page descriptor. -/
structure PageTableDescriptor where
  frame : Nat
  /-- Execute never -/
  xn : Bool
  /-- Cacheable -/
  c : Bool
  /-- Device memory -/
  b : Bool
  /-- Read only -/
  ap2 : Bool
  /-- Full access, for the user as well as for the kernel -/
  user : Bool
  /-- Device memory is never cacheable. -/
  uncached : b = true → c = false
deriving DecidableEq

def PageTableDescriptor.phys (d : PageTableDescriptor) : Nat := d.frame * PAGE_SIZE

inductive L2TableEntry where
  /-- Free slot, not allocated or mapped. -/
  | empty
  /-- Mapped page with a real physical page behind it. -/
  | mapped (d : PageTableDescriptor)
  /-- Allocated, but not usable by the MMU: on demand if the frame is 0, else shared. -/
  | unmapped (frame : Nat) (flags : MemoryFlags) (user : Bool)
deriving DecidableEq

def decodeFlags (d : PageTableDescriptor) : MemoryFlags :=
  { populate := false
    w := !d.ap2
    x := !d.xn
    dev := d.b
    noCache := !d.c
    plaintext := isAddressInPlaintextDram d.phys }

namespace L2TableEntry

/-- The word of an entry that stores nothing reads as a free slot. -/
def normalize : L2TableEntry → L2TableEntry
  | .unmapped frame flags user =>
    if frame = 0 ∧ flags = .empty ∧ user = false then .empty else .unmapped frame flags user
  | e => e

def newOnDemand (frame : Nat) (flags : MemoryFlags) (mapUser : Bool) : L2TableEntry :=
  .unmapped frame flags mapUser

def newMapped (phys : Nat) (flags : MemoryFlags) (mapUser : Bool) : Except Error L2TableEntry :=
  if phys % PAGE_SIZE ≠ 0 then .error .badAlignment
  else .ok (.mapped
    { frame := phys / PAGE_SIZE
      xn := !flags.x
      c := !flags.dev && !flags.noCache
      b := flags.dev
      ap2 := !flags.w
      user := mapUser
      uncached := fun h => by rw [h]; rfl })

def phys : L2TableEntry → Except Error Nat
  | .empty => .error .badAddress
  | .mapped d => .ok d.phys
  | .unmapped frame _ _ => .ok (frame * PAGE_SIZE)

def flags : L2TableEntry → Except Error MemoryFlags
  | .empty => .error .badAddress
  | .mapped d => .ok (decodeFlags d)
  | .unmapped _ flags _ => .ok flags

def toMapped : L2TableEntry → Except Error L2TableEntry
  | .empty => .error .badAddress
  | .mapped d => .ok (.mapped d)
  | .unmapped frame flags user => newMapped (frame * PAGE_SIZE) flags user

def toUnmapped : L2TableEntry → Except Error L2TableEntry
  | .empty => .error .badAddress
  | .mapped d => .ok (newOnDemand d.frame (decodeFlags d) d.user)
  | .unmapped frame flags user => .ok (.unmapped frame flags user)

def isShared : L2TableEntry → Bool
  | .unmapped frame _ _ => frame != 0
  | _ => false

def isOnDemand : L2TableEntry → Bool
  | .unmapped frame _ _ => frame == 0
  | _ => false

def isEmpty : L2TableEntry → Bool
  | .empty => true
  | _ => false

def isMapped : L2TableEntry → Bool
  | .mapped _ => true
  | _ => false

def isUserAccessible : L2TableEntry → Bool
  | .empty => false
  | .mapped d => d.user
  | .unmapped _ _ user => user

/-- Strip the W flag from the entry. -/
def toImmutable : L2TableEntry → Except Error L2TableEntry
  | .empty => .error .badAddress
  | .mapped d => .ok (.mapped { d with ap2 := true })
  | .unmapped frame flags user => .ok (.unmapped frame { flags with w := false } user)

def withPhys (frame : Nat) : L2TableEntry → Except Error L2TableEntry
  | .empty => .error .badAddress
  | .mapped d => .ok (.mapped { d with frame := frame })
  | .unmapped _ flags user => .ok (.unmapped frame flags user)

end L2TableEntry

/-! ## 2. State -/

/-- What a page of RAM holds. -/
inductive Contents where
  /-- Every byte is zero, read through the plaintext alias or through the encrypted one. -/
  | zeros (plaintext : Bool)
  | data
deriving DecidableEq

structure Memory where
  ram : Ram
  /-- The groups of four sections whose L1 descriptors point to L2 tables. All four are
  invalid or none is. -/
  tables : PID → Nat → Bool
  /-- The L2 entries, by page number -/
  entries : PID → Nat → L2TableEntry
  allocationHint : PID → Nat
  contents : Nat → Contents

namespace Memory

def onRam {α : Type} (x : Prog Ram Panic Error α) : Prog Memory Panic Error α :=
  Prog.zoom Memory.ram (fun ram m => { m with ram := ram }) x

/-- `slot.write(entry)` -/
def writeSlot (pid : PID) (slot : Nat) (entry : L2TableEntry) : Prog Memory Panic Error Unit :=
  Prog.modify fun m =>
    { m with entries := fun p v =>
        if p = pid ∧ v = slot then entry.normalize else m.entries p v }

/-- `slot.read()` -/
def readSlot (pid : PID) (slot : Nat) : Prog Memory Panic Error L2TableEntry :=
  Prog.gets fun m => m.entries pid slot

/-- Whatever the page held, it holds `c` now. -/
def setContents (phys : Nat) (c : Contents) : Prog Memory Panic Error Unit :=
  Prog.modify fun m =>
    { m with contents := fun i =>
        if addressToAllocationOffset phys = some i then c else m.contents i }

/-- Fill the page behind `slot` with zeros through the user's own mapping of it. The
store faults where there is no page or the page is read only, for the kernel too. -/
def zeroThroughSlot (pid : PID) (slot : Nat) : Prog Memory Panic Error Unit := do
  match ← readSlot pid slot with
  | .mapped d => do
    Prog.require .permissionFault (!d.ap2)
    setContents d.phys (.zeros (isAddressInPlaintextDram d.phys))
  | _ => Prog.panic .translationFault

end Memory

/-! ## 3. Slots -/

namespace MemoryMapping

open Memory

/-- The process may have an L2 table for this section of 1 MiB. -/
def allowsSection (pid : PID) (vpn1 : Nat) : Bool :=
  pid == PID.kernel || decide (vpn1 < L1_USER_PAGE_TABLE_ENTRIES)

/-- The slot of an address whose section has an L2 table. The entry may be empty. -/
def getL2Slot (pid : PID) (addr : Nat) : Prog Memory Panic Error Nat := do
  if addr % PAGE_SIZE ≠ 0 then
    Prog.throw .badAlignment
  else if allowsSection pid (addr / 2 ^ 20) = false then
    Prog.throw .accessDenied
  else do
    let m ← Prog.get
    if m.tables pid (addr / 2 ^ 22) then pure (addr / PAGE_SIZE) else Prog.throw .badAddress

/-- Four L2 tables fill one page, so a new page gives tables to four sections. -/
def allocateTables (pid : PID) (group : Nat) : Prog Memory Panic Error Unit := do
  let (pagePhys, _) ← onRam (Ram.allocSinglePage pid)
  setContents pagePhys .data
  Prog.modify fun m =>
    { m with
      tables := fun p g => m.tables p g || decide (p = pid ∧ g = group)
      entries := fun p v => if p = pid ∧ v / 1024 = group then .empty else m.entries p v }

/-- The slot of an address that is not in use, with a new L2 table if need be. -/
def allocateL2Slot (pid : PID) (virt : Nat) : Prog Memory Panic Error Nat := do
  if virt % PAGE_SIZE ≠ 0 then
    Prog.throw .badAlignment
  else if allowsSection pid (virt / 2 ^ 20) = false then
    Prog.throw .accessDenied
  else do
    let m ← Prog.get
    Prog.onlyIf (m.tables pid (virt / 2 ^ 22) = false) (allocateTables pid (virt / 2 ^ 22))
    let existing ← readSlot pid (virt / PAGE_SIZE)
    if existing.isEmpty then pure (virt / PAGE_SIZE) else Prog.throw .memoryInUse

/-! ## 4. Single pages -/

/-- Map a page without allocating one: `phys` is 0 for an on-demand page. -/
def mapPage (pid : PID) (phys virt : Nat) (flags : MemoryFlags) (mapUser : Bool) :
    Prog Memory Panic Error Unit := do
  Prog.require .mapRwx (!(flags.w && flags.x))
  let entry ← Prog.ofExcept
    (if phys ≠ 0 then L2TableEntry.newMapped phys flags mapUser
      else .ok (.newOnDemand 0 flags mapUser))
  let slot ← allocateL2Slot pid virt
  writeSlot pid slot entry

def unmapPage (pid : PID) (virt : Nat) : Prog Memory Panic Error Unit := do
  let slot ← getL2Slot pid virt
  let entry ← readSlot pid slot
  if entry.isEmpty || entry.isShared then Prog.throw .badAddress
  else writeSlot pid slot .empty

/-- Give an on-demand entry a zeroed page of its own. -/
def allocateBackingPage (pid : PID) (slot : Nat) (entry : L2TableEntry) :
    Prog Memory Panic Error Unit := do
  let flags ← Prog.ofExcept entry.flags
  -- The page must be writable to be zeroed
  if flags.w = false then
    Prog.throw .accessDenied
  else do
    let (allocated, alreadyZeroed) ← onRam (Ram.allocSinglePage pid)
    let phys := if flags.usesPlaintext then toPlaintextPhysAddr allocated else allocated
    let zeroed := if flags.usesPlaintext then false else alreadyZeroed
    let backed ← Prog.ofExcept (entry.withPhys (phys / PAGE_SIZE))
    let entry ← Prog.ofExcept backed.toMapped
    writeSlot pid slot entry
    Prog.onlyIf (zeroed = false) (zeroThroughSlot pid slot)

def ensureBacked (pid : PID) (virt : Nat) : Prog Memory Panic Error Unit := do
  let slot ← getL2Slot pid virt
  let entry ← readSlot pid slot
  if entry.isMapped then pure ()
  else if entry.isEmpty then Prog.throw .badAddress
  else if entry.isOnDemand = false then Prog.throw .memoryInUse
  else allocateBackingPage pid slot entry

/-- The first half of `movePage` and `lendPage`: an on-demand source gets a page. -/
def backedEntry (pid : PID) (slot : Nat) : Prog Memory Panic Error L2TableEntry := do
  let entry ← readSlot pid slot
  if pid ≠ PID.kernel ∧ entry.isUserAccessible = false then
    Prog.throw .accessDenied
  else do
    Prog.onlyIf (entry.isOnDemand = true) (allocateBackingPage pid slot entry)
    readSlot pid slot

/-- Move a page from one address space to another. It cannot be shared. -/
def movePage (pid : PID) (srcAddr : Nat) (destPid : PID) (destAddr : Nat) :
    Prog Memory Panic Error Nat := do
  let srcSlot ← getL2Slot pid srcAddr
  let entry ← backedEntry pid srcSlot
  let unmappedPhys ← if entry.isMapped then pure 0 else Prog.ofExcept entry.phys
  if unmappedPhys ≠ 0 then
    Prog.throw .badAddress
  else do
    let destSlot ← allocateL2Slot destPid destAddr
    writeSlot pid srcSlot .empty
    writeSlot destPid destSlot entry
    Prog.ofExcept entry.phys

/-- Lend a page. The source stays reserved until the page is returned. -/
def lendPage (pid : PID) (srcAddr : Nat) (destPid : PID) (destAddr : Nat) (mutable : Bool) :
    Prog Memory Panic Error Nat := do
  let srcSlot ← getL2Slot pid srcAddr
  let entry ← backedEntry pid srcSlot
  if entry.isMapped = false then
    Prog.throw .badAddress
  else do
    let destSlot ← allocateL2Slot destPid destAddr
    let reserved ← Prog.ofExcept entry.toUnmapped
    writeSlot pid srcSlot reserved
    let lent ← Prog.ofExcept (if mutable then .ok entry else entry.toImmutable)
    writeSlot destPid destSlot lent
    Prog.ofExcept entry.phys

/-- Return a page from `pid` to the process that lent it. -/
def returnPage (pid : PID) (srcAddr : Nat) (destPid : PID) (destAddr : Nat) :
    Prog Memory Panic Error Nat := do
  let srcSlot ← getL2Slot pid srcAddr
  let destSlot ← getL2Slot destPid destAddr
  let src ← readSlot pid srcSlot
  let dest ← readSlot destPid destSlot
  let srcPhys ← Prog.ofExcept src.phys
  let destPhys ← Prog.ofExcept dest.phys
  if srcPhys ≠ destPhys then
    Prog.throw .shareViolation
  else do
    writeSlot pid srcSlot .empty
    let returned ← Prog.ofExcept dest.toMapped
    writeSlot destPid destSlot returned
    Prog.ofExcept dest.phys

/-- What a lent entry becomes when its reservation is dropped. -/
inductive ClearShared where
  | onDemand
  | free
deriving DecidableEq

def clearShared (pid : PID) (addr : Nat) (mode : ClearShared) : Prog Memory Panic Error Unit := do
  let slot ← getL2Slot pid addr
  let entry ← readSlot pid slot
  if entry.isShared = false then
    pure ()
  else
    match mode with
    | .free => writeSlot pid slot .empty
    | .onDemand => do
      let entry ← Prog.ofExcept (entry.withPhys 0)
      writeSlot pid slot entry

def virtToPhys (pid : PID) (virt : Nat) : Prog Memory Panic Error Nat := do
  match ← (getL2Slot pid virt).attempt with
  | .error _ => Prog.throw .badAddress
  | .ok slot =>
    let entry ← readSlot pid slot
    if entry.isMapped then Prog.ofExcept entry.phys
    else if entry.isEmpty then Prog.throw .badAddress
    else if entry.isShared then Prog.throw .shareViolation
    else Prog.throw .memoryInUse

def addressUserAccessible (pid : PID) (virt : Nat) : Prog Memory Panic Error Bool := do
  match ← (getL2Slot pid virt).attempt with
  | .error _ => pure false
  | .ok slot =>
    let entry ← readSlot pid slot
    pure entry.isUserAccessible

/-! ## 5. Free address ranges -/

/-- The scan of `findFreeRun` from page `page` on, with `left` pages to look at. A
section without an L2 table is free as a whole. -/
def scanFree (m : Memory) (pid : PID) (needed : Nat) : Nat → Nat → Nat → Nat → Option Nat
  | 0, _, _, _ => none
  | left + 1, page, runStart, runLen =>
    if m.tables pid (page / 1024) = false ∨ (m.entries pid page).isEmpty = true then
      let runStart := if runLen = 0 then page else runStart
      if needed ≤ runLen + 1 then some (runStart * PAGE_SIZE)
      else scanFree m pid needed left (page + 1) runStart (runLen + 1)
    else scanFree m pid needed left (page + 1) runStart 0

/-- Start of the first run of `needed` free pages in `[start, stop)`. -/
def findFreeRun (m : Memory) (pid : PID) (start stop needed : Nat) : Option Nat :=
  scanFree m pid needed ((stop - start) / PAGE_SIZE) (start / PAGE_SIZE) (start / PAGE_SIZE) 0

end MemoryMapping

namespace Memory

open MemoryMapping

/-- `Process::find_virtual_address` -/
def findVirtualAddress (pid : PID) (virt size : Nat) : Prog Memory Panic Error Nat :=
  if virt ≠ 0 then pure virt
  else if MMAP_AREA_VIRT_END - MMAP_AREA_VIRT < size then Prog.throw .outOfMemory
  else do
    let m ← Prog.get
    let needed := size / PAGE_SIZE
    let hint := m.allocationHint pid
    -- Search forward from the hint, then wrap to the area below it
    let start ← Prog.okOr .badAddress
      ((findFreeRun m pid hint MMAP_AREA_VIRT_END needed).or
        (findFreeRun m pid MMAP_AREA_VIRT (min (hint + size) MMAP_AREA_VIRT_END) needed))
    Prog.modify fun m =>
      { m with allocationHint :=
        Function.update m.allocationHint pid (min (start + size) MMAP_AREA_VIRT_END) }
    pure start

/-- `Process::release_allocation_hint` -/
def releaseAllocationHint (pid : PID) (virt : Nat) : Prog Memory Panic Error Unit :=
  Prog.onlyIf (MMAP_AREA_VIRT ≤ virt ∧ virt < MMAP_AREA_VIRT_END) (Prog.modify fun m =>
    { m with allocationHint :=
      Function.update m.allocationHint pid (min (m.allocationHint pid) virt) })

end Memory

end Kernel
