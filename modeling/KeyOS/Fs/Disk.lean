import KeyOS.Lib.Exec
import KeyOS.Lib.BoundedCache

/-!
# The disk of a file system

A partition of a block device as a sequence of bytes. Accesses of less than a block go through a
small cache of blocks, which are written out when they are given up for others or on a flush;
accesses of whole blocks go to the device. Every access to the device may fail, without effect.

What is stored logically is what the device holds, under the cached blocks that are dirty.
-/

namespace Fs

open Exec

/-! ## 1. The disk -/

def BLOCK_SIZE : Nat := 512

def BLOCK_CACHE_SIZE : Nat := 8

/-- A block, or a buffer of several: the byte at each offset -/
abbrev Block := Nat → UInt8

structure CachedBlock where
  data : Block
  dirty : Bool

inductive IoError where
  | device
  | invalidData
  deriving DecidableEq, Repr

/-- A block device, and which of the next accesses to it fail -/
structure BlockDevice where
  blocks : Nat → Block
  faults : List Bool

structure PartitionInfo where
  start : Nat
  lenBytes : Nat

structure Disk (C : Type) where
  blockDevice : BlockDevice
  pos : Nat
  partitionInfo : PartitionInfo
  blockCache : C

/-- `unwrap` of an entry that is not in the cache -/
inductive Missing where
  | unwrap
  deriving DecidableEq

abbrev DiskM (C α : Type) := Prog (Disk C) Missing IoError α

variable {C : Type}

namespace BlockDevice

/-- The device after one access -/
def accessed (d : BlockDevice) : BlockDevice := { d with faults := d.faults.drop 1 }

/-- The next access fails. -/
def failing (d : BlockDevice) : Bool := d.faults.headD false

/-- The bytes of the blocks from a block on -/
def bytesFrom (d : BlockDevice) (blockIdx : Nat) : Block := fun k =>
  d.blocks (blockIdx + k / BLOCK_SIZE) (k % BLOCK_SIZE)

/-- The device with some blocks overwritten -/
def overwritten (d : BlockDevice) (blockIdx count : Nat) (buf : Block) : BlockDevice :=
  { d with
    blocks := fun i o =>
      if blockIdx ≤ i ∧ i < blockIdx + count then buf ((i - blockIdx) * BLOCK_SIZE + o)
      else d.blocks i o }

end BlockDevice

namespace Disk

def access : DiskM C Unit := fun s =>
  (if s.blockDevice.failing then .err .device else .ok (),
    { s with blockDevice := s.blockDevice.accessed })

def deviceRead (blockIdx : Nat) : DiskM C Block := do
  access
  Prog.gets fun s => s.blockDevice.bytesFrom blockIdx

def deviceWrite (blockIdx count : Nat) (buf : Block) : DiskM C Unit := do
  access
  Prog.modify fun s => { s with blockDevice := s.blockDevice.overwritten blockIdx count buf }

variable (L : BoundedCache C CachedBlock)

def newWithPartitionInfo (blockDevice : BlockDevice) (partitionInfo : PartitionInfo) : Disk C :=
  { blockDevice, pos := 0, partitionInfo, blockCache := L.empty }

/-! ## 2. The cache -/

def push (blockIdx : Nat) (block : CachedBlock) : DiskM C (Option (Nat × CachedBlock)) := fun s =>
  (.ok (L.push s.blockCache blockIdx block).2,
    { s with blockCache := (L.push s.blockCache blockIdx block).1 })

/-- `get_mut(..).unwrap()` -/
def getMut (blockIdx : Nat) : DiskM C CachedBlock := do
  let s ← Prog.get
  let block ← Prog.expect .unwrap (L.get s.blockCache blockIdx)
  Prog.modify fun s => { s with blockCache := L.touch s.blockCache blockIdx block }
  pure block

/-- An assignment to a block through a reference into the cache -/
def assign (blockIdx : Nat) (block : CachedBlock) : DiskM C Unit :=
  Prog.modify fun s => { s with blockCache := L.replace s.blockCache blockIdx block }

/-- A block that is not cached is read, and added to the cache. -/
def fetch (blockIdx : Nat) (doRead : Bool) : DiskM C Unit := do
  let data ← if doRead then deviceRead blockIdx else pure fun _ => 0
  let evicted ← push L blockIdx { data, dirty := false }
  match evicted with
  | some (prevIdx, prevBlock) =>
    Prog.onlyIf (prevBlock.dirty = true) (deviceWrite prevIdx 1 prevBlock.data)
  | none => pure ()

def cachedBlock (blockIdx : Nat) (doRead : Bool) : DiskM C CachedBlock := do
  let s ← Prog.get
  Prog.onlyIf (L.get s.blockCache blockIdx = none) (fetch L blockIdx doRead)
  getMut L blockIdx

/-- `block_idx..(block_idx + count)`, where the sum is a `u32` -/
def blockRange (blockIdx count : Nat) : List Nat :=
  List.range' blockIdx ((blockIdx + count) % 2 ^ 32 - blockIdx)

/-- The body of the loop of `read_blocks`: a dirty block is written out. -/
def writeOut (blockIdx : Nat) : DiskM C Unit := do
  let s ← Prog.get
  match L.get s.blockCache blockIdx with
  | none => pure ()
  | some block => do
    let _ ← getMut L blockIdx
    Prog.onlyIf (block.dirty = true) (do
      deviceWrite blockIdx 1 block.data
      assign L blockIdx { block with dirty := false })

def readBlocks (blockIdx bufLen : Nat) : DiskM C Block := do
  Prog.forEach (blockRange blockIdx (bufLen / BLOCK_SIZE)) (writeOut L)
  deviceRead blockIdx

def writeBlocks (blockIdx bufLen : Nat) (buf : Block) : DiskM C Unit := do
  deviceWrite blockIdx (bufLen / BLOCK_SIZE) buf
  Prog.forEach (blockRange blockIdx (bufLen / BLOCK_SIZE)) fun dropIdx =>
    Prog.modify fun s => { s with blockCache := L.pop s.blockCache dropIdx }

/-! ## 3. Seek, Read and Write -/

inductive SeekFrom where
  | start (offset : Nat)
  | fromEnd (offset : Int)
  | current (offset : Int)

/-- `u64::checked_add_signed` -/
def checkedAddSigned (a : Nat) (d : Int) : Option Nat :=
  if 0 ≤ a + d ∧ a + d < 2 ^ 64 then some (a + d).toNat else none

def seek (pos : SeekFrom) : DiskM C Nat := do
  let s ← Prog.get
  let newPos ← match pos with
    | .start offset => pure offset
    | .fromEnd offset =>
      Prog.okOr .invalidData (checkedAddSigned s.partitionInfo.lenBytes offset)
    | .current offset => Prog.okOr .invalidData (checkedAddSigned s.pos offset)
  Prog.modify fun s => { s with pos := newPos }
  pure newPos

/-- Where an access of some length goes from the current position: nowhere at the end of the
partition, to the device if it is aligned and long enough, else into a cached block. -/
inductive Place where
  | outside
  | bulk (blockIdx len : Nat)
  | cached (blockIdx offset len : Nat)
  deriving DecidableEq

def place (s : Disk C) (bufLen : Nat) : Place :=
  if s.partitionInfo.lenBytes ≤ s.pos then .outside
  else
    let remaining := min (s.partitionInfo.lenBytes - s.pos) (2 ^ 32 - 1)
    let bufLen := min bufLen remaining
    let offset := s.pos % BLOCK_SIZE
    let blockIdx := (s.partitionInfo.start + s.pos / BLOCK_SIZE % 2 ^ 32) % 2 ^ 32
    if offset = 0 ∧ BLOCK_SIZE ≤ bufLen then
      -- the bits below the block size are masked off
      .bulk blockIdx (bufLen / BLOCK_SIZE * BLOCK_SIZE)
    else .cached blockIdx offset (min bufLen (BLOCK_SIZE - offset))

def advance (len : Nat) : DiskM C Unit := Prog.modify fun s => { s with pos := s.pos + len }

def read (bufLen : Nat) : DiskM C (List UInt8) := do
  let s ← Prog.get
  match s.place bufLen with
  | .outside => pure []
  | .bulk blockIdx len => do
    let buf ← readBlocks L blockIdx len
    advance len
    pure ((List.range len).map buf)
  | .cached blockIdx offset len => do
    let block ← cachedBlock L blockIdx true
    advance len
    pure ((List.range len).map fun k => block.data (offset + k))

def write (buf : List UInt8) : DiskM C Nat := do
  let s ← Prog.get
  match s.place buf.length with
  | .outside => pure 0
  | .bulk blockIdx len => do
    writeBlocks L blockIdx len fun k => buf.getD k 0
    advance len
    pure len
  | .cached blockIdx offset len => do
    let block ← cachedBlock L blockIdx (decide (offset ≠ 0 ∨ len ≠ BLOCK_SIZE))
    assign L blockIdx
      { data := fun o =>
          if offset ≤ o ∧ o < offset + len then buf.getD (o - offset) 0 else block.data o
        dirty := true }
    advance len
    pure len

/-- The body of the loop of `flush`, which does not use the blocks it visits -/
def flushBlock (blockIdx : Nat) : DiskM C Unit := do
  let s ← Prog.get
  match L.get s.blockCache blockIdx with
  | none => pure ()
  | some block =>
    Prog.onlyIf (block.dirty = true) (do
      deviceWrite blockIdx 1 block.data
      assign L blockIdx { block with dirty := false })

def flush : DiskM C Unit := do
  let s ← Prog.get
  Prog.forEach (L.keys s.blockCache) (flushBlock L)
  access

inductive Call where
  | seek (pos : SeekFrom)
  | read (bufLen : Nat)
  | write (buf : List UInt8)
  | flush

inductive Answer where
  | position (pos : Nat)
  | bytes (buf : List UInt8)
  | written (len : Nat)
  | flushed
  deriving DecidableEq

def exec : Call → DiskM C Answer
  | .seek pos => do return .position (← seek pos)
  | .read bufLen => do return .bytes (← read L bufLen)
  | .write buf => do return .written (← write L buf)
  | .flush => do
    flush L
    return .flushed

/-- A call, and which of the accesses to the device that it makes fail -/
structure Step where
  call : Call
  faults : List Bool

def withFaults (s : Disk C) (faults : List Bool) : Disk C :=
  { s with blockDevice := { s.blockDevice with faults } }

def step (t : Step) (s : Disk C) : Outcome Missing IoError Answer × Disk C :=
  exec L t.call (s.withFaults t.faults)

/-- What happened in a step -/
structure Event (C : Type) where
  before : Disk C
  step : Step
  outcome : Outcome Missing IoError Answer
  after : Disk C

def run : Disk C → List Step → List (Event C)
  | _, [] => []
  | s, t :: ts => ⟨s, t, (step L t s).1, (step L t s).2⟩ :: run (step L t s).2 ts

/-! ## 4. What is stored -/

/-- The dirty blocks over the device -/
def content (s : Disk C) (i o : Nat) : UInt8 :=
  match L.get s.blockCache i with
  | some block => if block.dirty then block.data o else s.blockDevice.blocks i o
  | none => s.blockDevice.blocks i o

/-- The block that holds a byte of the partition -/
def blockOf (p : PartitionInfo) (pos : Nat) : Nat :=
  (p.start + pos / BLOCK_SIZE % 2 ^ 32) % 2 ^ 32

/-- The bytes asked for hold byte `o` of block `i`. -/
def Touches (p : PartitionInfo) (pos len i o : Nat) : Prop :=
  ∃ k < len, blockOf p (pos + k) = i ∧ (pos + k) % BLOCK_SIZE = o

def Call.len : Call → Nat
  | .read bufLen => bufLen
  | .write buf => buf.length
  | _ => 0

/-- What is stored is as before outside the bytes that a call asked for. -/
def KeptOutside (e : Event C) : Prop :=
  ∀ i o, o < BLOCK_SIZE → ¬ Touches e.before.partitionInfo e.before.pos e.step.call.len i o →
    content L e.after i o = content L e.before i o

/-- What is stored is as before. -/
def Unchanged (e : Event C) : Prop :=
  ∀ i o, o < BLOCK_SIZE → content L e.after i o = content L e.before i o

/-- A call reads and writes what is stored, and nothing of it is lost: an error leaves what is
outside its range, a write changes its bytes only, and a flush brings everything to the device. -/
def Faithful (e : Event C) : Prop :=
  match e.outcome with
  | .panic _ => False
  | .err _ => KeptOutside L e
  | .ok (.position _) => Unchanged L e
  | .ok (.bytes buf) => Unchanged L e ∧ ∀ k < buf.length,
      buf.getD k 0 =
        content L e.before (blockOf e.before.partitionInfo (e.before.pos + k))
          ((e.before.pos + k) % BLOCK_SIZE)
  | .ok (.written len) => ∃ buf, e.step.call = .write buf ∧
      (∀ k < len, content L e.after (blockOf e.before.partitionInfo (e.before.pos + k))
        ((e.before.pos + k) % BLOCK_SIZE) = buf.getD k 0) ∧
      ∀ i o, o < BLOCK_SIZE → ¬ Touches e.before.partitionInfo e.before.pos len i o →
        content L e.after i o = content L e.before i o
  | .ok .flushed => Unchanged L e ∧
      ∀ i o, o < BLOCK_SIZE → e.after.blockDevice.blocks i o = content L e.before i o

end Disk

end Fs
