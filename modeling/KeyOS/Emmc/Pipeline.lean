import KeyOS.Lib.SerialStore

/-!
# The eMMC pipeline

Reads, writes and flushes are admitted in order and go through the transfer channel of
the card (SDMMC) and the crypt channel, one operation a channel. Operations that do not
overlap may pass each other. `none` is a panic of the server.

The buffers of an operation are its own: a buffer of the pools, and the buffer that the
caller lends until it gets its answer. A transfer reaches the flash or the buffer by the
time that its completion is signalled. The log records the calls to the hardware, the
answers and, as a note of its own, that an operation is over. Admission numbers are
natural numbers; the 64-bit counter of the source cannot wrap in practice.
-/

namespace Emmc

open SerialStore

def BLOCK_SIZE : Nat := 512

/-- A single AES-XTS encryption covers one cluster. -/
def XTS_CLUSTER_BLOCKS : Nat := 64

def PIPELINE_DEFER_THRESHOLD : Nat := 8

/-! ## 1. Ranges and buffers -/

inductive Direction where
  | read
  | write
deriving DecidableEq, Repr

structure BlockRange where
  start : Nat
  count : Nat
deriving DecidableEq, Repr

namespace BlockRange

/-- Sentinel range of a flush: it overlaps every other range. -/
def full : BlockRange := ⟨0, 2 ^ 32 - 1⟩

def rangesOverlap (a b : BlockRange) : Bool :=
  decide (a.start < b.start + b.count) && decide (b.start < a.start + a.count)

/-- Length in bytes. -/
def bytes (range : BlockRange) : Nat := range.count * BLOCK_SIZE

/-- The byte of the flash is in the range. -/
def Contains (range : BlockRange) (addr : Nat) : Prop :=
  range.start * BLOCK_SIZE ≤ addr ∧ addr < (range.start + range.count) * BLOCK_SIZE

instance (range : BlockRange) (addr : Nat) : Decidable (range.Contains addr) :=
  inferInstanceAs (Decidable (_ ∧ _))

end BlockRange

abbrev Flash : Type := Nat → UInt8

/-- `MemoryRange::subrange`, as its contents. -/
def subrange (buf : List UInt8) (offset len : Nat) : Option (List UInt8) :=
  if buf.length < offset + len ∨ len = 0 then none else some ((buf.drop offset).take len)

/-- The buffer after a store of `data` at an offset. -/
def splice (buf : List UInt8) (offset : Nat) (data : List UInt8) : List UInt8 :=
  buf.take offset ++ data ++ buf.drop (offset + data.length)

/-- The bytes of a range of the flash. -/
def readFlash (flash : Flash) (range : BlockRange) : List UInt8 :=
  (List.range range.bytes).map fun k => flash (range.start * BLOCK_SIZE + k)

/-- What a transfer of the buffer to the range leaves in the flash. -/
def writeUpdate (range : BlockRange) (buf : List UInt8) : Update Nat UInt8 := fun addr =>
  if range.Contains addr then buf[addr - range.start * BLOCK_SIZE]? else none

/-! ## 2. Encryption -/

inductive CryptDirection where
  | encrypt
  | decrypt
deriving DecidableEq, Repr

/-- The AES engine: `disk_encrypt` of a part of a cluster from AES block `j` on. The
tweak is the number of the cluster. -/
structure CryptEngine where
  diskEncrypt (tweak j : Nat) (dir : CryptDirection) (src : List UInt8) : List UInt8
  length_diskEncrypt (tweak j : Nat) (dir : CryptDirection) (src : List UInt8) :
    (diskEncrypt tweak j dir src).length = src.length

def AES_BLOCK_SIZE : Nat := 16

/-- Geometry of the next crypt sub-op. -/
structure CryptSubOp where
  /-- Absolute index of the first block -/
  blockIdx : Nat
  /-- Position of `blockIdx` within its cluster -/
  blockWithin : Nat
  /-- Length in bytes -/
  len : Nat

def cryptSubOp (range : BlockRange) (offset : Nat) : CryptSubOp :=
  let blockIdx := range.start + offset / BLOCK_SIZE
  let blockWithin := blockIdx % XTS_CLUSTER_BLOCKS
  let blocks := min (XTS_CLUSTER_BLOCKS - blockWithin) (range.count - offset / BLOCK_SIZE)
  ⟨blockIdx, blockWithin, blocks * BLOCK_SIZE⟩

/-- The tweak: the cluster number, as a 32-bit word. -/
def CryptSubOp.tweak (sub : CryptSubOp) : Nat := sub.blockIdx / XTS_CLUSTER_BLOCKS % 2 ^ 32

def CryptSubOp.j (sub : CryptSubOp) : Nat := sub.blockWithin * BLOCK_SIZE / AES_BLOCK_SIZE

/-! ## 3. Operations -/

inductive DmaBuf where
  /-- A bounce buffer, which is copied to the caller's -/
  | owned (buf : List UInt8)
  /-- The caller's own buffer -/
  | borrowed
deriving DecidableEq, Repr

/-- A request that waits for its answer, with the buffer that its caller lends. -/
structure Deferred where
  buf : List UInt8
deriving DecidableEq, Repr

inductive OperationType where
  | plainReadSdmmc (dmaBuf : DmaBuf) (deferred : Deferred)
  | encReadSdmmc (ciphertext : List UInt8) (deferred : Deferred)
  | encReadCrypt (ciphertext : List UInt8) (cryptOffset : Nat) (deferred : Deferred)
  | plainWriteSdmmc (ownedBuf : List UInt8)
  | encWriteCrypt (ciphertext : List UInt8) (cryptOffset : Nat) (deferred : Deferred)
  | encWriteSdmmc (ciphertext : List UInt8)
  | flush
deriving DecidableEq, Repr

namespace OperationType

def isSdmmcStep : OperationType → Bool
  | plainReadSdmmc .. => true
  | encReadSdmmc .. => true
  | plainWriteSdmmc .. => true
  | encWriteSdmmc .. => true
  | _ => false

def isCryptStep : OperationType → Bool
  | encReadCrypt .. => true
  | encWriteCrypt .. => true
  | _ => false

def isFlush : OperationType → Bool
  | flush => true
  | _ => false

end OperationType

structure Operation where
  /-- Admit order -/
  seq : Nat
  range : BlockRange
  op : OperationType
deriving DecidableEq, Repr

inductive Event where
  | cancelIdle
  | idle
  | assertCardHealthy
  | sdmmcDma (seq : Nat) (direction : Direction) (range : BlockRange)
  | diskEncrypt (seq tweak j : Nat) (dir : CryptDirection) (len : Nat)
  /-- The caller gets its buffer back, with the data that was read. -/
  | respond (seq : Nat) (data : List UInt8)
  /-- The operation is over, and its buffers are free. -/
  | released (seq : Nat)
deriving DecidableEq, Repr

structure Pipeline where
  /-- Admitted work, by its admission number -/
  ops : List Operation
  sdmmcRunning : Option Operation
  cryptRunning : Option Operation
  /-- Operations that arrived while the pipeline was full -/
  inbox : List Operation
  nextSeq : Nat
  log : List Event
deriving DecidableEq, Repr

/-- `BTreeMap::insert` -/
def insertOp (s : Operation) : List Operation → List Operation
  | [] => [s]
  | t :: rest =>
    if s.seq < t.seq then s :: t :: rest
    else if s.seq = t.seq then s :: rest
    else t :: insertOp s rest

/-- `BTreeMap::remove` -/
def removeOp (seq : Nat) (ops : List Operation) : List Operation := ops.filter (·.seq ≠ seq)

/-! ## 4. Scheduling -/

namespace Pipeline

def new : Pipeline := ⟨[], none, none, [], 0, []⟩

def record (p : Pipeline) (events : List Event) : Pipeline := { p with log := p.log ++ events }

def isIdle (p : Pipeline) : Bool :=
  p.ops.isEmpty && p.sdmmcRunning.isNone && p.cryptRunning.isNone

def running (p : Pipeline) : Nat :=
  (if p.sdmmcRunning.isSome then 1 else 0) + (if p.cryptRunning.isSome then 1 else 0)

/-- New operations must wait in the inbox. -/
def pipelineFull (p : Pipeline) : Bool :=
  decide (PIPELINE_DEFER_THRESHOLD ≤ p.ops.length + p.running)

/-- The loop of `drainInbox`, with the number of running operations. -/
def drainInboxLoop (running : Nat) (ops : List Operation) :
    List Operation → List Operation × List Operation
  | [] => (ops, [])
  | s :: rest =>
    if PIPELINE_DEFER_THRESHOLD ≤ ops.length + running then (ops, s :: rest)
    else drainInboxLoop running (insertOp s ops) rest

/-- Move operations from the inbox into the active queue while there is room. -/
def drainInbox (p : Pipeline) : Pipeline :=
  let (ops, inbox) := drainInboxLoop p.running p.ops p.inbox
  { p with ops := ops, inbox := inbox }

/-- Is there any active operation earlier than `x` whose range overlaps `x`'s? -/
def hasEarlierOverlap (p : Pipeline) (x : Operation) : Bool :=
  (p.ops.filter (·.seq < x.seq) ++ p.sdmmcRunning.toList ++ p.cryptRunning.toList).any fun y =>
    decide (y.seq < x.seq) && BlockRange.rangesOverlap y.range x.range

def runSdmmc (p : Pipeline) (s : Operation) : Option Pipeline :=
  let start (direction : Direction) : Option Pipeline :=
    some ({ p with sdmmcRunning := some s }.record [.sdmmcDma s.seq direction s.range])
  match s.op with
  | .plainReadSdmmc .. => start .read
  | .encReadSdmmc .. => start .read
  | .plainWriteSdmmc .. => start .write
  | .encWriteSdmmc .. => start .write
  | _ => none

/-- Start the earliest transfer that is not blocked by an earlier overlapping operation. -/
def scheduleSdmmc (p : Pipeline) : Option Pipeline :=
  if p.sdmmcRunning.isSome then some p
  else
    match p.ops.find? fun s => s.op.isSdmmcStep && !p.hasEarlierOverlap s with
    | none => some p
    | some s => runSdmmc { p with ops := removeOp s.seq p.ops } s

/-- Source, destination, direction and offset of the crypt step of an operation. -/
def cryptStep : OperationType → Option (List UInt8 × List UInt8 × CryptDirection × Nat)
  | .encReadCrypt ciphertext offset deferred => some (ciphertext, deferred.buf, .decrypt, offset)
  | .encWriteCrypt ciphertext offset deferred => some (deferred.buf, ciphertext, .encrypt, offset)
  | _ => none

/-- Send one AES sub-op. -/
def runCrypt (p : Pipeline) (s : Operation) : Option Pipeline := do
  let (src, dst, dir, offset) ← cryptStep s.op
  let sub := cryptSubOp s.range offset
  let _ ← subrange src offset sub.len
  let _ ← subrange dst offset sub.len
  pure ({ p with cryptRunning := some s }.record
    [.diskEncrypt s.seq sub.tweak sub.j dir sub.len])

def scheduleCrypt (p : Pipeline) : Option Pipeline :=
  if p.cryptRunning.isSome then some p
  else
    match p.ops.find? fun s => s.op.isCryptStep with
    | none => some p
    | some s => runCrypt { p with ops := removeOp s.seq p.ops } s

/-- The loop of `drainFlushes` over the queue. -/
def drainFlushesLoop (crypt : Option Operation) (checked : Bool) (log : List Event) :
    List Operation → List Operation × Bool × List Event
  | [] => ([], checked, log)
  | head :: rest =>
    if head.op.isFlush = false then (head :: rest, checked, log)
    else if crypt.any fun c => decide (c.seq < head.seq) then (head :: rest, checked, log)
    else
      -- The card is asked before the first answer; that covers the whole batch
      drainFlushesLoop crypt true (log ++ (if checked then [] else [.assertCardHealthy]) ++
        [.respond head.seq [], .released head.seq]) rest

/-- Answer the flushes at the head of the queue once all earlier work has completed. -/
def drainFlushes (p : Pipeline) : Pipeline × Bool :=
  if p.sdmmcRunning.isSome then (p, false)
  else
    let (ops, checked, log) := drainFlushesLoop p.cryptRunning false p.log p.ops
    ({ p with ops := ops, log := log }, checked)

def tryAdvance (p : Pipeline) : Option Pipeline := do
  let (p, checked) := p.drainFlushes
  let p ← p.drainInbox.scheduleSdmmc
  let p ← p.scheduleCrypt
  if p.isIdle then
    pure (p.record ((if checked then [] else [.assertCardHealthy]) ++ [.idle]))
  else pure p

/-- `admit` -/
def admitOperation (p : Pipeline) (op : OperationType) (range : BlockRange) : Option Pipeline :=
  let p := if p.isIdle then p.record [.cancelIdle] else p
  let s : Operation := ⟨p.nextSeq, range, op⟩
  let p := { p with nextSeq := p.nextSeq + 1 }
  if p.inbox.isEmpty = false ∨ p.pipelineFull then
    { p with inbox := p.inbox ++ [s] }.tryAdvance
  else
    { p with ops := insertOp s p.ops }.tryAdvance

/-! ## 5. Completions -/

def onSdmmcDone (p : Pipeline) (errorStatus : Nat) : Option Pipeline :=
  if errorStatus ≠ 0 then none
  else
    match p.sdmmcRunning with
    | none => some p
    | some s =>
      let p := { p with sdmmcRunning := none }
      match s.op with
      | .plainReadSdmmc dmaBuf deferred => do
        let data ← match dmaBuf with
          | .owned buf => do
            let _ ← subrange deferred.buf 0 s.range.bytes
            subrange buf 0 s.range.bytes
          | .borrowed => subrange deferred.buf 0 s.range.bytes
        (p.record [.respond s.seq data, .released s.seq]).tryAdvance
      | .encReadSdmmc ciphertext deferred =>
        let follow : Operation := { s with op := .encReadCrypt ciphertext 0 deferred }
        { p with ops := insertOp follow p.ops }.tryAdvance
      | .plainWriteSdmmc _ => (p.record [.released s.seq]).tryAdvance
      | .encWriteSdmmc _ => (p.record [.released s.seq]).tryAdvance
      | _ => some { p with sdmmcRunning := some s }

def onDiskEncryptComplete (p : Pipeline) : Option Pipeline :=
  match p.cryptRunning with
  | none => some p
  | some s =>
    let p := { p with cryptRunning := none }
    match s.op with
    | .encReadCrypt ciphertext offset deferred => do
      let offset := offset + (cryptSubOp s.range offset).len
      if offset < s.range.bytes then
        p.runCrypt { s with op := .encReadCrypt ciphertext offset deferred }
      else do
        let plaintext ← subrange deferred.buf 0 s.range.bytes
        (p.record [.respond s.seq plaintext, .released s.seq]).tryAdvance
    | .encWriteCrypt ciphertext offset deferred =>
      let offset := offset + (cryptSubOp s.range offset).len
      if offset < s.range.bytes then
        p.runCrypt { s with op := .encWriteCrypt ciphertext offset deferred }
      else
        let follow : Operation := { s with op := .encWriteSdmmc ciphertext }
        let p := p.record [.respond s.seq []]
        { p with ops := insertOp follow p.ops }.tryAdvance
    | _ => none

end Pipeline

/-! ## 6. The hardware -/

/-- The pipeline and the card. -/
structure Machine where
  pipeline : Pipeline
  flash : Flash

/-- The running transfer reaches its buffer. -/
def Operation.fillBuffer (s : Operation) (flash : Flash) : Operation :=
  match s.op with
  | .plainReadSdmmc (.owned buf) deferred =>
    { s with op := .plainReadSdmmc (.owned (splice buf 0 (readFlash flash s.range))) deferred }
  | .plainReadSdmmc .borrowed deferred =>
    { s with op := .plainReadSdmmc .borrowed ⟨splice deferred.buf 0 (readFlash flash s.range)⟩ }
  | .encReadSdmmc ciphertext deferred =>
    { s with op := .encReadSdmmc (splice ciphertext 0 (readFlash flash s.range)) deferred }
  | _ => s

/-- What the running transfer writes to the flash. -/
def Operation.flashUpdate (s : Operation) : Update Nat UInt8 :=
  match s.op with
  | .plainWriteSdmmc buf => writeUpdate s.range buf
  | .encWriteSdmmc ciphertext => writeUpdate s.range ciphertext
  | _ => .none

/-- The crypt engine reaches the destination of the running sub-op. -/
def Operation.crypted (E : CryptEngine) (s : Operation) : Operation :=
  match s.op with
  | .encReadCrypt ciphertext offset deferred =>
    let sub := cryptSubOp s.range offset
    let data := E.diskEncrypt sub.tweak sub.j .decrypt ((ciphertext.drop offset).take sub.len)
    { s with op := .encReadCrypt ciphertext offset ⟨splice deferred.buf offset data⟩ }
  | .encWriteCrypt ciphertext offset deferred =>
    let sub := cryptSubOp s.range offset
    let data := E.diskEncrypt sub.tweak sub.j .encrypt ((deferred.buf.drop offset).take sub.len)
    { s with op := .encWriteCrypt (splice ciphertext offset data) offset deferred }
  | _ => s

namespace Machine

def new (flash : Flash) : Machine := ⟨.new, flash⟩

/-- The transfer is done, and the interrupt handler tells the pipeline. -/
def sdmmcDone (m : Machine) : Option Machine := do
  let p := m.pipeline
  let flash := match p.sdmmcRunning with
    | none => m.flash
    | some s => s.flashUpdate.apply m.flash
  let p := { p with sdmmcRunning := p.sdmmcRunning.map fun s : Operation => s.fillBuffer m.flash }
  let p ← p.onSdmmcDone 0
  pure ⟨p, flash⟩

/-- The sub-op is done, and the crypto server tells the pipeline. -/
def cryptDone (E : CryptEngine) (m : Machine) : Option Machine := do
  let p := m.pipeline
  let p := { p with cryptRunning := p.cryptRunning.map fun s : Operation => s.crypted E }
  let p ← p.onDiskEncryptComplete
  pure { m with pipeline := p }

end Machine

/-! ## 7. Runs -/

/-- What the message handlers admit: the first step of an operation, a range below the
last block number, and buffers that hold the range. -/
def OperationType.Admits (range : BlockRange) : OperationType → Prop
  | .plainReadSdmmc dmaBuf deferred =>
    (0 < range.count ∧ range.start + range.count ≤ 2 ^ 32 - 1) ∧
      range.bytes ≤ deferred.buf.length ∧ ∀ buf, dmaBuf = .owned buf → range.bytes ≤ buf.length
  | .encReadSdmmc ciphertext deferred =>
    (0 < range.count ∧ range.start + range.count ≤ 2 ^ 32 - 1) ∧
      range.bytes ≤ deferred.buf.length ∧ range.bytes ≤ ciphertext.length
  | .plainWriteSdmmc buf =>
    (0 < range.count ∧ range.start + range.count ≤ 2 ^ 32 - 1) ∧ range.bytes ≤ buf.length
  | .encWriteCrypt ciphertext offset deferred =>
    (0 < range.count ∧ range.start + range.count ≤ 2 ^ 32 - 1) ∧ offset = 0 ∧
      range.bytes ≤ deferred.buf.length ∧ range.bytes ≤ ciphertext.length
  | .flush => range = .full
  | _ => False

structure Request where
  op : OperationType
  range : BlockRange
  admits : op.Admits range

inductive Action where
  | request (r : Request)
  | sdmmcDone
  | cryptDone

/-- Plain writes are answered by their handler, which has copied the data. -/
def Request.answered (r : Request) (seq : Nat) : List Event :=
  match r.op with
  | .plainWriteSdmmc _ => [.respond seq []]
  | _ => []

def step (E : CryptEngine) (m : Machine) : Action → Option Machine
  | .request r => do
    let p ← (m.pipeline.record (r.answered m.pipeline.nextSeq)).admitOperation r.op r.range
    pure { m with pipeline := p }
  | .sdmmcDone => m.sdmmcDone
  | .cryptDone => m.cryptDone E

def run (E : CryptEngine) (actions : List Action) (m : Machine) : Option Machine :=
  actions.foldlM (step E) m

end Emmc
