import KeyOS.Kernel.Types

/-!
# Servers and their message queues

A server owns a fixed array of slots. A slot is `empty`, holds a message that the
server has not received yet, or waits for the reply to one that it has. A message
carries the value of `tailGeneration` at the time it was queued, and the server
receives the message whose generation equals `headGeneration`.

The functions that also need the process table are in `KeyOS.Kernel.Services`.
-/

namespace Kernel

open Exec

/-! ## 1. Message permissions -/

structure Range where
  start : Nat
  stop : Nat
deriving DecidableEq

namespace Range

def isEmpty (r : Range) : Bool := decide (r.stop ≤ r.start)

def contains (r : Range) (n : Nat) : Bool := decide (r.start ≤ n ∧ n < r.stop)

/-- The default of a range: `0..0`. -/
def zero : Range := ⟨0, 0⟩

end Range

/-- Number of permission slots in addition to the lower 0..63 message ids. -/
def messagePermissionCount : Nat := 4

structure MessagePermissions where
  mask : BitVec 64
  list : List Range
deriving DecidableEq

namespace MessagePermissions

def default : MessagePermissions := ⟨0#64, List.replicate messagePermissionCount .zero⟩

/-- The first loop of `add`: set the mask bit of every id below 64. -/
def addToMask (mask : BitVec 64) (messages : Range) : BitVec 64 :=
  (List.range' messages.start (min messages.stop 64 - messages.start)).foldl
    (fun m id => m ||| (1#64 <<< id)) mask

/-- The second loop of `add`: merge with the first slot that touches `messages`, or
take the first empty slot, whichever comes first. -/
def addToList (messages : Range) : List Range → Option (List Range)
  | [] => none
  | slot :: rest =>
    if slot.start ≤ messages.stop ∧ messages.start ≤ slot.stop then
      some (⟨min slot.start messages.start, max slot.stop messages.stop⟩ :: rest)
    else if slot.isEmpty then
      some (messages :: rest)
    else
      (addToList messages rest).map (slot :: ·)

def add (messages : Range) : Prog MessagePermissions Panic Error Unit := do
  if messages.isEmpty then
    Prog.throw .invalidArguments
  else
    Prog.modify fun p => { p with mask := addToMask p.mask messages }
    if messages.stop ≤ 64 then
      pure ()
    else
      let p ← Prog.get
      let list ← Prog.okOr .kernelTableFull (addToList messages p.list)
      Prog.modify fun p => { p with list := list }

def isPermitted (p : MessagePermissions) (id : MessageId) : Bool :=
  if id < 64 then p.mask.getLsbD id else p.list.any fun r => r.contains id

end MessagePermissions

/-! ## 2. Queue slots -/

/-- A message buffer in a server's address space, from the moment its message is
queued until the kernel frees it. -/
structure ServerBuffer where
  addr : MemoryAddress
  size : MemorySize
deriving DecidableEq

namespace ServerBuffer

def new (range : MemoryRange) : Except Error ServerBuffer :=
  match NonZeroUsize.new range.addr.get with
  | none => .error .badAddress
  | some addr =>
    match NonZeroUsize.new range.size.get with
    | none => .error .invalidArguments
    | some size => .ok ⟨addr, size⟩

def range (b : ServerBuffer) : MemoryRange := ⟨b.addr, b.size⟩

/-- A range of non-zero words is always a buffer, and it is the same range. -/
@[simp] theorem new_eq (r : MemoryRange) : new r = .ok ⟨r.addr, r.size⟩ := by
  simp only [new, NonZeroUsize.new_get]

end ServerBuffer

/-- What the reply to a slot has to do. -/
inductive WaitingMessage where
  | none
  | borrowedMemory (pid : PID) (tid : TID) (clientAddr : MemoryAddress)
  | movedMemory (pid : PID) (tid : TID) (clientAddr : MemoryAddress) (bufSize : MemorySize)
  | scalarMessage (pid : PID) (tid : TID)
  | scalarMessageTerminated
  | forgetMemory (range : MemoryRange)
deriving DecidableEq

/-- A slot of a server's queue. `idx` is the generation of a message that waits to
be received. -/
inductive QueuedMessage where
  | empty
  | blockingScalarMessage (pid : PID) (tid : UInt8) (idx : UInt8) (msgId : MessageId)
      (args : Nat × Nat × Nat × Nat)
  | scalarMessage (pid : PID) (idx : UInt8) (msgId : MessageId) (args : Nat × Nat × Nat × Nat)
  | memoryMessageSend (pid : PID) (idx : UInt8) (msgId : MessageId) (buf : ServerBuffer)
      (offset valid : Nat)
  | memoryMessageBlockingSend (pid : PID) (tid : UInt8) (idx : UInt8) (msgId : MessageId)
      (clientAddr : MemoryAddress) (buf : ServerBuffer) (offset valid : Nat)
  | memoryMessageROLend (pid : PID) (tid : UInt8) (idx : UInt8) (msgId : MessageId)
      (clientAddr : MemoryAddress) (buf : ServerBuffer) (offset valid : Nat)
  | memoryMessageRWLend (pid : PID) (tid : UInt8) (idx : UInt8) (msgId : MessageId)
      (clientAddr : MemoryAddress) (buf : ServerBuffer) (offset valid : Nat)
  | memoryMessageROLendTerminated (idx : UInt8) (msgId : MessageId) (buf : ServerBuffer)
      (offset valid : Nat)
  | memoryMessageRWLendTerminated (idx : UInt8) (msgId : MessageId) (buf : ServerBuffer)
      (offset valid : Nat)
  | memoryMessageBlockingSendTerminated (idx : UInt8) (msgId : MessageId) (buf : ServerBuffer)
      (offset valid : Nat)
  | blockingScalarTerminated (idx : UInt8) (msgId : MessageId) (args : Nat × Nat × Nat × Nat)
  | waitingReturnMemory (pid : PID) (tid : UInt8) (buf : ServerBuffer) (clientAddr : MemoryAddress)
  | waitingReturnMoved (pid : PID) (tid : UInt8) (clientAddr : MemoryAddress)
      (bufSize : MemorySize)
  | waitingReturnMovedTerminated
  | waitingForget (buf : ServerBuffer)
  | waitingReturnScalar (pid : PID) (tid : UInt8)
  | waitingReturnScalarTerminated
deriving DecidableEq

namespace QueuedMessage

def scalarBody (id : MessageId) (args : Nat × Nat × Nat × Nat) : ScalarMessage :=
  ⟨id, args.1, args.2.1, args.2.2.1, args.2.2.2⟩

def memoryBody (id : MessageId) (buf : ServerBuffer) (offset valid : Nat) : MemoryMessage :=
  ⟨id, buf.range, NonZeroUsize.new offset, NonZeroUsize.new valid⟩

/-- The `match` of `take_next_message` on one slot: the envelope to hand to the
server and what the slot becomes, or `none` when the slot holds no message of
generation `gen`. -/
def deliver (sidx queueIdx : Nat) (gen : UInt8) :
    QueuedMessage → Option (MessageEnvelope × QueuedMessage)
  | .memoryMessageROLend pid tid idx id addr buf offset valid =>
    if idx = gen then
      some (⟨SenderID.toSender ⟨sidx, queueIdx, some pid⟩,
        .borrow (memoryBody id buf offset valid)⟩, .waitingReturnMemory pid tid buf addr)
    else none
  | .memoryMessageRWLend pid tid idx id addr buf offset valid =>
    if idx = gen then
      some (⟨SenderID.toSender ⟨sidx, queueIdx, some pid⟩,
        .mutableBorrow (memoryBody id buf offset valid)⟩, .waitingReturnMemory pid tid buf addr)
    else none
  | .memoryMessageROLendTerminated idx id buf offset valid =>
    if idx = gen then
      some (⟨SenderID.toSender ⟨sidx, queueIdx, some .terminated⟩,
        .borrow (memoryBody id buf offset valid)⟩, .waitingForget buf)
    else none
  | .memoryMessageRWLendTerminated idx id buf offset valid =>
    if idx = gen then
      some (⟨SenderID.toSender ⟨sidx, queueIdx, some .terminated⟩,
        .mutableBorrow (memoryBody id buf offset valid)⟩, .waitingForget buf)
    else none
  | .blockingScalarMessage pid tid idx id args =>
    if idx = gen then
      some (⟨SenderID.toSender ⟨sidx, queueIdx, some pid⟩, .blockingScalar (scalarBody id args)⟩,
        .waitingReturnScalar pid tid)
    else none
  | .memoryMessageSend pid idx id buf offset valid =>
    if idx = gen then
      some (⟨SenderID.toSender ⟨sidx, queueIdx, some pid⟩,
        .move (memoryBody id buf offset valid)⟩, .empty)
    else none
  | .memoryMessageBlockingSend pid tid idx id addr buf offset valid =>
    if idx = gen then
      some (⟨SenderID.toSender ⟨sidx, queueIdx, some pid⟩,
        .blockingMove (memoryBody id buf offset valid)⟩, .waitingReturnMoved pid tid addr buf.size)
    else none
  | .memoryMessageBlockingSendTerminated idx id buf offset valid =>
    if idx = gen then
      some (⟨SenderID.toSender ⟨sidx, queueIdx, some .terminated⟩,
        .blockingMove (memoryBody id buf offset valid)⟩, .waitingReturnMovedTerminated)
    else none
  | .scalarMessage pid idx id args =>
    if idx = gen then
      some (⟨SenderID.toSender ⟨sidx, queueIdx, some pid⟩, .scalar (scalarBody id args)⟩, .empty)
    else none
  | .blockingScalarTerminated idx id args =>
    if idx = gen then
      some (⟨SenderID.toSender ⟨sidx, queueIdx, some .terminated⟩,
        .blockingScalar (scalarBody id args)⟩, .waitingReturnScalarTerminated)
    else none
  | .empty | .waitingReturnMemory .. | .waitingReturnMoved .. | .waitingReturnMovedTerminated
  | .waitingForget .. | .waitingReturnScalar .. | .waitingReturnScalarTerminated => none

/-- The `match` of `discard_messages_for_pid` on one slot. `Scalar` and `Move`
messages stay: their memory is the server's already. -/
def discardFor (pid : PID) : QueuedMessage → QueuedMessage
  | .memoryMessageROLend p t idx id addr buf offset valid =>
    if p = pid then .memoryMessageROLendTerminated idx id buf offset valid
    else .memoryMessageROLend p t idx id addr buf offset valid
  | .memoryMessageRWLend p t idx id addr buf offset valid =>
    if p = pid then .memoryMessageRWLendTerminated idx id buf offset valid
    else .memoryMessageRWLend p t idx id addr buf offset valid
  | .memoryMessageBlockingSend p t idx id addr buf offset valid =>
    if p = pid then .memoryMessageBlockingSendTerminated idx id buf offset valid
    else .memoryMessageBlockingSend p t idx id addr buf offset valid
  | .blockingScalarMessage p t idx id args =>
    if p = pid then .blockingScalarTerminated idx id args
    else .blockingScalarMessage p t idx id args
  | .waitingReturnMemory p t buf addr =>
    if p = pid then .waitingForget buf else .waitingReturnMemory p t buf addr
  | .waitingReturnMoved p t addr size =>
    if p = pid then .waitingReturnMovedTerminated else .waitingReturnMoved p t addr size
  | .waitingReturnScalar p t =>
    if p = pid then .waitingReturnScalarTerminated else .waitingReturnScalar p t
  | other => other

end QueuedMessage

/-! ## 3. Servers -/

/-- The events a server can subscribe to. -/
inductive ServerEvent where
  | newConnection
  | disconnected
deriving DecidableEq

structure Server where
  sid : SID
  /-- The process that owns this server -/
  pid : PID
  /-- Where messages should be inserted -/
  queueHead : Nat
  /-- The index that the server is currently reading from -/
  queueTail : Nat
  headGeneration : UInt8
  tailGeneration : UInt8
  /-- The number of empty queue slots -/
  emptyCount : Nat
  queue : List QueuedMessage
  /-- The threads that wait in `receive`, one bit each -/
  readyThreads : BitVec 32
  defaultPermissions : MessagePermissions
  eventHandlers : ServerEvent → Option MessageId

namespace Server

/-- A server with an empty queue and no thread in `receive`. -/
def fresh (pid : PID) (sid : SID) (slots : Nat) (permissions : MessagePermissions) : Server :=
  let queue := List.replicate slots QueuedMessage.empty
  { sid := sid
    pid := pid
    queueHead := 0
    queueTail := 0
    headGeneration := 0
    tailGeneration := 0
    emptyCount := queue.length
    queue := queue
    readyThreads := 0#32
    defaultPermissions := permissions
    eventHandlers := fun _ => none }

/-- The permissions that `init` builds: none, or the given range. -/
def initialPermissions (messages : Range) : Prog (Option Server) Panic Error MessagePermissions :=
  if messages.isEmpty then pure .default
  else Prog.onLocal .default (MessagePermissions.add messages)

/-- Initialize a server in the given option array, over a backing of `slots` zeroed
slots. -/
def init (pid : PID) (sid : SID) (slots : Nat) (messages : Range) :
    Prog (Option Server) Panic Error Unit := do
  let new ← Prog.get
  if new.isSome then
    Prog.throw .memoryInUse
  else
    let permissions ← initialPermissions messages
    Prog.modify fun _ => some (fresh pid sid slots permissions)

theorem init_ok {pid : PID} {sid : SID} {slots : Nat} {messages : Range} {s : Server}
    (h : init pid sid slots messages none = (.ok (), some s)) :
    ∃ permissions, s = fresh pid sid slots permissions := by
  unfold init at h
  rw [Prog.bind_ok _ (Prog.get_run _)] at h
  simp only [Option.isSome_none, Bool.false_eq_true, if_false, Prog.bind_run] at h
  split at h
  · next p new hp =>
    simp only [Prog.modify_run, Prod.mk.injEq, Option.some.injEq, true_and] at h
    exact ⟨p, h.symm⟩
  · cases h
  · cases h

def isQueueFull (s : Server) : Bool := s.emptyCount == 0

def discardMessagesForPid (pid : PID) (s : Server) : Server :=
  { s with queue := s.queue.map (QueuedMessage.discardFor pid) }

/-- The index after `i`, back to 0 at the end of the queue. -/
def nextIndex (s : Server) (i : Nat) : Nat := if i + 1 ≥ s.queue.length then 0 else i + 1

/-! ### Taking a reply slot -/

/-- The checks on `buf` that `take_waiting_message` makes before it takes the slot. -/
def checkReturnedBuffer (slot : QueuedMessage) : Option MemoryRange → Except Error Unit
  | none => .ok ()
  | some buf =>
    match slot with
    | .waitingReturnMemory _ _ serverBuf _ | .waitingForget serverBuf =>
      if serverBuf.addr.get ≠ buf.addr.get ∨ serverBuf.size.get ≠ buf.size.get then
        .error .badAddress
      else .ok ()
    | _ => .ok ()

/-- What the slot waits for. `none` is a slot that waits for nothing, an error is a
reply without the buffer that the slot needs. -/
def waitingMessage (slot : QueuedMessage) (buf : Option MemoryRange) :
    Except Error (Option WaitingMessage) :=
  match slot with
  | .waitingReturnMemory pid tid _ addr => .ok (some (.borrowedMemory pid tid.toNat addr))
  | .waitingForget serverBuf => .ok (some (.forgetMemory serverBuf.range))
  | .waitingReturnMoved pid tid addr size => .ok (some (.movedMemory pid tid.toNat addr size))
  | .waitingReturnMovedTerminated =>
    match buf with
    | some buf => .ok (some (.forgetMemory buf))
    | none => .error .badAddress
  | .waitingReturnScalar pid tid => .ok (some (.scalarMessage pid tid.toNat))
  | .waitingReturnScalarTerminated => .ok (some .scalarMessageTerminated)
  | _ => .ok none

/-- Free the slot that a reply names and return what it waited for. A slot that waits
for no reply is left alone. -/
def takeWaitingMessage (messageIndex : Nat) (buf : Option MemoryRange) :
    Prog Server Panic Error WaitingMessage := do
  let s ← Prog.get
  let slot ← Prog.okOr .badAddress s.queue[messageIndex]?
  let _ ← Prog.ofExcept (checkReturnedBuffer slot buf)
  let result ← Prog.ofExcept (waitingMessage slot buf)
  match result with
  | none => pure .none
  | some result =>
    Prog.modify fun s =>
      { s with
        queue := s.queue.set messageIndex .empty
        emptyCount := s.emptyCount + 1
        queueTail := s.nextIndex messageIndex }
    pure result

/-! ### Receiving -/

/-- The loop of `take_next_message` from `queueIdx`. It stops where it would come back
to `queueTail`, so `fuel` is the number of slots. -/
def takeNextLoop (sidx : Nat) : Nat → Nat → Server → Option MessageEnvelope × Server
  | 0, _, s => (none, s)
  | fuel + 1, queueIdx, s =>
    match (s.queue[queueIdx]?.getD .empty).deliver sidx queueIdx s.headGeneration with
    | some (result, response) =>
      (some result,
        { s with
          queueTail := s.nextIndex queueIdx
          emptyCount := if response = .empty then s.emptyCount + 1 else s.emptyCount
          queue := s.queue.set queueIdx response
          headGeneration := s.headGeneration + 1 })
    | none =>
      if s.nextIndex queueIdx = s.queueTail then (none, s)
      else takeNextLoop sidx fuel (s.nextIndex queueIdx) s

def takeNextMessage (sidx : Nat) : Prog Server Panic Error (Option MessageEnvelope) := fun s =>
  if s.tailGeneration = s.headGeneration then (.ok none, s)
  else
    match takeNextLoop sidx s.queue.length s.queueTail s with
    | (result, s') => (.ok result, s')

/-! ### Queueing -/

/-- The order in which `find_empty_slot` looks at the slots. -/
def probeOrder (s : Server) : List Nat :=
  List.range' s.queueHead (s.queue.length - s.queueHead) ++ List.range s.queueHead

def findEmptySlot : Prog Server Panic Error Nat := do
  let s ← Prog.get
  let queueIdx ← Prog.okOr .serverQueueFull
    (s.probeOrder.find? fun i => decide (s.queue[i]? = some .empty))
  Prog.modify fun s => { s with queueHead := s.nextIndex queueIdx }
  pure queueIdx

/-- The slot that a queued message fills. A lend or a blocking move needs the address
its memory came from. -/
def queuedMessage (pid : PID) (tid : TID) (idx : UInt8) (message : Message)
    (originalAddress : Option MemoryAddress) : Except Error QueuedMessage :=
  let word (o : Option NonZeroUsize) : Nat := (o.map NonZeroUsize.get).getD 0
  match message with
  | .scalar m => .ok (.scalarMessage pid idx m.id (m.arg1, m.arg2, m.arg3, m.arg4))
  | .blockingScalar m =>
    .ok (.blockingScalarMessage pid (UInt8.ofNat tid) idx m.id (m.arg1, m.arg2, m.arg3, m.arg4))
  | .move m => do
    let buf ← ServerBuffer.new m.buf
    .ok (.memoryMessageSend pid idx m.id buf (word m.offset) (word m.valid))
  | .blockingMove m => do
    let addr ← originalAddress.elim (.error .invalidArguments) .ok
    let buf ← ServerBuffer.new m.buf
    .ok (.memoryMessageBlockingSend pid (UInt8.ofNat tid) idx m.id addr buf (word m.offset)
      (word m.valid))
  | .mutableBorrow m => do
    let addr ← originalAddress.elim (.error .invalidArguments) .ok
    let buf ← ServerBuffer.new m.buf
    .ok (.memoryMessageRWLend pid (UInt8.ofNat tid) idx m.id addr buf (word m.offset)
      (word m.valid))
  | .borrow m => do
    let addr ← originalAddress.elim (.error .invalidArguments) .ok
    let buf ← ServerBuffer.new m.buf
    .ok (.memoryMessageROLend pid (UInt8.ofNat tid) idx m.id addr buf (word m.offset)
      (word m.valid))

/-- Add the given message to this server's queue. -/
def queueMessage (pid : PID) (tid : TID) (message : Message)
    (originalAddress : Option MemoryAddress) : Prog Server Panic Error Nat := do
  let queueIdx ← findEmptySlot
  let idx ← Prog.gets tailGeneration
  let slot ← Prog.ofExcept (queuedMessage pid tid idx message originalAddress)
  Prog.modify fun s => { s with queue := s.queue.set queueIdx slot }
  let s ← Prog.get
  Prog.require .underflow (decide (0 < s.emptyCount))
  Prog.modify fun s =>
    { s with emptyCount := s.emptyCount - 1, tailGeneration := s.tailGeneration + 1 }
  let s ← Prog.get
  Prog.require .generationsMeet (decide (s.tailGeneration ≠ s.headGeneration))
  pure queueIdx

/-- The slot that remembers a message which is being handed over right now. -/
def queuedResponse (pid : PID) (tid : TID) (message : Message)
    (clientAddress : Option MemoryAddress) : Except Error QueuedMessage :=
  match message with
  | .scalar _ | .blockingScalar _ => .ok (.waitingReturnScalar pid (UInt8.ofNat tid))
  | .move m => do
    let buf ← ServerBuffer.new m.buf
    .ok (.waitingForget buf)
  | .blockingMove m => do
    let addr ← clientAddress.elim (.error .invalidArguments) .ok
    let size ← (NonZeroUsize.new m.buf.size.get).elim (.error .invalidArguments) .ok
    .ok (.waitingReturnMoved pid (UInt8.ofNat tid) addr size)
  | .mutableBorrow m | .borrow m => do
    let addr ← clientAddress.elim (.error .invalidArguments) .ok
    let buf ← ServerBuffer.new m.buf
    .ok (.waitingReturnMemory pid (UInt8.ofNat tid) buf addr)

/-- Directly queue the response to the message, because we are servicing it right now. -/
def queueResponse (pid : PID) (tid : TID) (message : Message)
    (clientAddress : Option MemoryAddress) : Prog Server Panic Error Nat := do
  let queueIdx ← findEmptySlot
  let slot ← Prog.ofExcept (queuedResponse pid tid message clientAddress)
  Prog.modify fun s => { s with queue := s.queue.set queueIdx slot }
  let s ← Prog.get
  Prog.require .underflow (decide (0 < s.emptyCount))
  Prog.modify fun s => { s with emptyCount := s.emptyCount - 1 }
  pure queueIdx

/-! ### Waiting threads and event handlers -/

def threadBit (tid : TID) : BitVec 32 := 1#32 <<< tid

/-- Take the lowest thread that waits in `receive`. -/
def takeAvailableThread : Prog Server Panic Error (Option TID) := do
  let s ← Prog.get
  if s.readyThreads = 0#32 then
    pure none
  else
    let tid ← Prog.expect .noFreeContext
      ((List.range 32).find? fun n => s.readyThreads.getLsbD n)
    Prog.modify fun s => { s with readyThreads := s.readyThreads &&& ~~~(threadBit tid) }
    pure (some tid)

end Server

end Kernel
