import KeyOS.Kernel.Server

/-!
# Processes

The part of a process that the scheduler and the message calls read and write: the
states and priorities of its threads, its event handlers, its memory permissions and
its connections. Arrays indexed by a thread ID are functions of it.

A CID is the index of a connection slot and the generation of the slot, so that it
outlives neither.
-/

namespace Kernel

open Exec

/-! ## 1. Threads -/

def INITIAL_TID : TID := 1

def IRQ_TID : TID := 0

inductive ThreadState where
  /-- Unallocated -/
  | free
  /-- Either running or ready to run immediately -/
  | ready
  /-- Waiting on `join_thread` -/
  | waitJoin (tid : TID)
  /-- Waiting on a blocking `send` to return -/
  | waitBlocking (sidx : Nat)
  /-- Waiting on a `receive` -/
  | waitReceive (sidx : Nat)
  | waitFutex (addr : Nat)
  /-- Retrying a `connect` because the server does not exist yet -/
  | retryConnect (sidHash : Nat)
  /-- Retrying a `send` because the server's queue was full -/
  | retryQueueFull (sidx : Nat)
  /-- Owner of an in-flight page-zeroing -/
  | waitMapZero
  /-- Waiting for the zeroing channel to become free -/
  | retryMapZero
  /-- Waiting for the permissions broker to resolve a blocked send -/
  | retryPermission (requestId : Nat)
deriving DecidableEq

inductive ThreadPriority where
  | idle
  | appBackground0
  | appBackground1
  | appDefault
  | appHigh0
  | appHigh1
  | system0
  | system1
  | system2
  | system3
  | system4
  | system5
  | system6
  | system7
  | system8
  | highest
deriving DecidableEq

namespace ThreadPriority

/-- `priority as usize` -/
def index : ThreadPriority → Nat
  | idle => 0
  | appBackground0 => 1
  | appBackground1 => 2
  | appDefault => 3
  | appHigh0 => 4
  | appHigh1 => 5
  | system0 => 6
  | system1 => 7
  | system2 => 8
  | system3 => 9
  | system4 => 10
  | system5 => 11
  | system6 => 12
  | system7 => 13
  | system8 => 14
  | highest => 15

def ofIndex : Nat → ThreadPriority
  | 0 => idle
  | 1 => appBackground0
  | 2 => appBackground1
  | 3 => appDefault
  | 4 => appHigh0
  | 5 => appHigh1
  | 6 => system0
  | 7 => system1
  | 8 => system2
  | 9 => system3
  | 10 => system4
  | 11 => system5
  | 12 => system6
  | 13 => system7
  | 14 => system8
  | 15 => highest
  | _ => appDefault

@[simp] theorem ofIndex_index (p : ThreadPriority) : ofIndex p.index = p := by
  cases p <;> rfl

theorem index_inj {p q : ThreadPriority} (h : p.index = q.index) : p = q := by
  rw [← ofIndex_index p, h, ofIndex_index]

end ThreadPriority

/-! ## 2. Connections -/

abbrev CID := Nat

def maxConnections : Nat := 64

def CID_INDEX_BITS : Nat := 8

def CID_INDEX_MASK : Nat := (1 <<< CID_INDEX_BITS) - 1

def CID_INDEX_BIAS : Nat := 2

def MAX_GENERATION : Nat := ((2 ^ 32 - 1) >>> CID_INDEX_BITS) - 1

/-- A slot in the connection table of a process. -/
inductive ConnectionSlot where
  | free (generation : Nat)
  | tombstone (refcount generation : Nat)
  | connected (sidx : UInt8) (refcount generation : Nat) (permissions : MessagePermissions)
  | condemned
deriving DecidableEq

namespace ConnectionSlot

/-- The state a slot returns to once its last reference is dropped. -/
def freeOrCondemn (generation : Nat) : ConnectionSlot :=
  if MAX_GENERATION ≤ generation then .condemned else .free generation

/-- The generation of a slot that a CID can name. -/
def liveGeneration : ConnectionSlot → Option Nat
  | .connected _ _ generation _ | .tombstone _ generation => some generation
  | .free _ | .condemned => none

/-- The server that a slot is connected to. -/
def connectedTo : ConnectionSlot → Option UInt8
  | .connected sidx _ _ _ => some sidx
  | .tombstone _ _ | .free _ | .condemned => none

end ConnectionSlot

def packCid (cidx generation : Nat) : CID :=
  (generation <<< CID_INDEX_BITS) % 2 ^ 32 ||| (cidx + CID_INDEX_BIAS)

def unpackCid (cid : CID) : Except Error (Nat × Nat) :=
  let index := cid &&& CID_INDEX_MASK
  if index < CID_INDEX_BIAS then .error .serverNotFound
  else .ok (index - CID_INDEX_BIAS, cid >>> CID_INDEX_BITS)

/-! ## 3. Processes -/

inductive SystemEvent where
  /-- A process launched by the current one has exited -/
  | childTerminated
  /-- A connection was closed from the other side -/
  | disconnected
  /-- The number of free pages went below the threshold -/
  | lowFreeMemory
  /-- A process tried to send a message that its connection does not permit -/
  | permissionRequest
deriving DecidableEq

structure EventHandler where
  sid : SID
  messageId : MessageId
deriving DecidableEq

structure Process where
  /-- This process' PID, its index in the process table -/
  pid : PID
  /-- The process that created this process -/
  ppid : Option PID
  threads : TID → ThreadState
  threadPriorities : TID → ThreadPriority
  eventHandlers : SystemEvent → Option EventHandler
  /-- The physical addresses outside RAM that the process may map -/
  memoryPermissions : List Range
  connectionMap : List ConnectionSlot

namespace Process

def memoryPermissionCount : Nat := 8

def new (pid ppid : PID) : Process :=
  { pid := pid
    ppid := some ppid
    threads := fun _ => .free
    threadPriorities := fun _ => .appDefault
    eventHandlers := fun _ => none
    memoryPermissions := List.replicate memoryPermissionCount .zero
    connectionMap := List.replicate maxConnections (.free 0) }

/-- The loop of `tombstone_connection_by_sidx`, from index `cidx` on. -/
def tombstoneFrom (deadSidx : UInt8) (cidx : Nat) :
    List ConnectionSlot → Option CID × List ConnectionSlot
  | [] => (none, [])
  | slot :: rest =>
    match slot with
    | .connected sidx refcount generation _ =>
      if sidx = deadSidx then
        (some (packCid cidx generation), .tombstone refcount generation :: rest)
      else
        let (cid, rest) := tombstoneFrom deadSidx (cidx + 1) rest
        (cid, slot :: rest)
    | _ =>
      let (cid, rest) := tombstoneFrom deadSidx (cidx + 1) rest
      (cid, slot :: rest)

def tombstoneConnectionBySidx (deadSidx : Nat) (p : Process) : Option CID × Process :=
  let (cid, connectionMap) := tombstoneFrom (UInt8.ofNat deadSidx) 0 p.connectionMap
  (cid, { p with connectionMap := connectionMap })

/-- The first slot that is connected to `sidx`: its index, count, generation and
permissions. -/
def findConnected (sidx : UInt8) (p : Process) : Option (Nat × Nat × Nat × MessagePermissions) :=
  p.connectionMap.zipIdx.findSome? fun (slot, cidx) => match slot with
    | .connected sidxOther refcount generation permissions =>
      if sidxOther = sidx then some (cidx, refcount, generation, permissions) else none
    | _ => none

/-- The first free slot: its index and generation. -/
def findFree (p : Process) : Option (Nat × Nat) :=
  p.connectionMap.zipIdx.findSome? fun (slot, cidx) => match slot with
    | .free generation => some (cidx, generation)
    | _ => none

def setSlot (cidx : Nat) (slot : ConnectionSlot) (p : Process) : Process :=
  { p with connectionMap := p.connectionMap.set cidx slot }

/-- Returns the CID, and whether a new connection was made. -/
def addConnection (sidx : Nat) (permissions : MessagePermissions) :
    Prog Process Panic Error (CID × Bool) := do
  let p ← Prog.get
  match p.findConnected (UInt8.ofNat sidx) with
  | some (cidx, refcount, generation, permissions) =>
    if refcount + 1 < 2 ^ 32 then
      Prog.modify (setSlot cidx
        (.connected (UInt8.ofNat sidx) (refcount + 1) generation permissions))
      pure (packCid cidx generation, false)
    else
      Prog.throw .kernelTableFull
  | none =>
    match p.findFree with
    | some (cidx, generation) =>
      Prog.modify (setSlot cidx
        (.connected (UInt8.ofNat sidx) 1 (generation + 1) permissions))
      pure (packCid cidx (generation + 1), true)
    | none => Prog.throw .kernelTableFull

/-- The slot that a CID names, with its index. -/
def connection (cid : CID) (p : Process) : Except Error (Nat × ConnectionSlot) := do
  let (cidx, generation) ← unpackCid cid
  match p.connectionMap[cidx]? with
  | some slot =>
    if slot.liveGeneration = some generation then .ok (cidx, slot) else .error .serverNotFound
  | none => .error .serverNotFound

end Process

end Kernel
