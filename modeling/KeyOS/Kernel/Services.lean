import KeyOS.Kernel.Scheduler
import KeyOS.Kernel.ServerQueue

/-!
# Connections to servers

`connect_to_server` and `disconnect_from_server`, with the events that they send to the
server. An event is a scalar message from the current process: a thread that waits in
`receive` takes it, or else the queue of the server does.

`accepted` is a ghost: every message that a server accepted, in order.
-/

namespace Kernel

open Exec

/-- The places where these functions stop the machine. -/
inductive ServicesPanic where
  | kernel (p : Panic)
  /-- "server couldn't be located" -/
  | noServer
  /-- `current_process_mut().unwrap()` and "couldn't restore previous process" -/
  | noProcess
  /-- "sender is not parked on request" -/
  | notParked
deriving DecidableEq

/-! ## 1. State -/

/-- A send that waits for the permissions broker. An entry that is not valid only
reserves its slot. -/
structure PermissionRequest where
  senderPid : PID
  senderTid : TID
  cid : CID
  valid : Bool
deriving DecidableEq

def MAX_SERVER_COUNT : Nat := 128

/-- A message as its server got it. -/
structure Accepted where
  sidx : Nat
  sender : PID
  message : Message
deriving DecidableEq

structure Services where
  /-- `current_pid()` -/
  current : PID
  table : ProcessTable
  servers : Vector (Option Server) MAX_SERVER_COUNT
  permissionRequests : List (Option PermissionRequest)
  accepted : List Accepted

namespace Services

def process (s : Services) (pid : PID) : Option Process := s.table.processes pid

def serverFromSidx (s : Services) (sidx : Nat) : Option Server := s.servers[sidx]?.join

/-- The connection table of a process that exists. -/
def connectionMap (s : Services) (pid : PID) : Option (List ConnectionSlot) :=
  (s.process pid).map Process.connectionMap

/-- Run `x` on the process table. -/
def onTable {α : Type} (x : Prog ProcessTable Panic Error α) :
    Prog Services ServicesPanic Error α := fun s =>
  match x s.table with
  | (.ok a, table) => (.ok a, { s with table := table })
  | (.err e, table) => (.err e, { s with table := table })
  | (.panic p, table) => (.panic (.kernel p), { s with table := table })

def putProcess (s : Services) (pid : PID) (p : Process) : Services :=
  { s with table := s.table.setProcess pid (some p) }

/-- `process_mut(pid)?` and an operation on the process. -/
def onProcess {α : Type} (pid : PID) (x : Prog Process Panic Error α) :
    Prog Services ServicesPanic Error α := fun s =>
  match s.process pid with
  | none => (.err .processNotFound, s)
  | some p =>
    match x p with
    | (.ok a, p) => (.ok a, s.putProcess pid p)
    | (.err e, p) => (.err e, s.putProcess pid p)
    | (.panic e, p) => (.panic (.kernel e), s.putProcess pid p)

/-- `server_from_sidx_mut(sidx).expect(..)` and an operation on the server. -/
def onServer {α : Type} (sidx : Nat) (x : Prog Server Panic Error α) :
    Prog Services ServicesPanic Error α := fun s =>
  match s.serverFromSidx sidx with
  | none => (.panic .noServer, s)
  | some server =>
    match x server with
    | (.ok a, server) => (.ok a, { s with servers := s.servers.setIfInBounds sidx (some server) })
    | (.err e, server) => (.err e, { s with servers := s.servers.setIfInBounds sidx (some server) })
    | (.panic p, server) =>
      (.panic (.kernel p), { s with servers := s.servers.setIfInBounds sidx (some server) })

/-! ## 2. Events -/

/-- The ghost update of a message that a server accepts. -/
def accept (sidx : Nat) (message : Message) : Prog Services ServicesPanic Error Unit :=
  Prog.modify fun s => { s with accepted := s.accepted ++ [⟨sidx, s.current, message⟩] }

/-- `queue_server_message`, without the address of any memory. -/
def queueServerMessage (sidx : Nat) (pid : PID) (tid : TID) (message : Message) :
    Prog Services ServicesPanic Error Unit := do
  let s ← Prog.get
  let server ← Prog.okOr .serverNotFound (s.serverFromSidx sidx)
  let _ ← Prog.okOr .processNotFound (s.process server.pid)
  let _ ← onServer sidx (Server.queueMessage pid tid message none)
  let _ ← Prog.expect .noProcess (s.process s.current)
  accept sidx message

/-- `process_mut(pid).unwrap().set_thread_state(tid, ThreadState::Ready)` -/
def wakeThread (pid : PID) (tid : TID) : Prog Services ServicesPanic Error Unit :=
  (onTable (ProcessTable.setThreadState ⟨pid, tid⟩ .ready)).unwrap .noProcess

/-- `send_message_inner` for a scalar message, which moves no memory and does not block. -/
def sendScalarInner (tid : TID) (sidx : Nat) (message : ScalarMessage) :
    Prog Services ServicesPanic Error Unit := do
  let s ← Prog.get
  let server ← Prog.expect .noServer (s.serverFromSidx sidx)
  if server.isQueueFull then
    Prog.throw .serverQueueFull
  else do
    match ← onServer sidx Server.takeAvailableThread with
    | some serverTid => do
      wakeThread server.pid serverTid
      accept sidx (.scalar message)
    | none => queueServerMessage sidx s.current tid (.scalar message)

def sendServerEvent (sidx : Nat) (event : ServerEvent) :
    Prog Services ServicesPanic Error Unit := do
  let s ← Prog.get
  match s.serverFromSidx sidx with
  | none => pure ()
  | some server =>
    match server.eventHandlers event with
    | none => pure ()
    | some id => sendScalarInner 0 sidx ⟨id, 0, 0, 0, 0⟩

/-! ## 3. Permission requests -/

/-- The first valid request that satisfies `pred`, made invalid. -/
def tombstoneNext (pred : PermissionRequest → Bool) (id : Nat) :
    List (Option PermissionRequest) →
      Option ((PID × TID × Nat) × List (Option PermissionRequest))
  | [] => none
  | some request :: rest =>
    if request.valid && pred request then
      some ((request.senderPid, request.senderTid, id), some { request with valid := false } :: rest)
    else
      (tombstoneNext pred (id + 1) rest).map fun (found, rest) => (found, some request :: rest)
  | none :: rest =>
    (tombstoneNext pred (id + 1) rest).map fun (found, rest) => (found, none :: rest)

/-- Wake a sender that waits on a request which is gone. -/
def failPermissionRequest (senderPid : PID) (senderTid : TID) (requestId : Nat) :
    Prog Services ServicesPanic Error Unit := do
  let s ← Prog.get
  Prog.require .notParked
    (s.table.threadState ⟨senderPid, senderTid⟩ == .retryPermission requestId)
  wakeThread senderPid senderTid

/-- The `while let` over `tombstone_next`. Every round makes a request invalid, so that
`fuel` is the number of slots. -/
def failRequests (pred : PermissionRequest → Bool) : Nat → Prog Services ServicesPanic Error Unit
  | 0 => pure ()
  | fuel + 1 => do
    let s ← Prog.get
    match tombstoneNext pred 0 s.permissionRequests with
    | none => pure ()
    | some ((pid, tid, id), requests) => do
      Prog.modify fun s => { s with permissionRequests := requests }
      failPermissionRequest pid tid id
      failRequests pred fuel

/-! ## 4. Connecting and disconnecting -/

/-- The index of the server with the address. -/
def position (s : Services) (sid : SID) : Option Nat :=
  s.servers.toList.findIdx? fun server => server.any fun server => server.sid == sid

def connectToServer (pid : PID) (sid : SID) : Prog Services ServicesPanic Error CID := do
  let s ← Prog.get
  let sidx ← Prog.okOr .serverNotFound (s.position sid)
  let server ← Prog.expect .noServer (s.serverFromSidx sidx)
  let (cid, newConnection) ← onProcess pid (Process.addConnection sidx server.defaultPermissions)
  Prog.onlyIf (newConnection = true) (sendServerEvent sidx .newConnection)
  pure cid

/-- Drop the last reference to a connection. -/
def dropConnection (cid : CID) (cidx sidx generation : Nat) :
    Prog Services ServicesPanic Error Unit := do
  let s ← Prog.get
  onProcess s.current (Prog.modify (Process.setSlot cidx (.freeOrCondemn generation)))
  -- A sender that waits for a permission on the connection is released with an error
  failRequests (fun request => request.senderPid == s.current && request.cid == cid)
    s.permissionRequests.length
  sendServerEvent sidx .disconnected

def disconnectFromServer (cid : CID) : Prog Services ServicesPanic Error Unit := do
  let s ← Prog.get
  let p ← Prog.expect .noProcess (s.process s.current)
  let (cidx, slot) ← Prog.ofExcept (p.connection cid)
  match slot with
  | .free _ | .condemned => Prog.throw .serverNotFound
  | .tombstone refcount generation =>
    onProcess s.current (Prog.modify (Process.setSlot cidx
      (if 1 < refcount then .tombstone (refcount - 1) generation else .freeOrCondemn generation)))
  | .connected sidx refcount generation permissions =>
    if 1 < refcount then
      onProcess s.current (Prog.modify (Process.setSlot cidx
        (.connected sidx (refcount - 1) generation permissions)))
    else
      dropConnection cid cidx sidx.toNat generation

end Services

end Kernel
