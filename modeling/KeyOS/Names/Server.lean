import KeyOS.Kernel.Types
import KeyOS.Lib.ByteStream
import KeyOS.Manifest.Manifest

/-!
# The name server

Processes register the servers they own under a name and connect to servers by name. The
manifests of the apps say who may register a name and which messages a connection may carry.
-/

namespace Names

open Manifests
open Kernel (PID)

/-! ## 1. Messages -/

inductive Error where
  | memoryInUse
  | serverNotFound
  | accessDenied
  | processNotFound
  | invalidArguments
  | invalidString
  | parseError
  /-- What else the kernel answers. -/
  | kernel (code : Nat)
deriving DecidableEq, Repr

abbrev SID := List UInt32

abbrev CID := Nat

abbrev MessageId := Nat

/-- A little-endian `u32`. -/
def u32 (bytes : List UInt8) (i : Nat) : UInt32 :=
  UInt32.ofNat (ByteStream.ofLe ((bytes.drop (4 * i)).take 4))

/-- Words of a short string, of which an incomplete last word counts as zero. -/
def SID.fromBytes (b : List UInt8) : Option SID :=
  if b.length > 16 then none
  else some ((List.range 4).map fun i => if 4 * i + 4 ≤ b.length then u32 b i else 0)

structure MemoryMessage where
  buf : List UInt8
  /-- `Option<NonZeroUsize>` -/
  valid : Option Nat
deriving DecidableEq, Repr

inductive Body where
  | mutableBorrow (mem : MemoryMessage)
  | borrow (mem : MemoryMessage)
  | move (mem : MemoryMessage)
  | blockingMove (mem : MemoryMessage)
  | scalar
  | blockingScalar
deriving DecidableEq, Repr

namespace Body

def isBlocking : Body → Bool
  | mutableBorrow _ => true
  | borrow _ => true
  | blockingScalar => true
  | blockingMove _ => true
  | move _ => false
  | scalar => false

def memoryMessage : Body → Option MemoryMessage
  | mutableBorrow mem => some mem
  | borrow mem => some mem
  | move mem => some mem
  | blockingMove mem => some mem
  | scalar => none
  | blockingScalar => none

def hasMemory (body : Body) : Bool := body.memoryMessage.isSome

/-- `memory_message_mut`, which an immutable borrow does not give. -/
def memoryMessageMut : Body → Option MemoryMessage
  | mutableBorrow mem => some mem
  | borrow _ => none
  | move mem => some mem
  | blockingMove mem => some mem
  | scalar => none
  | blockingScalar => none

end Body

structure MessageEnvelope where
  /-- Which message the answer belongs to. -/
  sender : Nat
  /-- `sender.pid()` -/
  pid : Option PID
  /-- `body.id()` -/
  id : Nat
  body : Body
deriving DecidableEq

def NAME_MAX_LENGTH : Nat := 64

def sidFromMsg (env : MessageEnvelope) : Except Error SID :=
  match env.body.memoryMessage with
  | none => .error .invalidArguments
  | some msg =>
    if msg.buf.length / 4 < 4 then .error .invalidArguments
    else .ok ((List.range 4).map (u32 msg.buf))

def nameFromMsg (env : MessageEnvelope) (offset : Nat) : Except Error String :=
  match env.body.memoryMessage with
  | none => .error .invalidArguments
  | some msg =>
    match msg.valid with
    | none => .error .invalidString
    | some validBytes =>
      if validBytes > NAME_MAX_LENGTH then .error .invalidString
      else if offset + validBytes > msg.buf.length then .error .invalidString
      else
        match String.fromUTF8? ⟨((msg.buf.drop offset).take validBytes).toArray⟩ with
        | none => .error .invalidString
        | some name => .ok name

inductive Opcode where
  | register
  | addManifest
  | removeManifest
  | lookupNameBySid
  | blockingConnect
  | tryConnect
deriving DecidableEq, Repr

/-- `FromPrimitive::from_usize` -/
def Opcode.fromUsize : Nat → Option Opcode
  | 0 => some register
  | 1 => some addManifest
  | 2 => some removeManifest
  | 3 => some lookupNameBySid
  | 6 => some blockingConnect
  | 7 => some tryConnect
  | _ => none

def Opcode.toUsize : Opcode → Nat
  | register => 0
  | addManifest => 1
  | removeManifest => 2
  | lookupNameBySid => 3
  | blockingConnect => 6
  | tryConnect => 7

def PROCESS_DISCONNECTED_MESSAGE_ID : Nat := 8

/-- What the kernel answers to the calls of one request. -/
structure KernelCalls where
  getAppId : PID → Except Error (Option AppId)
  getServerOwner : SID → Except Error PID
  connectForProcess : PID → SID → Except Error CID
  allowMessagesOnConnection : PID → CID → MessageId → Except Error Unit
  returnScalar : MessageEnvelope → Except Error Unit

/-! ## 2. Manifests -/

structure NameServer where
  waitingConnections : List MessageEnvelope
  nameTable : String → Option SID
  registeredNamesByPid : PID → Option (Finset String)
  messageNameToId : String × String → Option (List MessageId)
  serverOwners : String → Option AppId
  registerPermissions : AppId → Option (Finset String)
  connectPermissions : AppId → Option (String → Option (List MessageId))

namespace NameServer

/-- `NameServer::default()` -/
def default : NameServer :=
  ⟨[], fun _ => none, fun _ => none, fun _ => none, fun _ => none, fun _ => none, fun _ => none⟩

/-- The name has another owner, or is in the table without being owned by the app. -/
def Collides (s : NameServer) (appId : AppId) (name : String) : Prop :=
  (∃ owner, s.serverOwners name = some owner ∧ owner ≠ appId) ∨
    (s.nameTable name).isSome ∧ s.serverOwners name ≠ some appId

instance (s : NameServer) (appId : AppId) (name : String) : Decidable (s.Collides appId name) :=
  have : Decidable (∃ owner, s.serverOwners name = some owner ∧ owner ≠ appId) :=
    match h : s.serverOwners name with
    | none => .isFalse (by rintro ⟨owner, ho, -⟩; cases ho)
    | some owner =>
      if hne : owner ≠ appId then .isTrue ⟨owner, rfl, hne⟩
      else .isFalse (by rintro ⟨o, ho, hne'⟩; cases ho; exact hne hne')
  inferInstanceAs (Decidable (_ ∨ _))

def rejectServerNameCollisions (s : NameServer) (appId : AppId) (serverNames : Finset String) :
    Except Error Unit :=
  if ∃ name ∈ serverNames, s.Collides appId name then .error .memoryInUse else .ok ()

/-- The names that the manifest or the one before it of the same app declares. -/
def Replaced (s : NameServer) (manifest : Manifest) (name : String) : Prop :=
  s.serverOwners name = some manifest.appId ∨ name ∈ manifest.serverNames

instance (s : NameServer) (manifest : Manifest) (name : String) :
    Decidable (s.Replaced manifest name) := inferInstanceAs (Decidable (_ ∨ _))

/-- The binding of a fixed SID, unless its text is too long for one. -/
def fixedSid (manifest : Manifest) (name : String) : Option SID :=
  manifest.fixedSids.get? name >>= fun sidStr => SID.fromBytes sidStr.toUTF8.data.toList

def processManifestServers (s : NameServer) (manifest : Manifest) : Except Error NameServer := do
  s.rejectServerNameCollisions manifest.appId manifest.serverNames
  return { s with
    messageNameToId := fun key =>
      match manifest.message? key.1 key.2 with
      | some message => some [message.id]
      | none => if s.Replaced manifest key.1 then none else s.messageNameToId key
    serverOwners := fun name =>
      if name ∈ manifest.serverNames then some manifest.appId
      else if s.serverOwners name = some manifest.appId then none
      else s.serverOwners name
    nameTable := fun name => (fixedSid manifest name).or (s.nameTable name)
    registerPermissions := Function.update s.registerPermissions manifest.appId
      (some manifest.servers.keys.toFinset) }

/-- The inner loop of `process_manifest_permissions`. -/
def serverPermissions (s : NameServer) (serverName : String) :
    (messages : List String) → (serverPermissions : List MessageId) → Except Error (List MessageId)
  | [], permissions => .ok permissions
  | messageName :: messages, permissions =>
    match s.messageNameToId (serverName, messageName) with
    | none => .error .serverNotFound
    | some messageId => s.serverPermissions serverName messages (permissions ++ messageId)

def appPermissions (s : NameServer) :
    (permissions : List (String × SortedSet String)) →
    (appPermissions : String → Option (List MessageId)) →
    Except Error (String → Option (List MessageId))
  | [], appPermissions => .ok appPermissions
  | (serverName, messages) :: rest, appPermissions => do
    let permissions ← s.serverPermissions serverName messages.elements
      ((appPermissions serverName).getD [])
    s.appPermissions rest (Function.update appPermissions serverName
      (some (permissions.insertionSort (· ≤ ·))))

def processManifestPermissions (s : NameServer) (manifest : Manifest) :
    Except Error NameServer := do
  let appPermissions ← s.appPermissions manifest.permissions.entries fun _ => none
  return { s with
    connectPermissions := Function.update s.connectPermissions manifest.appId (some appPermissions) }

/-- The staged copy has no waiting connections, and takes them from the server when it replaces
it. -/
def processManifestUpdate (s : NameServer) (manifest : Manifest) : Except Error NameServer := do
  let staged ← { s with waitingConnections := [] }.processManifestServers manifest
  let staged ← staged.processManifestPermissions manifest
  return { staged with
    waitingConnections := s.waitingConnections
    registeredNamesByPid := s.registeredNamesByPid }

/-- Every process identifier. -/
def pids : List PID := (List.range 256).filterMap fun n => PID.new (UInt8.ofNat n)

/-- Some process has registered the name. -/
def isRegistered (s : NameServer) (name : String) : Bool :=
  pids.any fun pid => match s.registeredNamesByPid pid with
    | none => false
    | some names => name ∈ names

def removeManifest (s : NameServer) (appId : AppId) : NameServer :=
  { s with
    registerPermissions := Function.update s.registerPermissions appId none
    connectPermissions := Function.update s.connectPermissions appId none
    serverOwners := fun name =>
      if s.serverOwners name = some appId then none else s.serverOwners name
    messageNameToId := fun key =>
      if s.serverOwners key.1 = some appId then none else s.messageNameToId key
    nameTable := fun name =>
      if s.serverOwners name = some appId ∧ ¬ s.isRegistered name then none
      else s.nameTable name }

/-- The two loops of `process_system_manifests`; what either refuses stops the machine. -/
def processSystemManifests (s : NameServer) (manifests : List Manifest) :
    Except Error NameServer := do
  let s ← manifests.foldlM processManifestServers s
  manifests.foldlM processManifestPermissions s

end NameServer

/-! ## 3. Requests -/

/-- A message id that a connection of the process may carry. -/
structure Grant where
  pid : PID
  appId : AppId
  serverName : String
  cid : CID
  messageId : MessageId
deriving DecidableEq

inductive ConnectSuccess where
  | connected (cid : CID) (granted : List Grant)
  | wait
deriving DecidableEq

/-- What the sender of a blocking message is answered. -/
inductive Response where
  | error (e : Error)
  | connected (cid : CID)
  | success
  | name (name : String)
  | scalar (value : Nat)
  /-- The message is dropped, and its memory returns as it was lent. -/
  | returned
deriving DecidableEq

/-- What a request brings about outside of the tables. -/
inductive Event where
  | answered (msg : MessageEnvelope) (response : Response)
  | granted (grant : Grant)
  /-- The kernel names `owner` as the owner of the SID. -/
  | registered (pid : PID) (appId : AppId) (name : String) (sid : SID) (owner : PID)
  | accepted (manifest : Manifest)
  | removed (appId : AppId)

inductive Panic where
  /-- `memory_message_mut().unwrap()` of a response -/
  | notWritable
  /-- `return_scalar(..).unwrap()` -/
  | scalarNotReturned
  /-- The panic in `wake_waiting_connections`. -/
  | waitsAgain
deriving DecidableEq, Repr

/-- `respond_*`: the answer is written into the memory of the message. -/
def respond (msg : MessageEnvelope) (response : Response) : Except Panic Event :=
  match msg.body.memoryMessageMut with
  | none => .error .notWritable
  | some _ => .ok (.answered msg response)

def pidOf (msg : MessageEnvelope) : Except Error PID :=
  match msg.pid with
  | none => .error .processNotFound
  | some pid => .ok pid

def appOf (kernel : KernelCalls) (pid : PID) : Except Error AppId := do
  match ← kernel.getAppId pid with
  | none => throw .processNotFound
  | some appId => return appId

namespace NameServer

/-- The permissions of a connection: those of the manifest, or none at all to a server that the
app may register itself. -/
def connectionPermissions (s : NameServer) (appId : AppId) (serverName : String) :
    Option (List MessageId) :=
  ((s.connectPermissions appId).bind (· serverName)).or
    (match s.registerPermissions appId with
      | none => none
      | some names => if serverName ∈ names then some [] else none)

def connectImpl (s : NameServer) (kernel : KernelCalls) (msg : MessageEnvelope) :
    Except Error ConnectSuccess := do
  let pid ← pidOf msg
  let appId ← appOf kernel pid
  let serverName ← nameFromMsg msg 0
  match s.nameTable serverName with
  | none => return .wait
  | some serverSid =>
    match s.connectionPermissions appId serverName with
    | none => throw .accessDenied
    | some connectionPermissions =>
      let cid ← kernel.connectForProcess pid serverSid
      let granted := connectionPermissions.filter fun id =>
        (kernel.allowMessagesOnConnection pid cid id).isOk
      return .connected cid (granted.map fun id => ⟨pid, appId, serverName, cid, id⟩)

/-- The server after the registration, and who registered what. -/
def registerImpl (s : NameServer) (kernel : KernelCalls) (msg : MessageEnvelope) :
    Except Error (NameServer × String × Event) := do
  let sid ← sidFromMsg msg
  let serverName ← nameFromMsg msg 16
  let pid ← pidOf msg
  let appId ← appOf kernel pid
  match s.registerPermissions appId with
  | none => throw .accessDenied
  | some names =>
    if serverName ∉ names then throw .accessDenied
    else match kernel.getServerOwner sid with
    | .error _ => throw .accessDenied
    | .ok owner =>
      if owner ≠ pid then throw .accessDenied
      else if (s.nameTable serverName).isSome then throw .memoryInUse
      else return ({ s with
        nameTable := Function.update s.nameTable serverName (some sid)
        registeredNamesByPid := Function.update s.registeredNamesByPid pid
          (some (insert serverName ((s.registeredNamesByPid pid).getD ∅))) },
        serverName, .registered pid appId serverName sid owner)

/-- `HashMap` yields its names in some `order`. -/
def lookupNameBySidImpl (s : NameServer) (order : List String) (msg : MessageEnvelope) :
    Except Error String := do
  let sid ← sidFromMsg msg
  match order.find? fun name => s.nameTable name = some sid with
  | none => throw .serverNotFound
  | some name => return name

def unregisterPid (s : NameServer) (pid : PID) : NameServer :=
  match s.registeredNamesByPid pid with
  | none => s
  | some serverNames =>
    { s with
      registeredNamesByPid := Function.update s.registeredNamesByPid pid none
      nameTable := fun name => if name ∈ serverNames then none else s.nameTable name }

/-- `Vec::swap_remove`: the last element takes the place of the removed one. -/
def swapRemove (msgs : List MessageEnvelope) (i : Nat) : List MessageEnvelope :=
  match msgs.getLast? with
  | none => msgs
  | some last => if i + 1 = msgs.length then msgs.dropLast else msgs.dropLast.set i last

/-- What the result of a connect that has to be answered now is answered with. -/
def connectEvents (msg : MessageEnvelope) :
    Except Error ConnectSuccess → Except Panic (List Event)
  | .error e => do return [← respond msg (.error e)]
  | .ok (.connected cid granted) => do
    return granted.map .granted ++ [← respond msg (.connected cid)]
  | .ok .wait => .error .waitsAgain

/-- `while i < waiting_connections.len()`. Each round makes `len - i` smaller. -/
def wakeLoop (serverName : String) :
    (fuel i : Nat) → (kernels : Nat → KernelCalls) → NameServer → Except Panic (NameServer × List Event)
  | 0, _, _, s => .ok (s, [])
  | fuel + 1, i, kernels, s =>
    match s.waitingConnections[i]? with
    | none => .ok (s, [])
    | some msg =>
      if nameFromMsg msg 0 = .ok serverName then do
        let s := { s with waitingConnections := swapRemove s.waitingConnections i }
        let events ← connectEvents msg (s.connectImpl (kernels 0) msg)
        let (s, more) ← wakeLoop serverName fuel i (fun n => kernels (n + 1)) s
        return (s, events ++ more)
      else wakeLoop serverName fuel (i + 1) kernels s

def wakeWaitingConnections (s : NameServer) (kernels : Nat → KernelCalls) (serverName : String) :
    Except Panic (NameServer × List Event) :=
  wakeLoop serverName s.waitingConnections.length 0 kernels s

/-- Only an app that may send the request to the name server itself is obeyed. -/
def checkPrivilege (s : NameServer) (kernel : KernelCalls) (msg : MessageEnvelope) (opcode : Opcode) :
    Except Error Unit := do
  let pid ← pidOf msg
  let appId ← appOf kernel pid
  match s.connectPermissions appId with
  | none => throw .accessDenied
  | some permissions =>
    match permissions "os/nameserver" with
    | none => throw .accessDenied
    | some ids => if opcode.toUsize ∉ ids then throw .accessDenied

section Parsing

-- `app_manifest::try_from_bytes`
variable (tryFromBytes : List UInt8 → Option Manifest)

def addManifestImpl (s : NameServer) (kernel : KernelCalls) (msg : MessageEnvelope) :
    Except Error (NameServer × Manifest) := do
  s.checkPrivilege kernel msg .addManifest
  match msg.body.memoryMessage with
  | none => throw .invalidArguments
  | some mem =>
    match mem.valid with
    | none => throw .invalidArguments
    | some validBytes =>
      if validBytes > mem.buf.length then throw .invalidArguments
      else match tryFromBytes (mem.buf.take validBytes) with
      | none => throw .parseError
      | some manifest =>
        if manifest.fixedSids.entries ≠ [] then throw .accessDenied
        else do
          let s ← s.processManifestUpdate manifest
          return (s, manifest)

def removeManifestImpl (s : NameServer) (kernel : KernelCalls) (msg : MessageEnvelope) :
    Except Error (NameServer × AppId) := do
  s.checkPrivilege kernel msg .removeManifest
  match msg.body.memoryMessage with
  | none => throw .invalidArguments
  | some mem =>
    match mem.valid with
    | none => throw .invalidArguments
    | some validBytes =>
      if validBytes ≠ 16 ∨ validBytes > mem.buf.length then throw .invalidArguments
      else match AppId.ofBytes (mem.buf.take validBytes) with
      | none => throw .invalidArguments
      | some targetAppId => return (s.removeManifest targetAppId, targetAppId)

/-! ## 4. The loop -/

/-- A message, and what the rest of the system answers while it is handled. -/
structure Received where
  msg : MessageEnvelope
  /-- The first answers the request itself, the others the connections that it wakes. -/
  kernels : Nat → KernelCalls
  /-- The iteration order of the name table. -/
  order : List String

/-- A request that is not a scalar. -/
def handle (s : NameServer) (r : Received) : Except Panic (NameServer × List Event) :=
  let msg := r.msg
  match Opcode.fromUsize msg.id with
  | some .register =>
    match s.registerImpl (r.kernels 0) msg with
    | .ok (s, name, event) => do
      let answer ← respond msg .success
      let (s, events) ← s.wakeWaitingConnections (fun n => r.kernels (n + 1)) name
      return (s, event :: answer :: events)
    | .error err => do return (s, [← respond msg (.error err)])
  | some .blockingConnect =>
    match s.connectImpl (r.kernels 0) msg with
    | .ok .wait => return ({ s with waitingConnections := s.waitingConnections ++ [msg] }, [])
    | result => do return (s, ← connectEvents msg result)
  | some .tryConnect =>
    match s.connectImpl (r.kernels 0) msg with
    | .ok .wait => do return (s, [← respond msg (.error .serverNotFound)])
    | result => do return (s, ← connectEvents msg result)
  | some .addManifest =>
    match s.addManifestImpl tryFromBytes (r.kernels 0) msg with
    | .ok (s, manifest) => do return (s, [.accepted manifest, ← respond msg .success])
    | .error err => do return (s, [← respond msg (.error err)])
  | some .removeManifest =>
    match s.removeManifestImpl (r.kernels 0) msg with
    | .ok (s, appId) => do return (s, [.removed appId, ← respond msg .success])
    | .error err => do return (s, [← respond msg (.error err)])
  | some .lookupNameBySid =>
    match s.lookupNameBySidImpl r.order msg with
    | .ok name => do return (s, [← respond msg (.name name)])
    | .error err => do return (s, [← respond msg (.error err)])
  | none => return (s, [.answered msg .returned])

/-- One round of the loop of `run`. -/
def step (s : NameServer) (r : Received) : Except Panic (NameServer × List Event) :=
  let msg := r.msg
  if msg.id = PROCESS_DISCONNECTED_MESSAGE_ID then
    match msg.pid with
    | some pid => return (s.unregisterPid pid, [])
    | none => return (s, [])
  else if ¬ msg.body.isBlocking then return (s, [])
  else if ¬ msg.body.hasMemory then
    match (r.kernels 0).returnScalar msg with
    | .ok () => return (s, [.answered msg (.scalar 0)])
    | .error _ => .error .scalarNotReturned
  else s.handle tryFromBytes r

end Parsing

end NameServer

end Names
