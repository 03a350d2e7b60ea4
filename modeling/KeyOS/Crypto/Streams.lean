import KeyOS.Crypto.Clients
import KeyOS.Crypto.Streaming

/-!
# Streaming contexts of many clients

Any number of streaming contexts, of any processes, whose calls run side by side: each goes on when
the server has answered its request, and the server takes the requests in any order, those of the
contexts among all others.
-/

namespace Crypto

open BlockModes Exec

/-! ## 1. Contexts and their server -/

inductive Phase where
  | idle (self : ShaStreamingContext)
  /-- `finalize` consumes the context, `update` does not. -/
  | calling (consumes : Bool) (call : ShaCall)
  /-- The context has been dropped, by a panic at the latest, with the digest if it was finalized. -/
  | finished (self : ShaStreamingContext) (digest : Option Bytes)

structure Stream where
  pid : Pid
  algo : ShaAlgo
  /-- The bytes of the updates before the last call. -/
  before : Bytes
  /-- The bytes of all updates so far. -/
  fed : Bytes
  /-- A call has not returned `Ok`. -/
  failed : Bool
  phase : Phase

structure Streams where
  world : World
  streams : Nat → Option Stream
  /-- The processes whose disconnection the server has handled. -/
  left : Pid → Bool

inductive StreamAct where
  | init (i : Nat) (pid : Pid) (algo : ShaAlgo)
  | update (i : Nat) (slice : Slice)
  | finalize (i : Nat)
  | drop (i : Nat)
  /-- The server takes the request that the context waits for. -/
  | serve (i : Nat) (fates : Fates)
  /-- The kernel maps memory, or does not. -/
  | mapMemory (i : Nat) (result : Except UInt32 Bytes)
  /-- The request cannot be sent: the client panics. -/
  | undelivered (i : Nat)
  /-- The server takes the `ShaDrop` of a context that was dropped. -/
  | shaDrop (i : Nat) (fates : Fates)
  | other (act : Act)

/-- The requests that come from streaming contexts only. -/
def Act.streaming : Act → Bool
  | .shaSetContext .. | .shaUpdate .. | .shaGetContext .. | .shaDrop .. => true
  | _ => false

/-- The process that a request says has gone. -/
def Act.leaves : Act → Option Pid
  | .clientDisconnected pid _ => some pid
  | _ => none

/-! ## 2. Steps -/

/-- The context of a call, as it stands. -/
def ShaCall.self : ShaCall → ShaStreamingContext
  | .returned self _ => self
  | .panicked self => self
  | .setContext self _ _ => self
  | .update self _ _ _ _ => self
  | .getContext self _ _ => self
  | .mapMemory self _ _ => self

/-- What has become of a call. -/
def Stream.settle (s : Stream) (consumes : Bool) : ShaCall → Stream
  | .returned self (.ok value) =>
    { s with phase := if consumes then .finished self (some value) else .idle self }
  | .returned self (.error _) =>
    { s with
      failed := true
      phase := if consumes then .finished self none else .idle self }
  | .panicked self => { s with failed := true, phase := .finished self none }
  | call => { s with phase := .calling consumes call }

namespace Streams

variable (P : Platform) (C : Compression) (S : Streams)

def put (i : Nat) (s : Option Stream) : Streams :=
  { S with streams := Function.update S.streams i s }

def onIdle (i : Nat) (f : Stream → ShaStreamingContext → Streams) : Streams :=
  match S.streams i with
  | some s =>
    match s.phase with
    | .idle self => f s self
    | _ => S
  | none => S

def onCall (i : Nat) (f : Stream → Bool → ShaCall → Streams) : Streams :=
  match S.streams i with
  | some s =>
    match s.phase with
    | .calling consumes call => f s consumes call
    | _ => S
  | none => S

def onFinished (i : Nat) (f : Stream → ShaStreamingContext → Streams) : Streams :=
  match S.streams i with
  | some s =>
    match s.phase with
    | .finished self _ => f s self
    | _ => S
  | none => S

/-- The server has taken a request, in the world `w`; its answer goes to the context. -/
def answer {α : Type} (i : Nat) (s : Stream) (consumes : Bool) (self : ShaStreamingContext)
    (w : World) (x : Serve α) (next : α → ShaCall) : Streams where
  world := w.serve x World.unrecorded
  streams := Function.update S.streams i (some (match (x w.machine).1 with
    | .ok a => s.settle consumes (next a)
    | .err e => s.settle consumes (.returned self (.error e))
    | .panic _ => s))
  left := S.left

def serve (fates : Fates) (i : Nat) (s : Stream) (consumes : Bool) : ShaCall → Streams
  | .setContext self msg next =>
    S.answer i s consumes self S.world (Crypto.shaSetContext P fates s.pid msg) next
  | .update self contextId buf length next =>
    S.answer i s consumes self (S.world.lend buf)
      (Crypto.shaUpdate P fates s.pid contextId length) fun _ => next
  | .getContext self contextId next =>
    S.answer i s consumes self S.world (Crypto.shaGetContext s.pid contextId) next
  | _ => S

def map (i : Nat) (s : Stream) (consumes : Bool) (result : Except UInt32 Bytes) :
    ShaCall → Streams
  | .mapMemory self size next =>
    match result with
    | .ok mem => if mem.length = size then S.put i (some (s.settle consumes (next mem))) else S
    | .error e =>
      S.put i (some (s.settle consumes (.returned self (.error (.xousError e)))))
  | _ => S

def step (S : Streams) : StreamAct → Streams
  | .init i pid algo =>
    if (S.streams i).isSome then S
    else S.put i (some ⟨pid, algo, [], [], false, .idle (ShaClient.shaInit algo)⟩)
  | .update i slice =>
    S.onIdle i fun s self =>
      S.put i (some (Stream.settle { s with before := s.fed, fed := s.fed ++ slice.bytes } false
        (ShaClient.update C slice self fun self _ => .returned self (.ok []))))
  | .finalize i =>
    S.onIdle i fun s self =>
      S.put i (some (Stream.settle { s with before := s.fed } true
        (ShaClient.finalize C self fun self digest => .returned self (.ok digest))))
  | .drop i => S.onIdle i fun s self => S.put i (some { s with phase := .finished self none })
  | .serve i fates => if S.world.crashed then S else S.onCall i (S.serve P fates i)
  | .mapMemory i result => S.onCall i fun s consumes => S.map i s consumes result
  | .undelivered i => S.onCall i fun s consumes call =>
    S.put i (some (s.settle consumes (.panicked call.self)))
  | .shaDrop i fates =>
    S.onFinished i fun s self =>
      match self.serverId with
      | some id => { S.put i none with world := S.world.step P (.shaDrop s.pid id fates) }
      | none => S.put i none
  | .other act =>
    if act.streaming then S
    else
      { S with
        world := S.world.step P act
        left := fun pid => S.left pid || act.leaves = some pid }

def run (S : Streams) (acts : List StreamAct) : Streams := acts.foldl (step P C) S

/-- No context has been made. -/
def started (aesKeys : Fin 32 → AesKey) (diskEncryptionKeys : Bytes × Bytes) : Streams where
  world := World.started aesKeys diskEncryptionKeys
  streams := fun _ => none
  left := fun _ => false

end Streams

/-! ## 3. Ids -/

def Phase.self : Phase → ShaStreamingContext
  | .idle self => self
  | .calling _ call => call.self
  | .finished self _ => self

/-- Where the server has the hash state of a context. -/
def Stream.key (s : Stream) : Option (Pid × UInt32) :=
  s.phase.self.serverId.map fun id => (s.pid, id)

namespace Streams

def Holds (S : Streams) (key : Pid × UInt32) : Prop :=
  ∃ i s, S.streams i = some s ∧ s.key = some key

/-- A `ShaSetContext` without an id is answered with one that no context of the process has; one
that was dropped has its id until the server has taken its `ShaDrop`. -/
def Fresh (S : Streams) : StreamAct → Prop
  | .serve i _ => ∀ s consumes self msg next, S.streams i = some s →
      s.phase = .calling consumes (.setContext self msg next) → msg.contextId = none →
      ¬S.Holds (s.pid, S.world.machine.lastShaContextId + 1)
  | _ => True

/-- Every step meets the condition. -/
def FreshRun (P : Platform) (C : Compression) (S : Streams) : List StreamAct → Prop
  | [] => True
  | act :: acts => S.Fresh act ∧ FreshRun P C (S.step P C act) acts

end Streams

/-- What the server has under a key; a server that has crashed has nothing. -/
def World.find (w : World) (key : Pid × UInt32) : Option ShaContext :=
  if w.crashed then none else findSha w.machine.shaContexts key

end Crypto
