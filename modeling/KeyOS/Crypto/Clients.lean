import KeyOS.Crypto.Server

/-!
# The clients of the crypto server

Requests in any order, from any clients, with a record of what each client has asked of each of its
contexts. The disk-encryption client starts an operation only after the completion event of its
previous one.
-/

namespace Crypto

open BlockModes Exec Prog

/-- An `AesExecute` that returned `Ok`: the part of the buffer before and after. -/
structure Call where
  direction : Direction
  input : Bytes
  output : Bytes

/-- What a client has done with a context since it set it up. -/
structure Session where
  key : Bytes
  mode : AesMode
  aads : List Bytes
  calls : List Call
  tags : List Bytes

structure World where
  machine : Machine
  crashed : Bool
  sessions : Pid → UInt8 → Option Session
  /-- The slots that have held a key. -/
  used : Fin 32 → Bool
  /-- The disk-encryption client waits for the event. -/
  awaiting : Bool

inductive Act where
  | aesSetup (sender : Pid) (key : Bytes) (mode : AesMode)
  | aesExecute (sender : Pid) (msg : AesExecute) (buf : Bytes) (fates : Fates)
  | aesAad (sender : Pid) (id : UInt8) (aad : Bytes) (fates : Fates)
  | aesGcmTag (sender : Pid) (id : UInt8) (fates : Fates)
  | aesClear (sender : Pid) (id : UInt8)
  | shaSetContext (sender : Pid) (msg : ShaSetContext) (fates : Fates)
  | shaUpdate (sender : Pid) (contextId length : UInt32) (buf : Bytes) (fates : Fates)
  | shaGetContext (sender : Pid) (contextId : UInt32)
  | shaDrop (sender : Pid) (contextId : UInt32) (fates : Fates)
  | hmac (algo : ShaAlgo) (key data : Bytes) (fates : Fates)
  | clientDisconnected (pid : Pid) (fates : Fates)
  | subscribeDiskEncryptComplete
  | diskEncrypt (msg : DiskEncryptUnsafe) (fates : Fates)
  /-- The hardware completes the disk-encryption transfer. -/
  | dmaCompletes
  | transferComplete (fates : Fates)

abbrev Sessions := Pid → UInt8 → Option Session

def Sessions.set (sessions : Sessions) (pid : Pid) (id : UInt8) (session : Option Session) :
    Sessions := fun pid' id' =>
  if pid' = pid ∧ id' = id then session else sessions pid' id'

def Sessions.record (sessions : Sessions) (pid : Pid) (id : UInt8) (f : Session → Session) :
    Sessions := sessions.set pid id ((sessions pid id).map f)

namespace World

/-- A request is served; what it has returned is recorded. -/
def serve {α : Type} (w : World) (x : Serve α) (recorded : α → Machine → World → World) : World :=
  match x w.machine with
  | (.ok a, m) =>
    recorded a m
      { w with machine := m, used := fun s => w.used s || m.securamSlotOccupied s }
  | (.err _, m) => { w with machine := m }
  | (.panic _, m) => { w with machine := m, crashed := true }

def unrecorded {α : Type} : α → Machine → World → World := fun _ _ w => w

def lend (w : World) (buf : Bytes) : World := { w with machine := { w.machine with lent := buf } }

def record (w : World) (pid : Pid) (id : UInt8) (f : Session → Session) : World :=
  { w with sessions := Sessions.record w.sessions pid id f }

/-- What the server makes of the message. -/
def received (msg : AesExecute) : AesExecute := AesExecute.ofMessage msg.toMessage

def request (P : Platform) (w : World) : Act → World
  | .aesSetup sender key mode =>
    w.serve (Crypto.aesSetup P key mode sender) fun id _ w =>
      { w with sessions := Sessions.set w.sessions sender id (some ⟨key, mode, [], [], []⟩) }
  | .aesExecute sender msg buf fates =>
    (w.lend buf).serve (Crypto.aesExecute P fates (received msg) sender) fun _ m w =>
      w.record sender msg.transferId fun session =>
        { session with
          calls := session.calls ++ [⟨msg.direction, part buf msg.offset.toNat msg.len.toNat,
            part m.lent msg.offset.toNat msg.len.toNat⟩] }
  | .aesAad sender id aad fates =>
    w.serve (Crypto.aesAad P fates id aad sender) fun _ _ w =>
      w.record sender id fun session => { session with aads := session.aads ++ [aad] }
  | .aesGcmTag sender id fates =>
    w.serve (aesGetTag P fates id sender) fun tag _ w =>
      w.record sender id fun session => { session with tags := session.tags ++ [tag] }
  | .aesClear sender id =>
    w.serve (Crypto.aesClear id sender) fun _ _ w =>
      { w with sessions := Sessions.set w.sessions sender id none }
  | .shaSetContext sender msg fates => w.serve (Crypto.shaSetContext P fates sender msg) unrecorded
  | .shaUpdate sender contextId length buf fates =>
    (w.lend buf).serve (Crypto.shaUpdate P fates sender contextId length) unrecorded
  | .shaGetContext sender contextId => w.serve (Crypto.shaGetContext sender contextId) unrecorded
  | .shaDrop sender contextId fates => w.serve (Crypto.shaDrop fates sender contextId) unrecorded
  | .hmac algo key data fates => w.serve (Crypto.hmac P fates algo key data) unrecorded
  | .clientDisconnected pid fates =>
    w.serve (clearClientContexts fates pid) fun _ _ w =>
      { w with
        sessions := fun pid' id => if pid' = pid then none else w.sessions pid' id }
  | .subscribeDiskEncryptComplete =>
    { w with machine := { w.machine with diskEncryptSubscriber := true } }
  | .diskEncrypt msg fates =>
    if w.awaiting then w
    else w.serve (diskEncryptStart fates msg) fun _ _ w => { w with awaiting := true }
  | .dmaCompletes => { w with machine := w.machine.transferEnds }
  | .transferComplete fates =>
    if w.machine.completed then
      { w with machine := { w.machine with completed := false } }.serve
        (onDmaTransferComplete fates) fun told _ w =>
          if told then { w with awaiting := false } else w
    else w

def step (P : Platform) (w : World) (act : Act) : World :=
  if w.crashed then w else w.request P act

def run (P : Platform) (w : World) (acts : List Act) : World := acts.foldl (step P) w

/-- The server has started, on a SECURAM whose magic it has checked. -/
def started (aesKeys : Fin 32 → AesKey) (diskEncryptionKeys : Bytes × Bytes) : World where
  machine := {
    aesContexts := fun _ _ => none
    nextContextId := 1
    securam := ⟨true, aesKeys, diskEncryptionKeys⟩
    securamSlotOccupied := fun _ => false
    shaContexts := []
    lastShaContextId := 0
    diskEncryptSubscriber := false
    diskEncryptInFlight := false
    lent := []
    aes := Aes.reset
    power := ⟨fun _ => false, fun _ => false⟩
    transferring := false
    completed := false
    unclocked := false }
  crashed := false
  sessions := fun _ _ => none
  used := fun _ => false
  awaiting := false

end World

end Crypto
