import Mathlib

/-!
# The CTAPHID server

Packets of a USB security key. An initialization packet starts a transaction of its channel
and continuation packets add to its buffer; the command is processed when the buffer is
complete. One transaction is active at a time, and a channel can hold a lock.
-/

namespace CtapHid

/-! ## 1. Headers -/

inductive Command where
  | ping
  | init
  | message
  | wink
  | cbor
  | cancel
  | error
  | lock
  | keepAlive
deriving DecidableEq, Repr

def Command.fromU8 (n : UInt8) : Option Command :=
  if n = 0x01 then some ping
  else if n = 0x06 then some init
  else if n = 0x03 then some message
  else if n = 0x08 then some wink
  else if n = 0x10 then some cbor
  else if n = 0x11 then some cancel
  else if n = 0x3f then some error
  else if n = 0x04 then some lock
  else if n = 0x3b then some keepAlive
  else none

inductive CmdSeq where
  | cmd (cmd : Command) (payloadLen : Nat)
  | seq (seq : UInt8)
deriving DecidableEq, Repr

structure Header where
  cid : UInt32
  cmdSeq : CmdSeq
deriving DecidableEq, Repr

inductive CtapHidError where
  | invalidCommand
  | invalidParam
  | invalidPayloadLen
  | invalidSequence
  | busyChannel
  | invalidChannel
deriving DecidableEq, Repr

def CtapHidError.toU8 : CtapHidError → UInt8
  | invalidCommand => 0x01
  | invalidParam => 0x02
  | invalidPayloadLen => 0x03
  | invalidSequence => 0x04
  | busyChannel => 0x06
  | invalidChannel => 0x0B

def CtapHidError.toCmdPayload (e : CtapHidError) : Command × List UInt8 := (.error, [e.toU8])

abbrev Message := Header × List UInt8

def CtapHidError.toMsg (e : CtapHidError) (cid : UInt32) : Message := (⟨cid, .cmd .error 1⟩, [e.toU8])

/-- `from_be_bytes` -/
def beBytes (bytes : List UInt8) : Nat := bytes.foldl (fun n b => 256 * n + b.toNat) 0

/-- The header of a packet and the payload behind it. -/
def Header.deserialize : List UInt8 → Except CtapHidError (Header × List UInt8)
  | b0 :: b1 :: b2 :: b3 :: b4 :: rest =>
    let cid := UInt32.ofNat (beBytes [b0, b1, b2, b3])
    if b4 &&& 0x80 = 0 then .ok (⟨cid, .seq b4⟩, rest)
    else match Command.fromU8 (b4 &&& 0x7f) with
      | none => .error .invalidCommand
      | some cmd => match rest with
        | b5 :: b6 :: payload => .ok (⟨cid, .cmd cmd (beBytes [b5, b6])⟩, payload)
        | _ => .error .invalidParam
  | _ => .error .invalidParam

/-! ## 2. Channels -/

structure Channel where
  cid : UInt32
  cmd : Command
  payloadLen : Nat
  buf : List UInt8
  prevSeq : UInt8
  newCid : Option UInt32
deriving DecidableEq, Repr

/-- `Channel::default()` -/
def Channel.default : Channel := ⟨0, .init, 0, [], 0, none⟩

/-- What the server calls: the FIDO server, and the version of the device. -/
structure Host where
  /-- The response to a U2F APDU, also to one that does not parse. -/
  u2f : List UInt8 → List UInt8
  ctapProcessCbor : UInt8 → List UInt8 → List UInt8
  devVersion : UInt8 × UInt8 × UInt8

def protocolVersion : UInt8 := 2

def toBeBytes (cid : UInt32) : List UInt8 :=
  [UInt8.ofNat (cid.toNat / 256 ^ 3), UInt8.ofNat (cid.toNat / 256 ^ 2),
    UInt8.ofNat (cid.toNat / 256), UInt8.ofNat cid.toNat]

/-- Process the command of the channel. `INIT` appends its response to the buffer. -/
def Channel.process (host : Host) (ch : Channel) : (Command × List UInt8) × Channel :=
  let invalidLen := CtapHidError.invalidPayloadLen.toCmdPayload
  match ch.cmd with
  | .ping => ((.ping, ch.buf), ch)
  | .init =>
    if ch.buf.length = 8 then
      let buf := ch.buf ++ toBeBytes (ch.newCid.getD ch.cid) ++
        [protocolVersion, host.devVersion.1, host.devVersion.2.1, host.devVersion.2.2, 0x05]
      ((.init, buf), { ch with buf := buf })
    else (invalidLen, ch)
  | .message => (if 4 ≤ ch.buf.length then (.message, host.u2f ch.buf) else invalidLen, ch)
  | .wink => (if ch.payloadLen = 0 then (.wink, []) else invalidLen, ch)
  | .cbor =>
    match ch.buf with
    | cmd :: payload => ((.cbor, host.ctapProcessCbor cmd payload), ch)
    | [] => (invalidLen, ch)
  | .cancel => (if ch.payloadLen = 0 then (.cancel, []) else invalidLen, ch)
  | .error => (CtapHidError.invalidCommand.toCmdPayload, ch)
  | .lock => (if ch.buf.length = 1 then (.lock, ch.buf) else invalidLen, ch)
  | .keepAlive => (CtapHidError.invalidCommand.toCmdPayload, ch)

/-! ## 3. The server -/

def broadcastCid : UInt32 := 0xFFFFFFFF

def transactionTimeoutMs : Nat := 3000

def maxLockDurationS : Nat := 10

/-- A point in time, in nanoseconds. -/
abbrev Instant := Nat

structure CtapHidServer where
  channels : UInt32 → Option Channel
  /-- The channel of the active transaction. -/
  activeCid : Option UInt32
  transactionStart : Option Instant
  /-- The channel that holds the exclusive lock. -/
  lockedCid : Option UInt32
  lockExpiry : Option Instant

/-- The times at which one call of `process` reads the clock. -/
structure Clock where
  timeoutCheck : Instant
  expiryCheck : Instant
  start : Instant
  acquire : Instant

namespace CtapHidServer

def new : CtapHidServer where
  channels := fun cid => if cid = broadcastCid then some Channel.default else none
  activeCid := none
  transactionStart := none
  lockedCid := none
  lockExpiry := none

def setChannel (s : CtapHidServer) (cid : UInt32) (ch : Channel) : CtapHidServer :=
  { s with channels := fun c => if c = cid then some ch else s.channels c }

def startTransaction (s : CtapHidServer) (cid : UInt32) (now : Instant) : CtapHidServer :=
  { s with activeCid := some cid, transactionStart := some now }

def endTransaction (s : CtapHidServer) : CtapHidServer :=
  { s with activeCid := none, transactionStart := none }

def checkTransactionTimeout (s : CtapHidServer) (now : Instant) : CtapHidServer :=
  match s.activeCid, s.transactionStart with
  | some _, some start =>
    if transactionTimeoutMs < (now - start) / 10 ^ 6 % 2 ^ 64 then s.endTransaction else s
  | _, _ => s

def checkLockExpiry (s : CtapHidServer) (now : Instant) : CtapHidServer :=
  match s.lockExpiry with
  | some expiry => if expiry ≤ now then { s with lockedCid := none, lockExpiry := none } else s
  | none => s

/-- The server without what has timed out. -/
def expire (s : CtapHidServer) (clock : Clock) : CtapHidServer :=
  (s.checkTransactionTimeout clock.timeoutCheck).checkLockExpiry clock.expiryCheck

/-- Is the device busy for the channel? `CANCEL` is always allowed. -/
def checkBusy (s : CtapHidServer) (cid : UInt32) (cmd : Command) : Option Message :=
  if cmd = .cancel then none
  else if s.lockedCid ≠ none ∧ s.lockedCid ≠ some cid then some (CtapHidError.busyChannel.toMsg cid)
  else if s.activeCid ≠ none ∧ s.activeCid ≠ some cid then some (CtapHidError.busyChannel.toMsg cid)
  else none

def acquireLock (s : CtapHidServer) (cid : UInt32) (durationS : UInt8) (now : Instant) :
    Except CtapHidError Unit × CtapHidServer :=
  if durationS = 0 then
    (.ok (), if s.lockedCid = some cid then { s with lockedCid := none, lockExpiry := none } else s)
  else if durationS.toNat ≤ maxLockDurationS then
    (.ok (), { s with lockedCid := some cid, lockExpiry := some (now + durationS.toNat * 10 ^ 9) })
  else (.error .invalidParam, s)

def processChannelCommand (host : Host) (s : CtapHidServer) (cid : UInt32) (now : Instant) :
    Option (Command × List UInt8) × CtapHidServer :=
  match s.channels cid with
  | none => (none, s)
  | some channel =>
    let ((cmd, payload), channel) := channel.process host
    let s := s.setChannel cid channel
    match cmd with
    | .cancel => (none, s)
    | .lock =>
      match payload with
      | [durationS] =>
        match s.acquireLock cid durationS now with
        | (.ok (), s) => (some (.lock, []), s)
        | (.error e, s) => (some e.toCmdPayload, s)
      | _ => (some CtapHidError.invalidPayloadLen.toCmdPayload, s)
    | cmd => (some (cmd, payload), s)

/-- A new channel, with the first of the random draws that is not in use. The loop goes on
when all of them are. -/
def createChannel (s : CtapHidServer) (draws : List UInt32) : Option (UInt32 × CtapHidServer) :=
  (draws.find? fun cid => s.channels cid = none).map fun cid =>
    (cid, s.setChannel cid ⟨cid, .init, 0, [], 0, none⟩)

/-- Why a packet has no end. -/
inductive Stuck where
  /-- Arithmetic that over- or underflows. -/
  | arithmetic
  /-- The loop of `create_channel`. -/
  | drawing
deriving DecidableEq, Repr

/-- What `process` does with a packet. -/
inductive Reception where
  | reply (msg : Message)
  | nothing
  /-- The message is complete: its command is processed and the transaction ends. -/
  | complete (cid : UInt32)
  | stuck (why : Stuck)
deriving DecidableEq, Repr

def receiveInit (s : CtapHidServer) (cid : UInt32) (cmd : Command) (payloadLen : Nat)
    (payload : List UInt8) (now : Instant) (draws : List UInt32) : Reception × CtapHidServer :=
  match s.checkBusy cid cmd with
  | some busyResponse => (.reply busyResponse, s)
  | none =>
    let s := s.startTransaction cid now
    let created :=
      if cid = broadcastCid ∧ cmd = .init then
        (s.createChannel draws).map fun (newCid, s) => (some newCid, s)
      else some (none, s)
    match created with
    | none => (.stuck .drawing, s)
    | some (newCid, s) =>
      match s.channels cid with
      | some _ =>
        let channel : Channel := {
          cid := cid
          buf := payload.take (min payload.length payloadLen)
          payloadLen := payloadLen
          cmd := cmd
          prevSeq := 0
          newCid := newCid }
        let s := s.setChannel cid channel
        (if payloadLen ≤ payload.length % 2 ^ 16 then .complete cid else .nothing, s)
      | none => (.reply (CtapHidError.invalidChannel.toMsg cid), s.endTransaction)

def receiveSeq (s : CtapHidServer) (cid : UInt32) (seq : UInt8) (payload : List UInt8) :
    Reception × CtapHidServer :=
  if s.activeCid ≠ some cid then (.nothing, s)
  else match s.channels cid with
    | some channel =>
      if seq ≠ 0 ∧ channel.prevSeq = 255 then (.stuck .arithmetic, s)
      else if seq = 0 ∨ seq = channel.prevSeq + 1 then
        if channel.payloadLen < channel.buf.length then (.stuck .arithmetic, s)
        else
          let missingLen := channel.payloadLen - channel.buf.length
          let buf := channel.buf ++ payload.take (min payload.length missingLen)
          let s := s.setChannel cid { channel with prevSeq := seq, buf := buf }
          (if channel.payloadLen ≤ buf.length % 2 ^ 16 then .complete cid else .nothing, s)
      else (.reply (CtapHidError.invalidSequence.toMsg cid), s.endTransaction)
    | none => (.reply (CtapHidError.invalidChannel.toMsg cid), s.endTransaction)

/-- `process` up to the point where it processes a command. -/
def receive (s : CtapHidServer) (pkt : List UInt8) (clock : Clock) (draws : List UInt32) :
    Reception × CtapHidServer :=
  let s := s.expire clock
  match Header.deserialize pkt with
  | .error e => (.reply (e.toMsg broadcastCid), s)
  | .ok (header, payload) =>
    match header.cmdSeq with
    | .cmd cmd payloadLen =>
      s.receiveInit header.cid cmd payloadLen payload clock.start draws
    | .seq seq => s.receiveSeq header.cid seq payload

def process (host : Host) (s : CtapHidServer) (pkt : List UInt8) (clock : Clock)
    (draws : List UInt32) : Except Stuck (Option Message) × CtapHidServer :=
  match s.receive pkt clock draws with
  | (.reply msg, s) => (.ok (some msg), s)
  | (.nothing, s) => (.ok none, s)
  | (.complete cid, s) =>
    let (result, s) := s.processChannelCommand host cid clock.acquire
    (.ok (result.map fun (cmd, payload) => (⟨cid, .cmd cmd (payload.length % 2 ^ 16)⟩, payload)),
      s.endTransaction)
  | (.stuck why, s) => (.error why, s)

end CtapHidServer

end CtapHid
