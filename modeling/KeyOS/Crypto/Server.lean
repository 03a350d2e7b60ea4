import KeyOS.Crypto.Aes
import KeyOS.Lib.Exec

/-!
# The crypto server

AES contexts, whose keys are kept in slots of the SECURAM, SHA contexts, and the disk-encryption
transfers that share the AES peripheral; the clocks of both peripherals are switched by the power
manager. Every call to another server can fail, and a transfer that fails has moved some bytes.

The data of a disk-encryption transfer, the Shamir requests and the texts of the log are left out.
-/

namespace Crypto

open BlockModes Exec Prog

abbrev Pid := Nat

/-! ## 1. Errors and messages -/

inductive CryptoError where
  | xousError (e : UInt32)
  | invalidParameter
  | dmaError
  | invalidAddress
  | invalidDataLength
  | bufferNotContiguous
  | tooManyAesContexts
  | tooManySecuramKeys
  | invalidKeyLength
  | unalignedDataLength
  | invalidMode
  | invalidState
deriving DecidableEq

inductive DmaError where
  | xousError (e : UInt32)
  | noFreeChannels
  | unknownError
  | invalidParameter
  | invalidAddress
  | invalidAlignment
  | bufferNotContiguous
  | alreadyRunning
deriving DecidableEq

def convertDmaError : DmaError → CryptoError
  | .xousError e => .xousError e
  | .invalidParameter => .invalidParameter
  | .invalidAddress => .invalidAddress
  | .invalidAlignment => .invalidDataLength
  | .bufferNotContiguous => .bufferNotContiguous
  | _ => .dmaError

inductive Panic where
  | overflow
  | securamCorrupted
  | keyIsWrongSize
deriving DecidableEq

inductive Direction where
  | encrypt
  | decrypt
deriving DecidableEq

inductive ShaAlgo where
  | sha224
  | sha256
  | sha384
  | sha512
deriving DecidableEq

/-- `[u8; n]` -/
abbrev ByteArr (n : Nat) := { bytes : Bytes // bytes.length = n }

/-- `crypto::AesMode` -/
inductive AesMode where
  | ecb
  | cbc (iv : ByteArr 16)
  | ctr (iv : ByteArr 16)
  | gcm (iv : ByteArr 12)

/-- `AesExecute`, without the buffer that is lent with it. -/
structure AesExecute where
  transferId : UInt8
  direction : Direction
  offset : UInt32
  len : UInt32
deriving DecidableEq

structure SimpleMemoryMessage where
  arg1 : UInt32
  arg2 : UInt32

def offsetOffset : UInt32 := 9
def transferIdOffset : UInt32 := 1
def decryptFlag : UInt32 := 1

def Direction.flag : Direction → UInt32
  | .encrypt => 0
  | .decrypt => decryptFlag

def AesExecute.toMessage (value : AesExecute) : SimpleMemoryMessage where
  arg1 := value.len
  arg2 := (value.offset <<< offsetOffset) ||| (value.transferId.toUInt32 <<< transferIdOffset) |||
    value.direction.flag

def AesExecute.ofMessage (value : SimpleMemoryMessage) : AesExecute where
  len := value.arg1
  transferId := (value.arg2 >>> transferIdOffset).toUInt8
  direction := if value.arg2 &&& decryptFlag ≠ 0 then .decrypt else .encrypt
  offset := value.arg2 >>> offsetOffset

structure DiskEncryptUnsafe where
  src : UInt32
  dst : UInt32
  len : UInt32
  direction : Direction

structure ShaSetContext where
  contextId : Option UInt32
  algo : ShaAlgo
  hashState : Bytes

/-! ## 2. State -/

inductive AesContextMode where
  | ecb
  | cbc (iv : Iv)
  | gcm (aadlen datalen : UInt32) (iv : GcmIv) (ctr : UInt32) (ghash : Words)
  | ctr (ctr : Iv)

structure AesContext where
  keySlot : Fin 32
  finalized : Bool
  mode : AesContextMode

structure ShaContext where
  algo : ShaAlgo
  hashState : Bytes

structure AesKey where
  len : Nat
  bytes : Bytes

/-- Of the SECURAM, what the server uses. -/
structure Securam where
  magic : Bool
  aesKeys : Fin 32 → AesKey
  diskEncryptionKeys : Bytes × Bytes

inductive PeripheralId where
  | aes
  | sha
deriving DecidableEq

structure PowerManager where
  enabledPeripherals : PeripheralId → Bool
  clock : PeripheralId → Bool

/-- The handler of `SetPeripheralEnabled`. -/
def PowerManager.setPeripheralEnabled (pm : PowerManager) (peripheral : PeripheralId)
    (enabled : Bool) : PowerManager :=
  if enabled then
    if pm.enabledPeripherals peripheral then pm
    else
      { enabledPeripherals := Function.update pm.enabledPeripherals peripheral true
        clock := Function.update pm.clock peripheral true }
  else if pm.enabledPeripherals peripheral then
    { enabledPeripherals := Function.update pm.enabledPeripherals peripheral false
      clock := Function.update pm.clock peripheral false }
  else pm

/-- The server, the buffer that is lent to it, the hardware that it uses and the power manager. -/
structure Machine where
  aesContexts : Pid → UInt8 → Option AesContext
  nextContextId : UInt8
  securam : Securam
  securamSlotOccupied : Fin 32 → Bool
  shaContexts : List ((Pid × UInt32) × ShaContext)
  lastShaContextId : UInt32
  diskEncryptSubscriber : Bool
  diskEncryptInFlight : Bool
  lent : Bytes
  aes : Aes
  power : PowerManager
  /-- A disk-encryption transfer moves data. -/
  transferring : Bool
  /-- A `TransferComplete` is on its way. -/
  completed : Bool
  /-- A peripheral was used while its clock was off. -/
  unclocked : Bool

/-- What the server runs on: the ciphers by their keys, the SHA peripheral, and whether the build
checks arithmetic for overflow. -/
structure Platform where
  cipher : Bytes → BlockCipher
  shaBlocks : ShaAlgo → Bytes → Bytes → Bytes
  hmac : ShaAlgo → Bytes → Bytes → Bytes
  overflowChecks : Bool

/-- Which of the calls that a request makes fail. -/
structure Fates where
  enable : Option UInt32
  disable : Option UInt32
  /-- The wait for the disk-encryption transfer. -/
  idleWait : Bool
  dmaTx : Option DmaError
  dmaRx : Option DmaError
  dmaWait : Option DmaError
  flushCache : Option UInt32
  /-- How many bytes had been moved when a transfer failed. -/
  moved : Nat
  notify : Bool

/-- No call fails. -/
def Fates.quiet : Fates :=
  { enable := none, disable := none, idleWait := false, dmaTx := none, dmaRx := none
    dmaWait := none, flushCache := none, moved := 0, notify := false }

abbrev Serve := Prog Machine Panic CryptoError

def Machine.setContext (m : Machine) (pid : Pid) (id : UInt8) (context : Option AesContext) :
    Machine :=
  { m with
    aesContexts := fun pid' id' =>
      if pid' = pid ∧ id' = id then context else m.aesContexts pid' id' }

/-! ## 3. The parts of a request -/

def arithmetic (P : Platform) (overflows : Bool) : Serve Unit :=
  require .overflow !(P.overflowChecks && overflows)

/-- A call to another server. -/
def call {ε α : Type} (convert : ε → CryptoError) (fate : Option ε) (done : Serve α) : Serve α :=
  match fate with
  | some e => throw (convert e)
  | none => done

def enablePeripheral (fates : Fates) (peripheral : PeripheralId) : Serve Unit :=
  call .xousError fates.enable <|
    modify fun m => { m with power := m.power.setPeripheralEnabled peripheral true }

def disablePeripheral (fates : Fates) (peripheral : PeripheralId) : Serve Unit :=
  call .xousError fates.disable <|
    modify fun m => { m with power := m.power.setPeripheralEnabled peripheral false }

/-- The disk-encryption transfer ends. -/
def Machine.transferEnds (m : Machine) : Machine :=
  if m.transferring then { m with transferring := false, completed := true } else m

def ensureAesIdle (fates : Fates) : Serve Unit :=
  modify fun m => if m.diskEncryptInFlight && !fates.idleWait then m.transferEnds else m

/-- A peripheral is used. -/
def Machine.uses (m : Machine) (peripheral : PeripheralId) : Machine :=
  { m with unclocked := m.unclocked || !m.power.clock peripheral }

def useAes (f : Aes → Aes) : Serve Unit :=
  modify fun m => { m.uses .aes with aes := f m.aes }

def setAesKey (keyNo : Fin 32) (aesKey : Bytes) : Serve Unit := do
  let m ← get
  if aesKey.length ≠ 16 ∧ aesKey.length ≠ 24 ∧ aesKey.length ≠ 32 then throw .invalidKeyLength
  else
    require .securamCorrupted m.securam.magic
    modify fun m =>
      { m with
        securam := { m.securam with
          aesKeys := Function.update m.securam.aesKeys keyNo
            ⟨aesKey.length, aesKey ++ List.replicate (32 - aesKey.length) 0⟩ } }

/-- `Key::try_from` -/
def isKeySize (n : Nat) : Bool := n = 16 ∨ n = 24 ∨ n = 32

def readAesKey (keyNo : Fin 32) : Serve Bytes := do
  let m ← get
  require .securamCorrupted m.securam.magic
  let key := m.securam.aesKeys keyNo
  require .keyIsWrongSize (isKeySize (key.bytes.take key.len).length)
  return key.bytes.take key.len

def lookupContext (sender : Pid) (id : UInt8) : Serve AesContext := do
  let m ← get
  okOr .invalidParameter (m.aesContexts sender id)

def updateContext (sender : Pid) (id : UInt8) (f : AesContext → AesContext) : Serve Unit :=
  modify fun m => m.setContext sender id ((m.aesContexts sender id).map f)

/-! ## 4. AES contexts -/

def AesMode.start : AesMode → AesContextMode
  | .ecb => .ecb
  | .cbc iv => .cbc (Words.ofBytes iv)
  | .ctr iv => .ctr (Words.ofBytes iv)
  | .gcm iv => .gcm 0 0 ⟨wordAt iv 0, wordAt iv 1, wordAt iv 2⟩ 2 Words.zero

def allocateSecuramSlot (key : Bytes) : Serve (Fin 32) := do
  let m ← get
  let keySlot ← okOr .tooManySecuramKeys
    ((List.finRange 32).find? fun s => !m.securamSlotOccupied s)
  setAesKey keySlot key
  modify fun m =>
    { m with securamSlotOccupied := Function.update m.securamSlotOccupied keySlot true }
  return keySlot

def deallocateSecuramSlot (keySlot : Fin 32) : Serve Unit := do
  unwrap .securamCorrupted (setAesKey keySlot (List.replicate 32 0))
  modify fun m =>
    { m with securamSlotOccupied := Function.update m.securamSlotOccupied keySlot false }

/-- `for _ in 0..255`, with the rounds that are left. -/
def aesSetupRounds (P : Platform) (key : Bytes) (mode : AesMode) (sender : Pid) :
    Nat → Serve UInt8
  | 0 => throw .tooManyAesContexts
  | rounds + 1 => do
    let m ← get
    let id := m.nextContextId
    arithmetic P (id = 255)
    modify fun m => { m with nextContextId := id + 1 }
    if (m.aesContexts sender id).isSome then aesSetupRounds P key mode sender rounds
    else
      let keySlot ← allocateSecuramSlot key
      modify fun m => m.setContext sender id (some ⟨keySlot, false, mode.start⟩)
      return id

def aesSetup (P : Platform) (key : Bytes) (mode : AesMode) (sender : Pid) : Serve UInt8 :=
  aesSetupRounds P key mode sender 255

/-- A part of a buffer, and a buffer with a part replaced. -/
def part (buf : Bytes) (offset len : Nat) : Bytes := (buf.drop offset).take len

def patch (buf : Bytes) (offset : Nat) (bytes : Bytes) : Bytes :=
  buf.take offset ++ bytes ++ buf.drop (offset + bytes.length)

def AesContextMode.isStream : AesContextMode → Bool
  | .gcm .. | .ctr _ => true
  | _ => false

/-- The checks of `aes_execute` before it touches anything. -/
def checkExecute (P : Platform) (fates : Fates) (msg : AesExecute) (sender : Pid) :
    Serve AesContext := do
  arithmetic P (2 ^ 32 ≤ msg.offset.toNat + msg.len.toNat)
  let m ← get
  if m.lent.length < (msg.offset + msg.len).toNat ∨ msg.len = 0 then throw .invalidDataLength
  else
    ensureAesIdle fates
    let context ← lookupContext sender msg.transferId
    if context.finalized then throw .invalidState
    else if context.mode.isStream = false ∧ msg.len.toNat % 16 ≠ 0 then throw .unalignedDataLength
    else if m.lent.length < msg.offset.toNat + msg.len.toNat then throw .invalidParameter
    else return context

/-- The mode of a run. When CBC decrypts, the next vector is taken before the data is replaced. -/
def executeMode (msg : AesExecute) (sender : Pid) (key : Bytes) : AesContextMode → Serve HwMode
  | .ecb => return .ecb key
  | .cbc iv => do
    let m ← get
    if msg.direction = .decrypt then
      let data := part m.lent msg.offset.toNat msg.len.toNat
      updateContext sender msg.transferId
        fun context => { context with mode := .cbc (Words.ofBytes (lastBlock data)) }
      return .cbc key iv
    else return .cbc key iv
  | .gcm _ _ iv ctr ghash => return .gcm key iv ctr ghash
  | .ctr ctr =>
    if ctr.isCtrRollover (msg.len / 16) then throw .invalidDataLength
    else return .counter key ctr

/-- The whole blocks go through the peripheral by DMA. -/
def executeDma (P : Platform) (fates : Fates) (offset alignedLen : Nat) : Serve Unit := do
  let m ← get
  let fed := m.aes.feedAll P.cipher (blocks 16 (part m.lent offset alignedLen))
  let broken (e : DmaError) : Serve Unit := do
    modify fun m => { m with lent := patch m.lent offset (fed.1.take fates.moved) }
    throw (convertDmaError e)
  if 0 < alignedLen then
    match fates.dmaTx, fates.dmaRx, fates.dmaWait with
    | some e, _, _ => throw (convertDmaError e)
    | none, some e, _ => broken e
    | none, none, some e => broken e
    | none, none, none =>
      modify fun m => { m.uses .aes with lent := patch m.lent offset fed.1, aes := fed.2 }
  else return ()

/-- The last block, when it is not whole. -/
def executeTail (P : Platform) (msg : AesExecute) (sender : Pid) (offset tailLen : Nat) :
    Serve Unit := do
  if tailLen = 0 then return ()
  else
    let m ← get
    let fed := m.aes.feed P.cipher (pad (part m.lent offset tailLen))
    modify fun m =>
      { m.uses .aes with lent := patch m.lent offset (fed.1.take tailLen), aes := fed.2 }
    updateContext sender msg.transferId fun context => { context with finalized := true }

/-- What the context carries to the next call. -/
def advance (P : Platform) (msg : AesExecute) (sender : Pid) : Serve Unit := do
  let context ← lookupContext sender msg.transferId
  let m ← get
  match context.mode with
  | .ecb => return ()
  | .cbc _ =>
    if msg.direction = .encrypt then
      let data := part m.lent msg.offset.toNat msg.len.toNat
      updateContext sender msg.transferId
        fun context => { context with mode := .cbc (Words.ofBytes (lastBlock data)) }
    else return ()
  | .gcm aadlen datalen iv ctr _ =>
    arithmetic P (2 ^ 32 ≤ ctr.toNat + msg.len.toNat / 16)
    arithmetic P (2 ^ 32 ≤ datalen.toNat + msg.len.toNat)
    updateContext sender msg.transferId fun context =>
      { context with
        mode := .gcm aadlen (datalen + msg.len) iv (ctr + msg.len / 16)
          (Words.ofBytes m.aes.chain.hash) }
  | .ctr ctr =>
    updateContext sender msg.transferId
      fun context => { context with mode := .ctr (ctr.add (msg.len / 16)) }

def aesExecute (P : Platform) (fates : Fates) (msg : AesExecute) (sender : Pid) :
    Serve UInt32 := do
  let context ← checkExecute P fates msg sender
  let key ← readAesKey context.keySlot
  let mode ← executeMode msg sender key context.mode
  enablePeripheral fates .aes
  useAes fun _ => (Aes.init (msg.direction = .encrypt) mode).setupForDma msg.len.toNat
  let alignedLen := msg.len.toNat / 16 * 16
  executeDma P fates msg.offset.toNat alignedLen
  executeTail P msg sender (msg.offset.toNat + alignedLen) (msg.len.toNat - alignedLen)
  advance P msg sender
  disablePeripheral fates .aes
  return msg.len

def aesAad (P : Platform) (fates : Fates) (id : UInt8) (aad : Bytes) (sender : Pid) :
    Serve UInt32 := do
  ensureAesIdle fates
  let context ← lookupContext sender id
  if context.finalized then throw .invalidState
  else
    let key ← readAesKey context.keySlot
    match context.mode with
    | .gcm aadlen datalen iv ctr ghash =>
      if datalen ≠ 0 then throw .invalidState
      else
        enablePeripheral fates .aes
        useAes fun _ => (Aes.init true (.gcm key iv ctr ghash)).processAad P.cipher aad
        let m ← get
        arithmetic P (2 ^ 32 ≤ aadlen.toNat + aad.length)
        updateContext sender id fun context =>
          { context with
            mode := .gcm (aadlen + UInt32.ofNat aad.length) datalen iv ctr
              (Words.ofBytes m.aes.chain.hash) }
        disablePeripheral fates .aes
        return UInt32.ofNat aad.length
    | _ => throw .invalidMode

/-- `(len * 8).to_be_bytes()` in the upper and in the lower half of a block. -/
def tagLengths (aadlen datalen : UInt32) : Bytes :=
  List.replicate 4 0 ++ ByteStream.be 4 (aadlen * 8).toNat ++ List.replicate 4 0 ++
    ByteStream.be 4 (datalen * 8).toNat

def aesGetTag (P : Platform) (fates : Fates) (id : UInt8) (sender : Pid) : Serve Bytes := do
  ensureAesIdle fates
  let context ← lookupContext sender id
  match context.mode with
  | .gcm aadlen datalen iv ctr ghash =>
    updateContext sender id fun context => { context with finalized := true }
    let key ← readAesKey context.keySlot
    enablePeripheral fates .aes
    arithmetic P (2 ^ 32 ≤ aadlen.toNat * 8)
    arithmetic P (2 ^ 32 ≤ datalen.toNat * 8)
    useAes fun _ => (Aes.init true (.gcm key iv ctr ghash)).processAad P.cipher
      (tagLengths aadlen datalen)
    let hashed ← get
    let s := (Words.ofBytes hashed.aes.chain.hash).toBytes
    useAes fun _ => Aes.init true (.counter key (Iv.fromGcmParams iv 1))
    let m ← get
    let fed := m.aes.feedAll P.cipher (blocks 16 s)
    useAes fun _ => fed.2
    return fed.1
  | _ => throw .invalidMode

def aesClear (id : UInt8) (sender : Pid) : Serve Unit := do
  let m ← get
  match m.aesContexts sender id with
  | some context =>
    modify fun m => m.setContext sender id none
    deallocateSecuramSlot context.keySlot
  | none => return ()

/-! ## 5. Disk encryption -/

def startDiskEncryptDmas (fates : Fates) (msg : DiskEncryptUnsafe) : Serve Unit := do
  let m ← get
  require .securamCorrupted m.securam.magic
  let keys := m.securam.diskEncryptionKeys
  if keys.1.all (· = 0) ∨ keys.2.all (· = 0) then throw .invalidKeyLength
  else
    useAes fun _ => { Aes.reset with key := keys.1, clen := msg.len.toNat }
    if msg.src = 0 ∨ msg.dst = 0 then throw .invalidAddress
    else
      call (fun _ => .dmaError) fates.dmaTx (return ())
      call (fun _ => .dmaError) fates.dmaRx (modify fun m => { m with transferring := true })

def diskEncryptStart (fates : Fates) (msg : DiskEncryptUnsafe) : Serve Unit := do
  if msg.len.toNat % 16 ≠ 0 ∨ msg.len = 0 then throw .invalidDataLength
  else
    enablePeripheral fates .aes
    ensureAesIdle fates
    let started ← attempt (startDiskEncryptDmas fates msg)
    match started with
    | .ok () => modify fun m => { m with diskEncryptInFlight := true }
    | .error e =>
      ignore (disablePeripheral fates .aes)
      throw e

/-- Whether the client is told. -/
def onDmaTransferComplete (fates : Fates) : Serve Bool := do
  let m ← get
  if m.diskEncryptInFlight = false then return false
  else
    modify fun m => { m with diskEncryptInFlight := false }
    ignore (disablePeripheral fates .aes)
    return m.diskEncryptSubscriber && !fates.notify

/-! ## 6. SHA contexts -/

def hmac (P : Platform) (fates : Fates) (algo : ShaAlgo) (key data : Bytes) : Serve Bytes := do
  let m ← get
  let needsPower := m.shaContexts.isEmpty
  onlyIf needsPower (enablePeripheral fates .sha)
  modify fun m => m.uses .sha
  onlyIf needsPower (disablePeripheral fates .sha)
  return P.hmac algo key data

def findSha (contexts : List ((Pid × UInt32) × ShaContext)) (key : Pid × UInt32) :
    Option ShaContext :=
  (contexts.find? fun entry => entry.1 = key).map (·.2)

def insertSha (contexts : List ((Pid × UInt32) × ShaContext)) (key : Pid × UInt32)
    (context : ShaContext) : List ((Pid × UInt32) × ShaContext) :=
  (key, context) :: contexts.filter fun entry => entry.1 ≠ key

def setHashState (key : Pid × UInt32) (hashState : Bytes)
    (contexts : List ((Pid × UInt32) × ShaContext)) : List ((Pid × UInt32) × ShaContext) :=
  contexts.map fun entry =>
    if entry.1 = key then (entry.1, { entry.2 with hashState := hashState }) else entry

def shaSetContext (P : Platform) (fates : Fates) (sender : Pid) (msg : ShaSetContext) :
    Serve UInt32 := do
  let m ← get
  match msg.contextId with
  | some existingId =>
    if (findSha m.shaContexts (sender, existingId)).isSome then
      modify fun m =>
        { m with shaContexts := setHashState (sender, existingId) msg.hashState m.shaContexts }
      return existingId
    else throw .invalidParameter
  | none =>
    onlyIf m.shaContexts.isEmpty (enablePeripheral fates .sha)
    arithmetic P (m.lastShaContextId.toNat + 1 = 2 ^ 32)
    let id := m.lastShaContextId + 1
    modify fun m =>
      { m with
        lastShaContextId := id
        shaContexts := insertSha m.shaContexts (sender, id) ⟨msg.algo, msg.hashState⟩ }
    return id

def shaUpdate (P : Platform) (fates : Fates) (sender : Pid) (contextId length : UInt32) :
    Serve UInt32 := do
  let m ← get
  let context ← okOr .invalidParameter (findSha m.shaContexts (sender, contextId))
  modify fun m => m.uses .sha
  if m.lent.length < length.toNat ∨ length = 0 then throw .invalidParameter
  else
    call .xousError fates.flushCache (return ())
    call convertDmaError fates.dmaTx (return ())
    call convertDmaError fates.dmaWait (return ())
    let hashState := P.shaBlocks context.algo context.hashState (m.lent.take length.toNat)
    modify fun m =>
      { m with shaContexts := setHashState (sender, contextId) hashState m.shaContexts }
    return length

def shaGetContext (sender : Pid) (contextId : UInt32) : Serve ShaContext := do
  let m ← get
  okOr .invalidParameter (findSha m.shaContexts (sender, contextId))

/-- The block is powered down once its last context is gone. -/
def retainSha (fates : Fates) (keep : Pid × UInt32 → Bool) : Serve Unit := do
  let m ← get
  let left := m.shaContexts.filter fun entry => keep entry.1
  modify fun m => { m with shaContexts := left }
  onlyIf (left.length < m.shaContexts.length ∧ left = []) (ignore (disablePeripheral fates .sha))

def shaDrop (fates : Fates) (sender : Pid) (contextId : UInt32) : Serve Unit :=
  retainSha fates fun key => key ≠ (sender, contextId)

/-! ## 7. Clients -/

/-- The ids of a map's keys, in their order. -/
def contextIds : List UInt8 := (List.range 256).map UInt8.ofNat

def clearClientContexts (fates : Fates) (pid : Pid) : Serve Unit := do
  forEach contextIds fun id => aesClear id pid
  retainSha fates fun key => key.1 ≠ pid

end Crypto
