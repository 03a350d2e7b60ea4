import KeyOS.Lib.Exec
import KeyOS.Security.SePort

/-!
# The Keycard service

The pool of the shards of one backup, filled by splitting the seed or from Keycards, and four
expectations that the shards that come are compared to. Shards and NDEF messages are those of
the crates `backup_shard` and `ndef`, known by their accessors; what the other services and the
tag answer while a request is handled is part of the request.
-/

namespace Keycard

open Exec
open Security (Seed)

abbrev Bytes := List UInt8

/-- `[u8; 32]` -/
abbrev Bytes32 := Security.Bytes 32

/-! ## 1. Schemes and errors -/

/-- How many shards restore the seed, and how many there are. -/
structure ShamirScheme where
  threshold : Nat
  shareCount : Nat
deriving DecidableEq, Repr

def ShamirScheme.DEFAULT : ShamirScheme := ⟨2, 3⟩

inductive ShamirError where
  | secretTooLong
  | tooManyShares
  | interpolationFailure
  | checksumFailure
  | secretTooShort
  | secretNotEvenLen
  | invalidThreshold
  | sharesUnequalLength
deriving DecidableEq, Repr

inductive CryptoError where
  | xousError (code : Nat)
  | unknownError
  | invalidParameter
  | dmaError
  | invalidAddress
  | invalidDataLength
  | bufferNotContiguous
  | tooManyAesContexts
  | tooManySecuramKeys
  | invalidKeyLength
  | unalignedDataLength
  | invalidMode
  | invalidState
deriving DecidableEq, Repr

inductive NfcError where
  | unknown
  | internal
  | timeout
  | disabled
  | xous
  | spi
  | gpio
deriving DecidableEq, Repr

inductive AccessDenied where
  | accessDenied
deriving DecidableEq, Repr

inductive KeycardError where
  | security (code : Nat)
  | shamir (error : ShamirError)
  | crypto (error : CryptoError)
  | nfc (error : NfcError)
  | ndef
  | noShardLeft
  | notMagicBackupShard
  | invalidData
  | differentDeviceId
  | seedMissing
  | differentSeedFingerprint
  | notEnoughShards
  | hmacMismatch
  | blankShard
  | blankTag
  | invalidScheme
  | schemeMismatch
  | timestampMismatch (expected found : UInt32)
  | duplicateShardIndex (index : Nat)
deriving DecidableEq, Repr

def KeycardError.ofAccessDenied : AccessDenied → KeycardError
  | .accessDenied => .security 0

/-- Where the service panics. -/
inductive Panic where
  | timeWentBackwards
  | invalidSeedLength
deriving DecidableEq, Repr

/-- `Seed::from_bytes` -/
def seedFromBytes (bytes : Bytes) : Option Seed :=
  if h : bytes.length = 16 then some (.twelve fun i => bytes.get (i.cast h.symm))
  else if h : bytes.length = 32 then some (.twentyFour fun i => bytes.get (i.cast h.symm))
  else none

/-! ## 2. Shards and messages -/

/-- The crates `backup_shard` and `ndef`, and the fingerprint that the security service
computes. -/
structure Crates where
  Shard : Type
  Record : Type
  deviceId : Shard → Bytes32
  seedFingerprint : Shard → Bytes32
  seedShamirShare : Shard → Bytes
  seedShamirShareIndex : Shard → Nat
  partOfMagicBackup : Shard → Bool
  schemeThreshold : Shard → Nat
  schemeShareCount : Shard → Nat
  timestamp : Shard → UInt32
  hmac : Shard → Bytes32
  hmacInput : Shard → Bytes → Bytes
  /-- `Shard::new` -/
  new : Bytes32 → Bytes32 → Bytes → Nat → Bool → Shard
  setSchemeThreshold : Shard → Nat → Shard
  setSchemeShareCount : Shard → Nat → Shard
  setTimestamp : Shard → UInt32 → Shard
  setHmac : Shard → Bytes32 → Shard
  /-- `Shard::decode` -/
  decode : Bytes → Option Shard
  /-- `to_vec` of a message with one record, the shard in CBOR -/
  toVec : Shard → Option Bytes
  /-- The records of `Message::try_from` -/
  records : Bytes → Option (List Record)
  isTypeCbor : Record → Bool
  payload : Record → Option Bytes
  fingerprint : Seed → Bytes32

variable {X : Crates}

namespace Crates

/-- The scheme that a shard carries. -/
def scheme (X : Crates) (shard : X.Shard) : ShamirScheme :=
  ⟨X.schemeThreshold shard, X.schemeShareCount shard⟩

/-- A shard of `generate_shards`. -/
def generated (X : Crates) (deviceId seedFingerprint : Bytes32) (scheme : ShamirScheme)
    (timestamp : UInt32) (withMagicBackup : Bool) (index : Nat) (share : Bytes) : X.Shard :=
  X.setTimestamp
    (X.setSchemeShareCount
      (X.setSchemeThreshold (X.new deviceId seedFingerprint share index withMagicBackup)
        scheme.threshold)
      scheme.shareCount)
    timestamp

/-- A shard that was generated says so. -/
structure Lawful (X : Crates) : Prop where
  seedFingerprint : ∀ deviceId fingerprint scheme timestamp magic index share,
    X.seedFingerprint (X.generated deviceId fingerprint scheme timestamp magic index share) =
      fingerprint
  seedShamirShareIndex : ∀ deviceId fingerprint scheme timestamp magic index share,
    X.seedShamirShareIndex (X.generated deviceId fingerprint scheme timestamp magic index share) =
      index
  scheme : ∀ deviceId fingerprint scheme timestamp magic index share,
    X.scheme (X.generated deviceId fingerprint scheme timestamp magic index share) = scheme
  timestamp : ∀ deviceId fingerprint scheme timestamp magic index share,
    X.timestamp (X.generated deviceId fingerprint scheme timestamp magic index share) = timestamp

end Crates

/-! ## 3. The state and the calls -/

structure Server (X : Crates) where
  currentDeviceId : Bytes32
  expectedSeedFingerprint : Bytes32
  shards : List X.Shard
  activeScheme : Option ShamirScheme
  expectedTimestamp : Option UInt32

/-- `[0; 32]` -/
def zeroFingerprint : Bytes32 := fun _ => 0

def Server.new (deviceId : Bytes32) : Server X :=
  { currentDeviceId := deviceId
    expectedSeedFingerprint := zeroFingerprint
    shards := []
    activeScheme := none
    expectedTimestamp := none }

/-- What the clock, the services and the tag answer while a request is handled. -/
structure Calls where
  /-- `None` before the epoch -/
  now : Option UInt32
  seed : Except AccessDenied (Option Seed)
  seedFingerprint : Except AccessDenied Bytes32
  splitSecret : Bytes → Nat → Nat → Except ShamirError (List Bytes)
  recoverSecret : List Nat → List Bytes → Except ShamirError Bytes
  /-- Why the fingerprint of a seed cannot be computed -/
  fingerprintError : Option AccessDenied
  sha256 : Bytes → Except CryptoError Bytes32
  keycardAuthenticityMac : Bytes32 → Except AccessDenied Bytes32
  readNdefRawMsg : Except NfcError (Bytes × Bytes)
  writeNdefRawMsg : Bytes → Bytes → Except NfcError Unit

def Calls.fingerprint (calls : Calls) (X : Crates) (seed : Seed) : Except AccessDenied Bytes32 :=
  match calls.fingerprintError with
  | some e => .error e
  | none => .ok (X.fingerprint seed)

/-- A method of the service. -/
abbrev Method (X : Crates) (α : Type) := Prog (Server X) Panic KeycardError α

/-! ## 4. Shards of this device -/

def reset : Method X Unit := fun s =>
  (.ok (), { s with
    shards := []
    activeScheme := none
    expectedSeedFingerprint := zeroFingerprint
    expectedTimestamp := none })

def setShamirScheme (scheme : ShamirScheme) : Method X Unit := fun s =>
  if scheme.threshold = 0 ∨ scheme.shareCount < scheme.threshold then (.err .invalidScheme, s)
  else (.ok (), { s with activeScheme := some scheme })

/-- The scheme of the next generation. -/
def Server.scheme (s : Server X) : ShamirScheme := s.activeScheme.getD .DEFAULT

/-- What `generate_shards` sets before its first call. -/
def Server.started (s : Server X) (timestamp : UInt32) : Server X :=
  { s with
    shards := []
    expectedSeedFingerprint := zeroFingerprint
    activeScheme := some s.scheme
    expectedTimestamp := some timestamp }

/-- The calls of `generate_shards`: the fingerprint and the shares of the seed. -/
def splitSeed (calls : Calls) (scheme : ShamirScheme) :
    Except KeycardError (Bytes32 × List Bytes) := do
  match ← calls.seed.mapError .ofAccessDenied with
  | none => throw .seedMissing
  | some seed =>
    let seedFingerprint ← calls.seedFingerprint.mapError .ofAccessDenied
    let seedShares ←
      (calls.splitSecret seed.bytes scheme.shareCount scheme.threshold).mapError .shamir
    pure (seedFingerprint, seedShares)

def generateShards (calls : Calls) (withMagicBackup : Bool) : Method X Unit := fun s =>
  match calls.now with
  | none => (.panic .timeWentBackwards, s)
  | some timestamp =>
    match splitSeed calls s.scheme with
    | .error e => (.err e, s.started timestamp)
    | .ok (seedFingerprint, seedShares) =>
      (.ok (), { s.started timestamp with
        shards := seedShares.mapIdx
          (X.generated s.currentDeviceId seedFingerprint s.scheme timestamp withMagicBackup) })

def popShard : Method X X.Shard := fun s =>
  match s.shards.getLast? with
  | none => (.err .noShardLeft, s)
  | some shard =>
    if X.partOfMagicBackup shard then (.ok shard, { s with shards := s.shards.dropLast })
    else (.err .notMagicBackupShard, { s with shards := s.shards.dropLast ++ [shard] })

def Server.hasIndex (s : Server X) (index : Nat) : Bool :=
  s.shards.any fun shard => X.seedShamirShareIndex shard == index

def pushShard (shard : X.Shard) (acceptDifferentDeviceId : Bool) : Method X Unit := fun s =>
  if X.partOfMagicBackup shard = false then (.err .notMagicBackupShard, s)
  else if X.seedFingerprint shard ≠ s.expectedSeedFingerprint then
    (.err .differentSeedFingerprint, s)
  else if acceptDifferentDeviceId = false ∧ X.deviceId shard ≠ s.currentDeviceId then
    (.err .differentDeviceId, s)
  else if s.hasIndex (X.seedShamirShareIndex shard) then
    (.err (.duplicateShardIndex (X.seedShamirShareIndex shard)), s)
  else
    match s.expectedTimestamp with
    | some expected =>
      if X.timestamp shard ≠ expected then
        (.err (.timestampMismatch expected (X.timestamp shard)), s)
      else (.ok (), { s with shards := s.shards ++ [shard] })
    | none =>
      (.ok (), { s with
        expectedTimestamp := some (X.timestamp shard), shards := s.shards ++ [shard] })

/-! ## 5. Shards on Keycards -/

def hmac (calls : Calls) (shard : X.Shard) (uid : Bytes) : Except KeycardError Bytes32 := do
  let inputHash ← (calls.sha256 (X.hmacInput shard uid)).mapError .crypto
  (calls.keycardAuthenticityMac inputHash).mapError .ofAccessDenied

def writeShardToKeycard (calls : Calls) (shard : X.Shard) (uid : Bytes) :
    Except KeycardError Unit := do
  let mac ← hmac calls shard uid
  match X.toVec (X.setHmac shard mac) with
  | none => throw .ndef
  | some rawMsg => (calls.writeNdefRawMsg uid rawMsg).mapError .nfc

def storeShardToKeycard (calls : Calls) (uid : Bytes) : Method X Unit := fun s =>
  match s.shards.getLast? with
  | none => (.err .noShardLeft, s)
  | some shard =>
    match writeShardToKeycard calls shard uid with
    | .ok () => (.ok (), { s with shards := s.shards.dropLast })
    | .error e => (.err e, { s with shards := s.shards.dropLast ++ [shard] })

/-- The authentic shard on the tag, and the tag's UID. -/
def readShard (X : Crates) (calls : Calls) : Except KeycardError (Bytes × X.Shard) := do
  let (uid, rawMsg) ← calls.readNdefRawMsg.mapError .nfc
  if rawMsg = [] then throw .blankTag
  match X.records rawMsg with
  | none => throw .ndef
  | some [record] =>
    if X.isTypeCbor record = false then throw .invalidData
    match X.payload record with
    | none => throw .invalidData
    | some payload =>
      match X.decode payload with
      | none => throw .invalidData
      | some shard =>
        let mac ← hmac calls shard uid
        if mac ≠ X.hmac shard then throw .hmacMismatch
        if X.seedShamirShare shard = [] then throw .blankShard
        pure (uid, shard)
  | some _ => throw .invalidData

structure LoadedShard where
  id : Bytes
  hasMagicBackup : Bool
  seedFingerprint : Bytes32
  scheme : ShamirScheme
  timestamp : UInt32

/-- What the first shard of a pool sets. -/
def Server.adopt (s : Server X) (shard : X.Shard) : Server X :=
  { s with
    expectedSeedFingerprint := X.seedFingerprint shard
    activeScheme := s.activeScheme.or (some (X.scheme shard))
    expectedTimestamp := s.expectedTimestamp.or (some (X.timestamp shard)) }

/-- What is compared when the pool is not empty. -/
def Server.compare (s : Server X) (shard : X.Shard) : Except KeycardError Unit := do
  if s.expectedSeedFingerprint ≠ X.seedFingerprint shard then throw .differentSeedFingerprint
  if let some active := s.activeScheme then
    if active ≠ X.scheme shard then throw .schemeMismatch
  if let some expected := s.expectedTimestamp then
    if X.timestamp shard ≠ expected then throw (.timestampMismatch expected (X.timestamp shard))

/-- The end of `load_shard_from_keycard`. -/
def admitShard (uid : Bytes) (shard : X.Shard) : Method X LoadedShard := fun s =>
  if s.hasIndex (X.seedShamirShareIndex shard) then
    (.err (.duplicateShardIndex (X.seedShamirShareIndex shard)), s)
  else
    (.ok ⟨uid, X.partOfMagicBackup shard, s.expectedSeedFingerprint, X.scheme shard,
        X.timestamp shard⟩,
      { s with shards := s.shards ++ [shard] })

def loadShardFromKeycard (calls : Calls) : Method X LoadedShard := fun s =>
  match readShard X calls with
  | .error e => (.err e, s)
  | .ok (uid, shard) =>
    if s.shards = [] then admitShard uid shard (s.adopt shard)
    else
      match s.compare shard with
      | .error e => (.err e, s)
      | .ok () => admitShard uid shard s

/-! ## 6. The seed -/

structure MasterSeedRestored where
  seed : Seed
  differentDeviceId : Bool

def reconstructSeed (calls : Calls) : Method X MasterSeedRestored := fun s =>
  match calls.recoverSecret (s.shards.map X.seedShamirShareIndex)
      (s.shards.map X.seedShamirShare) with
  | .error e => (.err (.shamir e), s)
  | .ok recovered =>
    match seedFromBytes recovered with
    | none => (.panic .invalidSeedLength, s)
    | some seed =>
      match calls.fingerprint X seed with
      | .error e => (.err (.ofAccessDenied e), s)
      | .ok seedFingerprint =>
        if seedFingerprint ≠ s.expectedSeedFingerprint then (.err .differentSeedFingerprint, s)
        else (.ok ⟨seed, s.shards.any fun shard => X.deviceId shard != s.currentDeviceId⟩, s)

def checkBackup (calls : Calls) : Method X Unit := fun s =>
  if s.shards.length < s.scheme.shareCount then (.err .notEnoughShards, s)
  else (reconstructSeed calls >>= fun _ => reset) s

def restoreMasterSeed (calls : Calls) : Method X MasterSeedRestored := fun s =>
  if s.shards.length < s.scheme.threshold then (.err .notEnoughShards, s)
  else
    (reconstructSeed calls >>= fun masterSeedRestored =>
      reset >>= fun _ => pure masterSeedRestored) s

/-! ## 7. Requests -/

inductive Request (X : Crates) where
  | resetShards
  | setShamirScheme (scheme : ShamirScheme)
  | generateShards (withMagicBackup : Bool)
  | popShard
  | pushShard (shard : X.Shard) (acceptDifferentDeviceId : Bool)
  | storeShardToKeycard (uid : Bytes)
  | loadShardFromKeycard
  | checkBackup
  | restoreMasterSeed

inductive Response (X : Crates) where
  | done
  | shard (shard : X.Shard)
  | loaded (loaded : LoadedShard)
  | restored (restored : MasterSeedRestored)

/-- A request, and what is answered to the service while it is handled. -/
structure Event (X : Crates) where
  request : Request X
  calls : Calls

def handle (event : Event X) : Method X (Response X) :=
  match event.request with
  | .resetShards => reset >>= fun _ => pure .done
  | .setShamirScheme scheme => setShamirScheme scheme >>= fun _ => pure .done
  | .generateShards withMagicBackup =>
    generateShards event.calls withMagicBackup >>= fun _ => pure .done
  | .popShard => popShard >>= fun shard => pure (.shard shard)
  | .pushShard shard accept => pushShard shard accept >>= fun _ => pure .done
  | .storeShardToKeycard uid => storeShardToKeycard event.calls uid >>= fun _ => pure .done
  | .loadShardFromKeycard => loadShardFromKeycard event.calls >>= fun loaded => pure (.loaded loaded)
  | .checkBackup => checkBackup event.calls >>= fun _ => pure .done
  | .restoreMasterSeed =>
    restoreMasterSeed event.calls >>= fun restored => pure (.restored restored)

end Keycard
