import Mathlib

/-!
# Signed headers

A signed image starts with a header: its own fields, up to two signatures with their public
keys, and reserved bytes up to the size of the header. The two parsers differ in where the
hash of the binary comes from.
-/

namespace Cosign

abbrev Bytes := List UInt8

abbrev Pubkey := Vector UInt8 33

abbrev Signature := Vector UInt8 64

abbrev Digest := Vector UInt8 32

/-! ## 1. Headers -/

inductive Trust where
  /-- Only signed by a developer key. -/
  | thirdParty
  | disabled
  | unverified
  /-- Only signed by a single verified trusted key. -/
  | partiallyTrusted
  /-- Fully signed by two different verified trusted keys. -/
  | fullyTrusted
deriving DecidableEq, Repr

inductive VerificationResult where
  | valid
  | invalid
deriving DecidableEq, Repr

inductive Magic where
  | atsama5d27KeyOs
  | nrf52Ble
deriving DecidableEq, Repr

inductive Error where
  | binaryTooLong
  | headerTooShort
  | headerTooLong
  | headerWithNoSignature
  | invalidDateTrailingBytes
  | invalidDateUtf8
  | invalidBinarySize (header actual : UInt32)
  | invalidPubkey1
  | invalidPubkey2
  | invalidSignature1
  | invalidSignature2
  | invalidVersionSemver
  | invalidVersionTrailingBytes
  | invalidVersionUtf8
  | unknownPubkey1
  | unknownPubkey2
  | brokenSignatures
  | invalidSize
  | hashError
deriving DecidableEq, Repr

structure Header where
  magic : Vector UInt8 4
  timestamp : Vector UInt8 4
  date : Vector UInt8 14
  version : Vector UInt8 20
  binSize : Vector UInt8 4
  pubkey1 : Pubkey
  signature1 : Signature
  pubkey2 : Pubkey
  signature2 : Signature
  size : Nat
  hash : Digest
  binHash : Digest
  trust : Trust
deriving DecidableEq, Repr

def zeros (n : Nat) : Vector UInt8 n := Vector.replicate n 0

/-- `u32::from_le_bytes` -/
def fromLeBytes (b : Vector UInt8 4) : UInt32 :=
  b[0].toUInt32 ||| b[1].toUInt32 <<< 8 ||| b[2].toUInt32 <<< 16 ||| b[3].toUInt32 <<< 24

def Magic.fromBytes (b : Vector UInt8 4) : Option Magic :=
  if b.toList = [0x50, 0x52, 0x4D, 0x31] then some .atsama5d27KeyOs
  else if b.toList = [0x62, 0x6c, 0x65, 0x66] then some .nrf52Ble
  else none

namespace Header

def maxSize : Nat := 4096

/-- The size of the header data without the reserved padding. -/
def payloadSize : Nat := 240

/-- A size of headers. The fields are read without a check of their own, so a smaller one
would be out of range. -/
abbrev Size := { n : Nat // payloadSize ≤ n }

/-- `data[start..start + n]` -/
def slice (data : Bytes) (start n : Nat) : Vector UInt8 n :=
  Vector.ofFn fun i : Fin n => (data[start + i.val]?).getD 0

def deserialize (data : Bytes) (headerSize : Size) : Except Error (Option Header) :=
  if data.length < 4 then .ok none
  else if Magic.fromBytes (slice data 0 4) = none then .ok none
  else if data.length < headerSize.1 then .error .headerTooShort
  else .ok (some {
    magic := slice data 0 4
    timestamp := slice data 4 4
    date := slice data 8 14
    version := slice data 22 20
    binSize := slice data 42 4
    pubkey1 := slice data 46 33
    signature1 := slice data 79 64
    pubkey2 := slice data 143 33
    signature2 := slice data 176 64
    size := headerSize.1
    hash := zeros 32
    binHash := zeros 32
    trust := .unverified })

/-! ## 2. Hashes -/

/-- A zeroed buffer of 128 bytes that starts with `data`. -/
def hashBuf (data : Bytes) : Bytes := data ++ List.replicate (128 - data.length) 0

/-- The header fields that are hashed. -/
def fields (h : Header) : Bytes :=
  h.magic.toList ++ h.timestamp.toList ++ h.date.toList ++ h.version.toList ++ h.binSize.toList

section Hash

variable (sha : Bytes → Digest)

def computeHeaderFieldsHash (h : Header) : Digest := sha (hashBuf h.fields)

/-- Hashed twice to prevent length extension attacks. -/
def finalizeHash (headerHash reservedHash binHash : Digest) (h : Header) : Header :=
  let hash := sha (hashBuf (headerHash.toList ++ reservedHash.toList ++ binHash.toList))
  { h with hash := sha hash.toList, binHash }

/-- `hash` -/
def hashWith (reserved binary : Bytes) (h : Header) : Header :=
  h.finalizeHash sha (h.computeHeaderFieldsHash sha) (sha reserved) (sha binary)

def hashStreamingWith {ε : Type} (reserved : Bytes) (streamed : Except ε Digest) (h : Header) :
    Except ε Header := do
  let binHash ← streamed
  pure (h.finalizeHash sha (h.computeHeaderFieldsHash sha) (sha reserved) binHash)

end Hash

/-! ## 3. Checks -/

section Checks

variable (knownSigners : List Pubkey)

/-- `Err(e)` unless the condition holds. -/
def ensure (condition : Bool) (e : Error) : Except Error Unit :=
  if condition then .ok () else .error e

/-- `if condition { x }` -/
def onlyIf (condition : Bool) (x : Except Error Unit) : Except Error Unit :=
  if condition then x else .ok ()

def verifySignatures (verifyEcdsa : Digest → Signature → Pubkey → VerificationResult)
    (h : Header) : Except Error Unit := do
  onlyIf (h.signature1 != zeros 64) do
    ensure (verifyEcdsa h.hash h.signature1 h.pubkey1 == .valid) .invalidSignature1
    ensure (knownSigners.isEmpty || knownSigners.contains h.pubkey1) .unknownPubkey1
  onlyIf (h.signature2 != zeros 64) do
    ensure (verifyEcdsa h.hash h.signature2 h.pubkey2 == .valid) .invalidSignature2
    ensure (knownSigners.isEmpty || knownSigners.contains h.pubkey2 || h.signature1 == zeros 64)
      .unknownPubkey2

/-- The trust is told from the public keys alone. -/
def updateTrust (h : Header) : Except Error Header :=
  if knownSigners.length = 0 then .ok { h with trust := .disabled }
  else if knownSigners.contains h.pubkey1 && knownSigners.contains h.pubkey2 &&
      h.pubkey1 != h.pubkey2 then
    .ok { h with trust := .fullyTrusted }
  else if knownSigners.contains h.pubkey1 && h.pubkey2 == zeros 33 then
    .ok { h with trust := .partiallyTrusted }
  else if h.pubkey1 == zeros 33 && !knownSigners.contains h.pubkey2 then
    .ok { h with trust := .thirdParty }
  else .error .brokenSignatures

def isUtf8 (b : Bytes) : Bool := (ByteArray.mk b.toArray).validateUTF8

/-- The bytes before the first zero. -/
def text (b : Bytes) : Bytes := b.takeWhile (· != 0)

/-- Whether all the bytes from the first zero on are zero. -/
def padded (b : Bytes) : Bool := (b.dropWhile (· != 0)).all (· == 0)

/-- `validSemver` is the check of the optional feature `semver`. -/
def validateFields (validSemver : Bytes → Bool) (binary : Bytes) (checkSize : Bool)
    (h : Header) : Except Error Unit := do
  ensure (isUtf8 (text h.version.toList)) .invalidVersionUtf8
  ensure (validSemver (text h.version.toList)) .invalidVersionSemver
  ensure (padded h.version.toList) .invalidVersionTrailingBytes
  ensure (isUtf8 (text h.date.toList)) .invalidDateUtf8
  ensure (padded h.date.toList) .invalidDateTrailingBytes
  onlyIf checkSize do
    ensure (binary.length < 2 ^ 32) .binaryTooLong
    ensure ((fromLeBytes h.binSize).toNat == binary.length)
      (.invalidBinarySize (fromLeBytes h.binSize) (UInt32.ofNat binary.length))
  -- If a signature is zero, the corresponding pubkey must also be zero.
  ensure (h.signature1 != zeros 64 || h.pubkey1 == zeros 33) .invalidPubkey1
  ensure (h.signature2 != zeros 64 || h.pubkey2 == zeros 33) .invalidPubkey2

end Checks

/-! ## 4. The parsers -/

section Parsers

variable (knownSigners : List Pubkey) (sha : Bytes → Digest)
  (verifyEcdsa : Digest → Signature → Pubkey → VerificationResult) (validSemver : Bytes → Bool)

def parse (data : Bytes) (headerSize : Size) : Except Error (Option Header) := do
  ensure (headerSize.1 ≤ maxSize) .headerTooLong
  match ← deserialize data headerSize with
  | none => pure none
  | some header => do
    ensure (header.signature1 != zeros 64 || header.signature2 != zeros 64) .headerWithNoSignature
    let reserved := (data.take headerSize.1).drop payloadSize
    let binary := data.drop headerSize.1
    let header := header.hashWith sha reserved binary
    verifySignatures knownSigners verifyEcdsa header
    let header ← updateTrust knownSigners header
    validateFields validSemver binary true header
    pure (some header)

/-- `hashStreaming` hashes what the reader of the binary provides. -/
def parseStreaming {ε : Type} (hashStreaming : Nat → Except ε Digest) (headerData : Bytes)
    (binarySize : Nat) (headerSize : Size) : Except Error (Option Header) := do
  ensure (headerSize.1 ≤ maxSize) .headerTooLong
  ensure (headerSize.1 ≤ headerData.length) .headerTooShort
  match ← deserialize headerData headerSize with
  | none => pure none
  | some header => do
    ensure (header.signature1 != zeros 64 || header.signature2 != zeros 64) .headerWithNoSignature
    ensure ((fromLeBytes header.binSize).toNat == binarySize) .invalidSize
    let reserved := (headerData.take headerSize.1).drop payloadSize
    let header ← (header.hashStreamingWith sha reserved (hashStreaming binarySize)).mapError
      fun _ => .hashError
    verifySignatures knownSigners verifyEcdsa header
    let header ← updateTrust knownSigners header
    validateFields validSemver [] false header
    pure (some header)

end Parsers

end Header

end Cosign
