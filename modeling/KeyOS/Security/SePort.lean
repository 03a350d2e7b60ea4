import KeyOS.Security.Element

/-!
# Seeds, PINs and login counters

The functions of the server that talk to the element. A PIN and the one-time key in the
SECURAM give the PIN hash, the write key of the login counters. The seed is stored XORed
with a hash of the PIN and with the one-time key, and its block is the write key of the
PIN hash.
-/

namespace Security

open Exec Interrupt Interruptible

def maxLoginAttempts : Nat := 10

def minPinLength : Nat := 6

/-- `b"PIN"` -/
def pinPrefix : List UInt8 := [0x50, 0x49, 0x4e]

/-- `b"SeedEncryption"` -/
def seedEncryptionSalt : List UInt8 :=
  [0x53, 0x65, 0x65, 0x64, 0x45, 0x6e, 0x63, 0x72, 0x79, 0x70, 0x74, 0x69, 0x6f, 0x6e]

/-- `b"Fingerprint"` -/
def fingerprintSalt : List UInt8 :=
  [0x46, 0x69, 0x6e, 0x67, 0x65, 0x72, 0x70, 0x72, 0x69, 0x6e, 0x74]

/-- `b"AES"` -/
def aesDiskKeyEncryptionSalt : List UInt8 := [0x41, 0x45, 0x53]

/-! ## 1. Seeds -/

inductive Seed where
  | twelve (seed : Bytes 16)
  | twentyFour (seed : Bytes 32)
deriving DecidableEq

/-- A seed that is XORed with the hash of a PIN. Only this form is stored. -/
inductive XorSeed where
  | twelve (seed : Bytes 16)
  | twentyFour (seed : Bytes 32)
deriving DecidableEq

namespace Seed

def bytes : Seed → List UInt8
  | twelve seed => List.ofFn seed
  | twentyFour seed => List.ofFn seed

def pinHashXor (xorHash : XorPinHash) : Seed → XorSeed
  | twelve seed => .twelve (xorBytes seed xorHash)
  | twentyFour seed => .twentyFour (xorBytes seed xorHash)

end Seed

namespace XorSeed

def tag : XorSeed → UInt8
  | twelve _ => 0x12
  | twentyFour _ => 0x24

/-- The seed as the first bytes of an array of 32. -/
def padded : XorSeed → Bytes 32
  | twelve seed => resize 32 seed
  | twentyFour seed => seed

/-- A seed of zeros is stored as it is. -/
def skipEncrypting : XorSeed → Bool
  | twelve seed => seed = zeros 16
  | twentyFour seed => seed = zeros 32

def tagged (x : XorSeed) : Bytes 33 := fun i =>
  if h : i.val < 32 then x.padded ⟨i.val, h⟩ else x.tag

/-- The form in which the seed is stored: its last byte says how long the seed is. -/
def encryptTagged (x : XorSeed) (otpKey : Bytes 72) : Bytes 33 :=
  if x.skipEncrypting then x.tagged else xorBytes x.tagged otpKey

/-- The block of the stored seed, the write key of the PIN hash. -/
def encryptUntagged (x : XorSeed) (otpKey : Bytes 72) : Bytes 32 :=
  if x.skipEncrypting then x.padded else xorBytes x.padded otpKey

/-- Undo `encryptTagged`. A wrong tag is a panic. -/
def decryptTagged (taggedBytes : Bytes 33) (otpKey : Bytes 72) : Option XorSeed :=
  let decrypted :=
    if resize 32 taggedBytes = zeros 32 then taggedBytes else xorBytes taggedBytes otpKey
  if decrypted 32 = 0x12 then some (.twelve (resize 16 decrypted))
  else if decrypted 32 = 0x24 then some (.twentyFour (resize 32 decrypted))
  else none

def pinHashXor (xorHash : XorPinHash) : XorSeed → Seed
  | twelve seed => .twelve (xorBytes seed xorHash)
  | twentyFour seed => .twentyFour (xorBytes seed xorHash)

end XorSeed

/-! ## 2. Hashes of a PIN -/

/-- A PIN as it is entered. -/
abbrev RawPin := List UInt8

variable (b : Board)

def newPin (rawPin : RawPin) : SecurityM Error (Bytes 32) := hashOf (b.sha256 rawPin)

def newXorPinHash (rawPin : RawPin) : SecurityM Error XorPinHash :=
  hashOf (b.sha256 (rawPin ++ seedEncryptionSalt))

def seedFingerprint (seed : Seed) : SecurityM Error (Bytes 32) :=
  hashOf (b.sha256 (seed.bytes ++ fingerprintSalt))

def mixinLocalSecrets (pre : List UInt8) (msg : Bytes 32) (otpKey : Bytes 72) :
    SecurityM Error (Bytes 32) :=
  hashOf (b.sha256 (List.ofFn b.ioProtectionSecret ++ pre ++ List.ofFn msg ++ List.ofFn otpKey))

/-- The hash that authenticates a PIN. It costs one login attempt. -/
def pinHashAttempt (pin : Bytes 32) (otpKey : Bytes 72) : SecurityM Error AuthPinHash := do
  let digest ← mixinLocalSecrets b pinPrefix pin otpKey
  pairUnlock b
  let digest ← hmac32 b .pinStretch digest
  pairUnlock b
  let digest ← hmac32 b .pinAttempt digest
  mixinLocalSecrets b pinPrefix digest otpKey

/-- An element that does not answer counts as a wrong PIN. -/
def isMainPin (digest : Bytes 32) : SecurityM Error Bool := do
  pairUnlock b
  let result : Except Error Unit ← attempt (checkmacHard .pinHash digest)
  match result with
  | .ok () => pure true
  | .error _ => pure false

/-! ## 3. The login counters -/

structure LastSuccess where
  numFails : Nat
  attemptsLeft : Nat
deriving DecidableEq, Repr

/-- How many attempts are left, as the element's slots and counter say. -/
def getLastSuccess : SecurityM Error LastSuccess := do
  pairUnlock b
  let padded ← query fun e => .ok (e.slots .lastGood 0)
  pairUnlock b
  let tempkey ← gendigSlot .lastGood padded
  requireTempkey tempkey
  let lastgood ← readSlotAsCounterInsecure b .lastGood
  let matchCount ← readSlotAsCounterInsecure b .matchCount
  let counter ← getCounterInsecure .loginAttempt
  pure {
    numFails := if lastgood > counter then 99 else counter - lastgood
    attemptsLeft := dropLowBits matchCount - counter }

/-- `a - b` of two `u32` -/
def subU32 (a b : Nat) : Nat := (a + 2 ^ 32 - b) % 2 ^ 32

/-- The new match count: a multiple of 32 that leaves at least `MAX_LOGIN_ATTEMPTS`. -/
def newMatchCount (attemptCnt : Nat) : Nat :=
  dropLowBits ((attemptCnt + maxLoginAttempts + 32) % 2 ^ 32)

/-- By how much the attempt counter has to catch up with a match count. -/
def catchUpBy (matchCount attemptCnt : Nat) : Nat :=
  subU32 (subU32 matchCount maxLoginAttempts) attemptCnt

/-- The first half of `reset_login_counters`: the element does not let the counter pass the
match count, so the match count goes first. -/
def raiseMatchCount (digest : Bytes 32) : SecurityM Error (Nat × Nat) := do
  let attemptCnt ← getCounter .loginAttempt
  let matchCount := newMatchCount attemptCnt
  encryptedWrite b .matchCount .pinHash digest (leBytes [matchCount, matchCount])
  pure (attemptCnt, matchCount)

/-- The second half: the attempt counter catches up with the new match count. -/
def catchUp (digest : Bytes 32) (attemptCnt matchCount : Nat) : SecurityM Error Unit := do
  let newAttemptCnt ← addCounter .loginAttempt (catchUpBy matchCount attemptCnt)
  encryptedWrite32 b .lastGood 0 .pinHash digest (leBytes [newAttemptCnt])

/-- Update the login counters until there are `MAX_LOGIN_ATTEMPTS` login attempts left. -/
def resetLoginCounters (digest : Bytes 32) : SecurityM Error Unit := do
  let counts ← raiseMatchCount b digest
  catchUp b digest counts.1 counts.2

/-! ## 4. Seed and PIN slots -/

inductive LoginAttempt where
  | success (authHash : AuthPinHash)
  | failure (attemptsLeft : Nat)

/-- The check of a PIN. -/
def pinLoginAttempt (pin : Bytes 32) (otpKey : Bytes 72) : SecurityM Error LoginAttempt := do
  let authHash ← pinHashAttempt b pin otpKey
  let isMain ← isMainPin b authHash
  if isMain then pure (.success authHash)
  else
    let lastSuccess : Except Error LastSuccess ← attempt (getLastSuccess b)
    match lastSuccess with
    | .ok last => pure (.failure last.attemptsLeft)
    | .error _ => pure (.failure 0)

def getXorSeed (authHash : AuthPinHash) (otpKey : Bytes 72) : SecurityM Error XorSeed := do
  let buf ← encryptedRead b (Slot.size .seed) .seed .pinHash authHash
  match XorSeed.decryptTagged (resize 33 buf) otpKey with
  | some xorSeed => pure xorSeed
  | none => halt "Invalid seed tag"

def getSeed (authHash : AuthPinHash) (xorHash : XorPinHash) (otpKey : Bytes 72) :
    SecurityM Error Seed := do
  let xorSeed ← getXorSeed b authHash otpKey
  pure (xorSeed.pinHashXor xorHash)

def getAesEntropy (authHash : AuthPinHash) : SecurityM Error (Bytes 72) :=
  let slot := if b.aesKeysInSlot12 then Slot.keycardAuthenticity else .aesEntropy
  encryptedRead b 72 slot .pinHash authHash

/-- Write a new seed and its fingerprint, and return the seed as it is stored. -/
def changeSeed (seed : Seed) (xorHash : XorPinHash) (otpKey : Bytes 72) :
    SecurityM Error XorSeed := do
  let xored := seed.pinHashXor xorHash
  let encTagged := xored.encryptTagged otpKey
  pairUnlock b
  writeSlot .seed encTagged
  let fingerprint ← seedFingerprint b seed
  encryptedWrite b .seedFingerprint .seed (resize 32 encTagged) fingerprint
  pure xored

/-- The write of a new PIN hash, whose key is the seed as it is stored. -/
def storePinHash (xorSeed : XorSeed) (pin : Bytes 32) (otpKey : Bytes 72) :
    SecurityM Error AuthPinHash := do
  let pinHash ← pinHashAttempt b pin otpKey
  encryptedWrite b .pinHash .seed (xorSeed.encryptUntagged otpKey) pinHash
  pure pinHash

/- What the server does where the code calls `reset_login_counters`. It is a parameter so that
a part of that function can stand for it. -/
variable (reset : Bytes 32 → SecurityM Error Unit)

def setPin (xorSeed : XorSeed) (pin : Bytes 32) (otpKey : Bytes 72) : SecurityM Error Unit := do
  let pinHash ← storePinHash b xorSeed pin otpKey
  reset pinHash

def changePin (newPin : Bytes 32) (xorSeed : XorSeed) (oldXorHash newXorHash : XorPinHash)
    (otpKey : Bytes 72) : SecurityM Error Unit := do
  let newPinHash ← storePinHash b xorSeed newPin otpKey
  let newXored := (xorSeed.pinHashXor oldXorHash).pinHashXor newXorHash
  writeSlot .seed (newXored.encryptTagged otpKey)
  reset newPinHash

structure LockoutOptions where
  seedFingerprint : Bool
  aesKeys : Bool

def LockoutOptions.eraseSeedOnly : LockoutOptions := ⟨false, false⟩

/-- The seed and the PIN hash go back to zeros, and the login counters are reset. -/
def resetAuthData (options : LockoutOptions) (entropy : Bytes 72) : SecurityM Error Unit := do
  pairUnlock b
  writeSlot .seed (zeros (Slot.size .seed))
  Prog.onlyIf (options.seedFingerprint = true)
    (encryptedWrite b .seedFingerprint .seed (zeros 32) (zeros (Slot.size .seedFingerprint)))
  encryptedWrite b .pinHash .seed (zeros 32) (zeros (Slot.size .pinHash))
  reset (zeros 32)
  Prog.onlyIf (options.aesKeys = true)
    (encryptedWrite b (if b.aesKeysInSlot12 then .keycardAuthenticity else .aesEntropy) .seed
      (zeros 32) entropy)

/-! ## 5. What the functions change -/

section Changes

variable {R : Machine → Machine → Prop} [Std.Refl R] [IsTrans Machine R]

/-- An attempt counts, whether the hash is right or not. -/
theorem pinHashAttempt_moves (pin : Bytes 32) (otpKey : Bytes 72)
    (h : ∀ m, R m { m with element := m.element.count .loginAttempt }) :
    Moves R (pinHashAttempt b pin otpKey) :=
  Moves.bind hashOf_moves fun _ => Moves.bind (pairUnlock_moves b) fun _ =>
    Moves.bind (hmac32_moves b _ _ nofun) fun _ => Moves.bind (pairUnlock_moves b) fun _ =>
      Moves.bind (hmac32_moves b _ _ fun _ => h) fun _ => hashOf_moves

theorem isMainPin_moves (digest : Bytes 32) : Moves R (isMainPin b digest) := by
  refine Moves.bind (pairUnlock_moves b) fun _ => ?_
  refine Moves.bind (checkmacHard_moves _ _).attempt fun result => ?_
  cases result <;> exact Moves.pure

theorem getLastSuccess_moves : Moves R (getLastSuccess b) :=
  Moves.bind (pairUnlock_moves b) fun _ => Moves.bind query_moves fun _ =>
    Moves.bind (pairUnlock_moves b) fun _ => Moves.bind (gendigSlot_moves _ _) fun _ =>
      Moves.bind (requireTempkey_moves _) fun _ =>
        Moves.bind (readSlotAsCounterInsecure_moves b _) fun _ =>
          Moves.bind (readSlotAsCounterInsecure_moves b _) fun _ =>
            Moves.bind query_moves fun _ => Moves.pure

theorem pinLoginAttempt_moves (pin : Bytes 32) (otpKey : Bytes 72)
    (h : ∀ m, R m { m with element := m.element.count .loginAttempt }) :
    Moves R (pinLoginAttempt b pin otpKey) := by
  refine Moves.bind (pinHashAttempt_moves b pin otpKey h) fun authHash => ?_
  refine Moves.bind (isMainPin_moves b authHash) fun isMain => ?_
  cases isMain with
  | true => exact Moves.pure
  | false =>
    refine Moves.bind (getLastSuccess_moves b).attempt fun last => ?_
    cases last <;> exact Moves.pure

theorem getXorSeed_moves (authHash : AuthPinHash) (otpKey : Bytes 72) :
    Moves R (getXorSeed b authHash otpKey) := by
  refine Moves.bind (encryptedRead_moves b _ _ _ _) fun buf => ?_
  cases XorSeed.decryptTagged (resize 33 buf) otpKey with
  | some xorSeed => exact Moves.pure
  | none => exact Moves.halt

theorem getSeed_moves (authHash : AuthPinHash) (xorHash : XorPinHash) (otpKey : Bytes 72) :
    Moves R (getSeed b authHash xorHash otpKey) :=
  Moves.bind (getXorSeed_moves b authHash otpKey) fun _ => Moves.pure

theorem changeSeed_moves (seed : Seed) (xorHash : XorPinHash) (otpKey : Bytes 72)
    (hseed : ∀ m blk data, R m { m with element := m.element.put .seed blk data })
    (hprint : ∀ m blk data, R m { m with element := m.element.put .seedFingerprint blk data }) :
    Moves R (changeSeed b seed xorHash otpKey) :=
  Moves.bind (pairUnlock_moves b) fun _ => Moves.bind (writeSlot_moves _ hseed) fun _ =>
    Moves.bind hashOf_moves fun _ =>
      Moves.bind (encryptedWrite_moves b _ _ _ hprint) fun _ => Moves.pure

end Changes

end Security
