import KeyOS.Security.SePort

/-!
# The requests of the security server

The handlers, and histories of requests. The hashes of the PIN that is logged in are lost
when the server stops; the SECURAM keeps the one-time key through a reboot, but not the
disk keys.
-/

namespace Security

open Exec Interrupt Interruptible

/-! ## 1. Handlers -/

/-- The errors of the requests. -/
inductive Denied where
  | accessDenied
  | tooShort
  | loginFailed (attemptsLeft : Nat)
deriving DecidableEq, Repr

variable (b : Board)

def accessDenied {α : Type} (x : SecurityM Error α) : SecurityM Denied α :=
  mapErr (fun _ => .accessDenied) x

def validateRawPin (rawPin : RawPin) : SecurityM Denied Unit :=
  Prog.onlyIf (rawPin.length < minPinLength) (throw .tooShort)

def getPinHash : SecurityM Denied (AuthPinHash × XorPinHash) := do
  let hashes ← Prog.gets fun d => d.contents.pinHash
  match hashes with
  | some hashes => pure hashes
  | none => throw .accessDenied

def readOtpKey {ε : Type} : SecurityM ε (Bytes 72) := readSecuram fun s => s.otpKey

/-- The new one-time key is a draw of the random number generator. -/
def changeSeedAndOtpKey (seed : Seed) (xorHash : XorPinHash) (newOtpKey : Bytes 72) :
    SecurityM Error XorSeed := do
  withSecuram fun s => { s with otpKey := newOtpKey }
  changeSeed b seed xorHash newOtpKey

/-- The bytes of each word go the other way round. -/
def swapWords (a : Bytes 32) : Bytes 32 := fun i =>
  a ⟨4 * (i.val / 4) + (3 - i.val % 4), by omega⟩

def diskKeyPart (entropy : Bytes 72) (part : Nat) (seedDigest : Bytes 32) : Bytes 32 :=
  swapWords (xorBytes (chunk entropy part) seedDigest)

def deriveAesKeys (authHash : AuthPinHash) (xorHash : XorPinHash) : SecurityM Error Unit := do
  let otpKey ← readOtpKey
  let seed ← getSeed b authHash xorHash otpKey
  let entropy ← getAesEntropy b authHash
  let seedDigest ← hashOf (b.sha256 (seed.bytes ++ aesDiskKeyEncryptionSalt))
  withSecuram fun s => { s with
    diskEncryptionKeys := (diskKeyPart entropy 0 seedDigest, diskKeyPart entropy 1 seedDigest) }

/-- Set the disk keys up unless both are there. -/
def setupAesKeys (authHash : AuthPinHash) (xorHash : XorPinHash) : SecurityM Error Unit := do
  let keys ← readSecuram fun s => s.diskEncryptionKeys
  Prog.onlyIf (keys.1 = zeros 32 ∨ keys.2 = zeros 32) (deriveAesKeys b authHash xorHash)

def setPinEntryMode (mode : UInt8) : SecurityM Denied Unit :=
  withSecuram fun s => { s with pinEntryMode := mode }

/-- The checks and hashes of a new PIN. -/
def pinHashes (rawPin : RawPin) : SecurityM Denied (Bytes 32 × XorPinHash) := do
  validateRawPin rawPin
  let pin ← accessDenied (newPin b rawPin)
  let xorHash ← accessDenied (newXorPinHash b rawPin)
  pure (pin, xorHash)

/-- The seed of the request, or else the one that is stored. -/
def seedForPin (seed : Option Seed) (oldHashes : AuthPinHash × XorPinHash) (otpKey : Bytes 72) :
    SecurityM Denied XorSeed :=
  match seed with
  | some seed => pure (seed.pinHashXor oldHashes.2)
  | none => accessDenied (getXorSeed b oldHashes.1 otpKey)

/-- What `ChangePin` knows before it writes. -/
structure PinChange where
  oldXorHash : XorPinHash
  otpKey : Bytes 72
  xorSeed : XorSeed
  newPin : Bytes 32
  newAuthHash : AuthPinHash
  newXorHash : XorPinHash

def preparePinChange (rawPin : RawPin) (seed : Option Seed) : SecurityM Denied PinChange := do
  validateRawPin rawPin
  let oldHashes ← getPinHash
  let otpKey ← readOtpKey
  let xorSeed ← seedForPin b seed oldHashes otpKey
  let pin ← accessDenied (newPin b rawPin)
  let newAuthHash ← accessDenied (pinHashAttempt b pin otpKey)
  let newXorHash ← accessDenied (newXorPinHash b rawPin)
  pure ⟨oldHashes.2, otpKey, xorSeed, pin, newAuthHash, newXorHash⟩

/-- The check of a login. A failure before its end gives the request its default response. -/
def checkLogin (rawPin : RawPin) : SecurityM Denied (XorPinHash × LoginAttempt) := do
  let pin ← mapErr (fun _ => .loginFailed 0) (newPin b rawPin)
  let xorHash ← mapErr (fun _ => .loginFailed 0) (newXorPinHash b rawPin)
  let otpKey ← readOtpKey
  let loginAttempt ← mapErr (fun _ => .loginFailed 0) (pinLoginAttempt b pin otpKey)
  pure (xorHash, loginAttempt)

section Handlers

variable (reset : Bytes 32 → SecurityM Error Unit)

/-- The stores of `SetSeedAndPin`: the one-time key, the seed and the PIN hash. -/
def storeSeedAndPin (seed : Seed) (pin : Bytes 32) (xorHash : XorPinHash)
    (newOtpKey : Bytes 72) : SecurityM Error AuthPinHash := do
  let xorSeed ← changeSeedAndOtpKey b seed xorHash newOtpKey
  let authHash ← pinHashAttempt b pin newOtpKey
  setPin b reset xorSeed pin newOtpKey
  pure authHash

def setSeedAndPin (seed : Seed) (rawPin : RawPin) (pinEntry : UInt8) (newOtpKey : Bytes 72) :
    SecurityM Denied Unit := do
  let (pin, xorHash) ← pinHashes b rawPin
  let authHash ← accessDenied (storeSeedAndPin b reset seed pin xorHash newOtpKey)
  accessDenied (setupAesKeys b authHash xorHash)
  setPinHash (some (authHash, xorHash))
  setPinEntryMode pinEntry

def changePinRequest (rawPin : RawPin) (seed : Option Seed) (pinEntry : UInt8) :
    SecurityM Denied Unit := do
  let change ← preparePinChange b rawPin seed
  accessDenied (changePin b reset change.newPin change.xorSeed change.oldXorHash
    change.newXorHash change.otpKey)
  setPinHash (some (change.newAuthHash, change.newXorHash))
  setPinEntryMode pinEntry

/-- `securam.clear()`, where a failure is ignored. -/
def clearSecuram : SecurityM Error Unit :=
  step (fun _ => .cryptoAuthLib) fun m =>
    .ok ((), { m with securam := ⟨false, zeros 72, 0, (zeros 32, zeros 32)⟩ })

def lockout (options : LockoutOptions) (entropy : Bytes 72) : SecurityM Denied Unit := do
  accessDenied (resetAuthData b reset options entropy)
  let _ : Except Error Unit ← attempt clearSecuram
  let _ ← accessDenied (command (Element.increment .factoryReset))

/-- `pwr.reboot()` does not return. -/
def reboot : SecurityM Denied Unit := halt "reboot"

/-- The client has its answer before the counters are reset, so an error there is only logged. -/
def loginSucceeded (authHash : AuthPinHash) (xorHash : XorPinHash) : SecurityM Denied Unit := do
  setPinHash (some (authHash, xorHash))
  mapErr (fun _ => .loginFailed 0) (setupAesKeys b authHash xorHash)
  let _ : Except Error Unit ← attempt (reset authHash)

def loginFailed (attemptsLeft : Nat) (entropy : Bytes 72) : SecurityM Denied Unit := do
  Prog.onlyIf (attemptsLeft = 0) do
    expect "Could not lock out device" (lockout b reset .eraseSeedOnly entropy)
    reboot
  throw (.loginFailed attemptsLeft)

def login (rawPin : RawPin) (entropy : Bytes 72) : SecurityM Denied Unit := do
  let (xorHash, loginAttempt) ← checkLogin b rawPin
  match loginAttempt with
  | .success authHash => loginSucceeded b reset authHash xorHash
  | .failure attemptsLeft => loginFailed b reset attemptsLeft entropy

def lockoutRequest (options : LockoutOptions) (thenReboot : Bool) (entropy : Bytes 72) :
    SecurityM Denied Unit := do
  lockout b reset options entropy
  Prog.onlyIf (thenReboot = true) reboot

/-- Tamper detected: the sensitive data is erased. -/
def tamperEvent (entropy : Bytes 72) : SecurityM Denied Unit := do
  expect "Could not lock out" (lockout b reset .eraseSeedOnly entropy)
  reboot

end Handlers

def setSeed (seed : Seed) (newOtpKey : Bytes 72) : SecurityM Denied Unit := do
  let hashes ← getPinHash
  let _ ← accessDenied (changeSeedAndOtpKey b seed hashes.2 newOtpKey)

/-- No seed while the one-time key is zero. -/
def getSeedRequest : SecurityM Denied (Option Seed) := do
  let hashes ← getPinHash
  let otpKey ← readOtpKey
  if otpKey = zeros 72 then pure none
  else
    let seed ← accessDenied (getSeed b hashes.1 hashes.2 otpKey)
    pure (some seed)

def getAttemptsRemaining : SecurityM Denied Nat := do
  let lastSuccess ← accessDenied (getLastSuccess b)
  pure lastSuccess.attemptsLeft

/-! ## 2. Histories -/

/-- A request, with the draws of the random number generator that it takes. -/
inductive Request where
  | setSeedAndPin (seed : Seed) (rawPin : RawPin) (pinEntry : UInt8) (newOtpKey : Bytes 72)
  | changePin (rawPin : RawPin) (seed : Option Seed) (pinEntry : UInt8)
  | login (rawPin : RawPin) (entropy : Bytes 72)
  | logout
  | setSeed (seed : Seed) (newOtpKey : Bytes 72)
  | getSeed
  | getAttemptsRemaining
  | lockout (options : LockoutOptions) (thenReboot : Bool) (entropy : Bytes 72)
  | tamper (entropy : Bytes 72)

/-- The handler of a request. What a request returns beside its success is dropped. -/
def serve (reset : Bytes 32 → SecurityM Error Unit) : Request → SecurityM Denied Unit
  | .setSeedAndPin seed rawPin pinEntry newOtpKey =>
    setSeedAndPin b reset seed rawPin pinEntry newOtpKey
  | .changePin rawPin seed pinEntry => changePinRequest b reset rawPin seed pinEntry
  | .login rawPin entropy => login b reset rawPin entropy
  | .logout => setPinHash none
  | .setSeed seed newOtpKey => setSeed b seed newOtpKey
  | .getSeed => do
    let _ ← getSeedRequest b
  | .getAttemptsRemaining => do
    let _ ← getAttemptsRemaining b
  | .lockout options thenReboot entropy => lockoutRequest b reset options thenReboot entropy
  | .tamper entropy => tamperEvent b reset entropy

/-- What the bootloader makes of the SECURAM. -/
def Securam.boot (s : Securam) : Securam :=
  if s.intact then { s with diskEncryptionKeys := (zeros 32, zeros 32) }
  else ⟨true, zeros 72, 0, (zeros 32, zeros 32)⟩

def Machine.boot (m : Machine) : Machine := { m with securam := m.securam.boot, pinHash := none }

/-- The server is started again after a panic: its memory is empty. -/
def Machine.restart (m : Machine) : Machine := { m with pinHash := none }

/-- What follows a request that stops the server. -/
def Machine.settle {α : Type} : Outcome Empty (Stop Denied) α → Machine → Machine
  | .err .powerLoss, m => m.boot
  | .err (.halt _), m => m.restart
  | _, m => m

inductive Event where
  | request (req : Request) (fates : Nat → Fate Unit)
  | reboot

def Event.run : Event → Machine → Machine
  | .request req fates, m =>
    let (outcome, d) := serve b (resetLoginCounters b) req ⟨m, fates⟩
    d.contents.settle outcome
  | .reboot, m => m.boot

/-- `Histories b C m es m'`: the events `es` take `m` to `m'`, and each one satisfies `C` in
the state that it finds. -/
inductive Histories (C : Event → Machine → Prop) : Machine → List Event → Machine → Prop where
  | nil (m : Machine) : Histories C m [] m
  | cons {m m' : Machine} {e : Event} {es : List Event} (hC : C e m)
      (rest : Histories C (Event.run b e m) es m') : Histories C m (e :: es) m'

/-- The run rule: what every event keeps where `C` holds, a history keeps. -/
theorem Histories.keeps {C : Event → Machine → Prop} {I : Machine → Prop}
    (hstep : ∀ e m, C e m → I m → I (Event.run b e m)) {m m' : Machine} {es : List Event}
    (h : Histories b C m es m') (hm : I m) : I m' := by
  induction h with
  | nil => exact hm
  | cons hC _ ih => exact ih (hstep _ _ hC hm)

@[simp] theorem Machine.settle_element {α : Type} (outcome : Outcome Empty (Stop Denied) α)
    (m : Machine) : (m.settle outcome).element = m.element := by
  rcases outcome with a | (_ | message | e) | p <;> rfl

/-! ## 3. What the requests change -/

section Changes

variable {R : Machine → Machine → Prop} [Std.Refl R]

theorem validateRawPin_moves (rawPin : RawPin) : Moves R (validateRawPin rawPin) :=
  Moves.onlyIf Moves.throw

variable [IsTrans Machine R]

theorem getPinHash_moves : Moves R getPinHash := by
  refine Moves.bind Moves.gets fun hashes => ?_
  cases hashes with
  | none => exact Moves.throw
  | some hashes => exact Moves.pure

theorem pinHashes_moves (rawPin : RawPin) : Moves R (pinHashes b rawPin) :=
  Moves.bind (validateRawPin_moves rawPin) fun _ =>
    Moves.bind (Moves.mapErr hashOf_moves) fun _ =>
      Moves.bind (Moves.mapErr hashOf_moves) fun _ => Moves.pure

theorem seedForPin_moves (seed : Option Seed) (oldHashes : AuthPinHash × XorPinHash)
    (otpKey : Bytes 72) : Moves R (seedForPin b seed oldHashes otpKey) := by
  cases seed with
  | none => exact Moves.mapErr (getXorSeed_moves b _ _)
  | some seed => exact Moves.pure

theorem preparePinChange_moves (rawPin : RawPin) (seed : Option Seed)
    (h : ∀ m, R m { m with element := m.element.count .loginAttempt }) :
    Moves R (preparePinChange b rawPin seed) :=
  Moves.bind (validateRawPin_moves rawPin) fun _ => Moves.bind getPinHash_moves fun _ =>
    Moves.bind readSecuram_moves fun _ => Moves.bind (seedForPin_moves b _ _ _) fun _ =>
      Moves.bind (Moves.mapErr hashOf_moves) fun _ =>
        Moves.bind (Moves.mapErr (pinHashAttempt_moves b _ _ h)) fun _ =>
          Moves.bind (Moves.mapErr hashOf_moves) fun _ => Moves.pure

theorem checkLogin_moves (rawPin : RawPin)
    (h : ∀ m, R m { m with element := m.element.count .loginAttempt }) :
    Moves R (checkLogin b rawPin) :=
  Moves.bind (Moves.mapErr hashOf_moves) fun _ => Moves.bind (Moves.mapErr hashOf_moves) fun _ =>
    Moves.bind readSecuram_moves fun _ =>
      Moves.bind (Moves.mapErr (pinLoginAttempt_moves b _ _ h)) fun _ => Moves.pure

theorem setupAesKeys_moves (authHash : AuthPinHash) (xorHash : XorPinHash)
    (h : ∀ m keys, R m { m with securam := { m.securam with diskEncryptionKeys := keys } }) :
    Moves R (setupAesKeys b authHash xorHash) :=
  Moves.bind readSecuram_moves fun _ => Moves.onlyIf <| Moves.bind readSecuram_moves fun _ =>
    Moves.bind (getSeed_moves b _ _ _) fun _ =>
      Moves.bind (encryptedRead_moves b _ _ _ _) fun _ => Moves.bind hashOf_moves fun _ =>
        withSecuram_moves fun m => h m _

theorem getSeedRequest_moves : Moves R (getSeedRequest b) := by
  refine Moves.bind getPinHash_moves fun hashes => Moves.bind readSecuram_moves fun otpKey => ?_
  split
  · exact Moves.pure
  · exact Moves.bind (Moves.mapErr (getSeed_moves b _ _ _)) fun _ => Moves.pure

theorem getAttemptsRemaining_moves : Moves R (getAttemptsRemaining b) :=
  Moves.bind (Moves.mapErr (getLastSuccess_moves b)) fun _ => Moves.pure

end Changes

end Security
