import KeyOS.Fido.NavThread
import KeyOS.Lib.Exec
import KeyOS.Lib.ByteStream

/-!
# The U2F side of the FIDO server

The server keeps three things in step by index: the security keys with their registered keys,
which are saved to a file after every change, the signing keys derived from the indices, and the
signing key that the next registration will use. A key handle is the two indices.

The libraries and services that the server calls are parameters: `Platform` holds the functions
that they compute, `Env` whether they answer during one request.
-/

namespace Fido

open Exec ByteStream

abbrev Bytes := List UInt8

/-! ## 1. What the server calls -/

/-- `K` are the signing keys, `F` the fingerprints. The seed of the app is fixed. -/
structure Platform (K F : Type) where
  hmac256 : String → Bytes
  fromSlice : Bytes → Option K
  /-- `VerifyingKey::from(&signing_key).to_sec1_bytes()` -/
  publicKey : K → Bytes
  /-- `signing_key.sign(data).to_der()` -/
  sign : K → Bytes → Bytes
  verify : Bytes → Bytes → Bytes → Bool
  presenceFingerprint : Bytes → F

/-- How a save of the state file ends: a failure panics, before or after the file is replaced. -/
inductive Save where
  | saved
  | lost
  | replaced
deriving DecidableEq

structure Env where
  now : Nat
  systemTime : Nat
  hmacAnswers : String → Bool
  sha256 : Bytes → Option Bytes
  signWithFidoKey : Bytes → Option Bytes
  /-- `Signature::from_slice(&sig)`, then `to_der` -/
  signatureToDer : Bytes → Option Bytes
  save : Save

inductive FidoError where
  | crypto
  | ecdsa
  | invalidIndex
  | emptyLabel
  | duplicateLabel
  | other
deriving DecidableEq

inductive Error where
  | conditionNotSatisfied
  | wrongData
  | wrongLength
  | instructionNotSupported (v : UInt8)
  | wrongParameter
  | other
  | hashing
  | signing
deriving DecidableEq

def Error.ofFidoError : FidoError → Error
  | .invalidIndex => .wrongData
  | _ => .other

/-! ## 2. State -/

structure RegisteredKeyU2f where
  applicationParameter : Bytes
  signatureCounter : Nat
  registeredTimestamp : Nat
deriving DecidableEq

structure RegisteredKeyCtap where
  rpId : String
  userId : Bytes
  signatureCounter : Nat
  registeredTimestamp : Nat
deriving DecidableEq

inductive RegisteredKey where
  | u2f (key : RegisteredKeyU2f)
  | ctap (key : RegisteredKeyCtap)
deriving DecidableEq

namespace RegisteredKey

def signatureCounter : RegisteredKey → Nat
  | .u2f key => key.signatureCounter
  | .ctap key => key.signatureCounter

/-- The release build does not check the addition for overflow. -/
def incSignatureCounter : RegisteredKey → RegisteredKey
  | .u2f key => .u2f { key with signatureCounter := (key.signatureCounter + 1) % 2 ^ 32 }
  | .ctap key => .ctap { key with signatureCounter := (key.signatureCounter + 1) % 2 ^ 32 }

end RegisteredKey

structure SecurityKey where
  registeredKeys : List RegisteredKey := []
  live : Bool := false
  label : String := ""
  color : Nat := 0
  icon : String := ""
  archived : Bool := false
  date : Nat := 0
deriving DecidableEq

namespace SecurityKey

def setArchived (key : SecurityKey) (archived : Bool) : SecurityKey :=
  { key with archived := archived, live := !archived }

def registeredKey (key : SecurityKey) (index : Nat) : Except FidoError RegisteredKey :=
  match key.registeredKeys[index]? with
  | some registered => .ok registered
  | none => .error .invalidIndex

/-- `registered_key_indexes(true, tag)` -/
def registeredKeyIndexes (key : SecurityKey) (tag : Bytes) : List Nat :=
  key.registeredKeys.zipIdx.filterMap fun (registered, index) =>
    match registered with
    | .u2f u2f => if u2f.applicationParameter = tag then some index else none
    | .ctap _ => none

end SecurityKey

abbrev FidoKeysState := List SecurityKey

structure FidoKey (K : Type) where
  signingKeys : List K := []
  next : Option (K × Bytes) := none

/-- The state in memory is the one in the file except while a guard is held. -/
structure FidoServer (K F : Type) where
  state : FidoKeysState
  fidoKeys : List (FidoKey K)
  attestationCertificate : Bytes
  nav : NavThread F
  selected : Option (Nat × Nat)

/-- A request panics with what the file holds then. -/
abbrev Handler (K F ε α : Type) : Type := Prog (FidoServer K F) FidoKeysState ε α

/-- Lengths and indices are `usize`, 32 bits wide on the device: `Vec::push` panics beyond
`isize::MAX` bytes. -/
def maxLen : Nat := 2 ^ 31 - 1

/-! ## 3. Signing keys -/

namespace FidoServer

variable {K F : Type} (P : Platform K F) (env : Env)

def derivationPath (securityKeyIndex registeredKeyIndex : Nat) : String :=
  "m/83696968’/1179473391’/" ++ toString securityKeyIndex ++ "/" ++ toString registeredKeyIndex

def signingKey (securityKeyIndex registeredKeyIndex : Nat) : Except FidoError K :=
  let path := derivationPath securityKeyIndex registeredKeyIndex
  if env.hmacAnswers path then
    match P.fromSlice (P.hmac256 path) with
    | some key => .ok key
    | none => .error .ecdsa
  else .error .crypto

/-- The keys that `populate_fido_keys` puts in place of the old ones. -/
def populateFidoKeys (state : FidoKeysState) : Except FidoError (List (FidoKey K)) :=
  state.zipIdx.mapM fun (securityKey, securityKeyIndex) => do
    let signingKeys ← securityKey.registeredKeys.zipIdx.mapM fun (_, registeredKeyIndex) =>
      signingKey P env securityKeyIndex registeredKeyIndex
    return { signingKeys := signingKeys, next := none }

def fidoKey (securityKeyIndex : Nat) : Handler K F FidoError (FidoKey K) := do
  let s ← Prog.get
  Prog.okOr .invalidIndex s.fidoKeys[securityKeyIndex]?

def setFidoKey (securityKeyIndex : Nat) (key : FidoKey K) : Handler K F FidoError Unit :=
  Prog.modify fun s => { s with fidoKeys := s.fidoKeys.set securityKeyIndex key }

def computeNextSigningKeyIfNeeded (securityKeyIndex : Nat) : Handler K F FidoError Unit := do
  let key ← fidoKey securityKeyIndex
  match key.next with
  | some _ => pure ()
  | none => do
    let nextSigningKey ← Prog.ofExcept (signingKey P env securityKeyIndex key.signingKeys.length)
    setFidoKey securityKeyIndex
      { key with next := some (nextSigningKey, P.publicKey nextSigningKey) }

def computeNextSigningKeys : Handler K F FidoError Unit := do
  let s ← Prog.get
  Prog.forEach (List.range s.fidoKeys.length) (computeNextSigningKeyIfNeeded P env)

/-- `Vec::push` of one of the vectors of the server. -/
def push {ε α : Type} (xs : List α) (x : α) : Handler K F ε (List α) := do
  let s ← Prog.get
  if xs.length < maxLen then pure (xs ++ [x]) else Prog.panic s.state

def useNextSigningKey (securityKeyIndex : Nat) : Handler K F FidoError Bytes := do
  computeNextSigningKeyIfNeeded P env securityKeyIndex
  let key ← fidoKey securityKeyIndex
  let next ← Prog.okOr .other key.next
  let signingKeys ← push key.signingKeys next.1
  setFidoKey securityKeyIndex { signingKeys := signingKeys, next := none }
  pure next.2

def peekNextRegistrationPublicKey (securityKeyIndex : Nat) : Handler K F FidoError Bytes := do
  computeNextSigningKeyIfNeeded P env securityKeyIndex
  let key ← fidoKey securityKeyIndex
  let next ← Prog.okOr .other key.next
  pure next.2

/-! ## 4. Security keys -/

/-- What is edited under a guard is saved when the guard is dropped, also when an index is wrong
and nothing was changed. -/
def guard {α : Type} (edit : FidoKeysState → Handler K F FidoError (α × FidoKeysState)) :
    Handler K F FidoError α := do
  let s ← Prog.get
  let result ← Prog.attempt (edit s.state)
  let state := match result with
    | .ok (_, state) => state
    | .error _ => s.state
  match env.save with
  | .lost => Prog.panic s.state
  | .replaced => Prog.panic state
  | .saved => do
    Prog.modify fun s => { s with state := state }
    match result with
    | .ok (a, _) => pure a
    | .error e => Prog.throw e

def securityKey (index : Nat) : Handler K F FidoError SecurityKey := do
  let s ← Prog.get
  Prog.okOr .invalidIndex s.state[index]?

def validateLabel (state : FidoKeysState) (excludeIndex : Option Nat) (label : String) : Bool :=
  if label.isEmpty then false
  else !state.zipIdx.any fun (key, i) => some i != excludeIndex && key.label == label

def createSecurityKey (label : String) (color : Nat) (icon : String) :
    Handler K F FidoError Nat := do
  let s ← Prog.get
  if label.isEmpty then Prog.throw .emptyLabel
  else if validateLabel s.state none label then do
    let fidoKeys ← push s.fidoKeys {}
    Prog.modify fun s => { s with fidoKeys := fidoKeys }
    computeNextSigningKeys P env
    let newIndex := s.state.length
    guard env fun state => do
      let state ← push state
        { label := label, color := color, icon := icon, live := true, date := env.systemTime }
      pure (newIndex, state)
  else Prog.throw .duplicateLabel

/-- `f` is applied to the key at the index. -/
def editKey (index : Nat) (f : SecurityKey → SecurityKey) : Handler K F FidoError Unit :=
  guard env fun state => do
    let key ← Prog.okOr .invalidIndex state[index]?
    pure ((), state.set index (f key))

def editSecurityKey (index : Nat) (label : String) (color : Nat) (icon : String) (date : Nat) :
    Handler K F FidoError Unit := do
  let s ← Prog.get
  if label.isEmpty then Prog.throw .emptyLabel
  else if validateLabel s.state (some index) label then
    editKey env index fun key =>
      { key with
        label := label
        color := color
        icon := icon
        date := if date ≠ 0 then date else key.date }
  else Prog.throw .duplicateLabel

def setArchived (index : Nat) (archived : Bool) : Handler K F FidoError Unit :=
  editKey env index fun key => key.setArchived archived

def selectSecurityKey (index : Option Nat) : Handler K F FidoError Unit := do
  let s ← Prog.get
  if index.any fun idx => s.state.length ≤ idx then Prog.throw .invalidIndex
  else Prog.modify fun s => { s with selected := index.map fun idx => (idx, env.now) }

/-! ## 5. Register -/

end FidoServer

structure KeyHandle where
  securityKeyIndex : Nat
  registeredKeyIndex : Nat
deriving DecidableEq

namespace KeyHandle

/-- Two big-endian `u32`s. -/
def toVec (h : KeyHandle) : Bytes := be 4 h.securityKeyIndex ++ be 4 h.registeredKeyIndex

def fromBytes (data : Bytes) : Except Error KeyHandle :=
  if data.length = 8 then .ok ⟨ofBe (data.take 4), ofBe (data.drop 4)⟩
  else .error .wrongData

end KeyHandle

structure RegisterRequest where
  challengeParameter : Bytes
  applicationParameter : Bytes

def RegisterRequest.fromApduData (data : Bytes) : Except Error RegisterRequest :=
  if data.length = 64 then .ok ⟨data.take 32, data.drop 32⟩ else .error .wrongLength

structure RegisterResponse where
  userPublicKey : Bytes
  keyHandle : KeyHandle
  attestationCertificate : Bytes
  attestationSignature : Bytes
deriving DecidableEq

namespace RegisterResponse

/-- The signature that `attest` puts into the response. -/
def attest (env : Env) (resp : RegisterResponse) (applicationParameter challengeParameter : Bytes) :
    Except Error Bytes :=
  let signatureBase := 0 :: applicationParameter ++ challengeParameter ++ resp.keyHandle.toVec ++
    resp.userPublicKey
  match env.sha256 signatureBase with
  | none => .error .hashing
  | some hash =>
    match env.signWithFidoKey hash with
    | none => .error .signing
    | some sig =>
      match env.signatureToDer sig with
      | none => .error .signing
      | some der => .ok der

end RegisterResponse

inductive Transport where
  | usb
  | nfc
deriving DecidableEq

structure U2fApduCommand where
  instruction : UInt8
  p1 : UInt8
  p2 : UInt8
  data : Bytes
deriving DecidableEq

namespace FidoServer

variable {K F : Type} [DecidableEq F] (P : Platform K F) (env : Env)

def pollOrStartPresence {ε : Type} (fingerprint : F) (options : UserPresenceOptions) :
    Handler K F ε PresencePoll := do
  let s ← Prog.get
  let polled := s.nav.poll env.now fingerprint options
  Prog.modify fun s => { s with nav := polled.nav }
  pure polled.verdict

/-- Peek, attest, commit: nothing is recorded when the attestation fails. -/
def attestAndRegisterU2f (securityKeyIndex : Nat)
    (applicationParameter challengeParameter : Bytes) : Handler K F Error RegisterResponse := do
  let publicKey ← Prog.mapErr .ofFidoError (peekNextRegistrationPublicKey P env securityKeyIndex)
  let key ← Prog.mapErr .ofFidoError (securityKey securityKeyIndex)
  let s ← Prog.get
  let keyHandle := KeyHandle.mk securityKeyIndex key.registeredKeys.length
  let resp := RegisterResponse.mk publicKey keyHandle s.attestationCertificate []
  let signature ← Prog.ofExcept (resp.attest env applicationParameter challengeParameter)
  Prog.mapErr .ofFidoError do
    let _ ← useNextSigningKey P env securityKeyIndex
    guard env fun state => do
      let key ← Prog.okOr .invalidIndex state[securityKeyIndex]?
      let registeredKeys ← push key.registeredKeys
        (.u2f ⟨applicationParameter, 0, env.systemTime⟩)
      pure ((), state.set securityKeyIndex { key with registeredKeys := registeredKeys })
  pure { resp with attestationSignature := signature }

/-- The key that is selected and was within the timeout. -/
def preSelected (s : FidoServer K F) : Option Nat :=
  s.selected.bind fun (idx, ts) => if env.now - ts < selectionTimeout then some idx else none

/-- The security key that a registration is for. -/
def registrationKey (fingerprint : F) (transport : Transport) : Handler K F Error Nat := do
  let s ← Prog.get
  match transport with
  | .nfc => do
    let selected ← Prog.okOr .other s.selected
    pure selected.1
  | .usb => do
    let verdict ← pollOrStartPresence env fingerprint (.registration (preSelected env s))
    match verdict with
    | .pending => Prog.throw .conditionNotSatisfied
    | .dismissed => Prog.throw .other
    | .confirmed selectedKeyIndex =>
      Prog.okOr .other (selectedKeyIndex.or (preSelected env s))

/-! ## 6. Authenticate -/

end FidoServer

structure AuthenticateRequest where
  challengeParameter : Bytes
  applicationParameter : Bytes
  keyHandle : KeyHandle

def AuthenticateRequest.fromApduData (data : Bytes) : Except Error AuthenticateRequest :=
  match data[64]? with
  | none => .error .wrongLength
  | some keyHandleLen =>
    if data.length = 64 + 1 + keyHandleLen.toNat then
      match KeyHandle.fromBytes (data.drop 65) with
      | .ok keyHandle => .ok ⟨data.take 32, (data.drop 32).take 32, keyHandle⟩
      | .error e => .error e
    else .error .wrongLength

structure AuthenticateResponse where
  userPresence : UInt8
  counter : Nat
  signature : Bytes
deriving DecidableEq

/-- What is signed: the data of the response between the parameters of the request. -/
def signatureBase (applicationParameter challengeParameter : Bytes) (userPresence : UInt8)
    (counter : Nat) : Bytes :=
  applicationParameter ++ userPresence :: be 4 counter ++ challengeParameter

namespace FidoServer

variable {K F : Type} [DecidableEq F] (P : Platform K F) (env : Env)

def signDer (securityKeyIndex registeredKeyIndex : Nat) (data : Bytes) :
    Handler K F FidoError Bytes := do
  let key ← fidoKey securityKeyIndex
  let signingKey ← Prog.okOr .invalidIndex key.signingKeys[registeredKeyIndex]?
  guard env fun state => do
    let key ← Prog.okOr .invalidIndex state[securityKeyIndex]?
    let registered ← Prog.okOr .invalidIndex key.registeredKeys[registeredKeyIndex]?
    let registeredKeys := key.registeredKeys.set registeredKeyIndex registered.incSignatureCounter
    pure ((), state.set securityKeyIndex { key with registeredKeys := registeredKeys })
  pure (P.sign signingKey data)

/-- Whether the user is present, asked for unless the key is selected or was tapped. -/
def authenticationPresence (fingerprint : F) (transport : Transport) (currentlySelected : Bool)
    (securityKeyIndex : Nat) : Handler K F Error Bool :=
  if currentlySelected then pure true
  else
    match transport with
    | .nfc => pure true
    | .usb => do
      let verdict ← pollOrStartPresence env fingerprint (.authenticate (some securityKeyIndex))
      match verdict with
      | .pending => Prog.throw .conditionNotSatisfied
      | .dismissed => Prog.throw .other
      | .confirmed _ => pure true

/-- `check-only` never prompts; the error that it ends with is the answer. -/
def checkOnly (req : AuthenticateRequest) : Handler K F Error AuthenticateResponse := do
  let key ← Prog.mapErr .ofFidoError (securityKey req.keyHandle.securityKeyIndex)
  if req.keyHandle.registeredKeyIndex ∈ key.registeredKeyIndexes req.applicationParameter then
    Prog.throw .conditionNotSatisfied
  else Prog.throw .wrongData

/-- The signature of a request whose user presence is settled. -/
def signRequest (req : AuthenticateRequest) (userPresent : Bool) :
    Handler K F Error AuthenticateResponse := do
  let key ← Prog.mapErr .ofFidoError (securityKey req.keyHandle.securityKeyIndex)
  let registeredKey ← Prog.mapErr .ofFidoError
    (Prog.ofExcept (key.registeredKey req.keyHandle.registeredKeyIndex))
  match registeredKey with
  | .ctap _ => Prog.throw .wrongData
  | .u2f u2f =>
    -- The handle must have been issued for the party that asks now.
    if u2f.applicationParameter = req.applicationParameter then do
      let userPresence : UInt8 := if userPresent then 1 else 0
      let counter := registeredKey.signatureCounter
      let signature ← Prog.mapErr .ofFidoError
        (signDer P env req.keyHandle.securityKeyIndex req.keyHandle.registeredKeyIndex
          (signatureBase req.applicationParameter req.challengeParameter userPresence counter))
      pure ⟨userPresence, counter, signature⟩
    else Prog.throw .wrongData

def authenticate (req : AuthenticateRequest) (p1 : UInt8) (fingerprint : F)
    (transport : Transport) : Handler K F Error AuthenticateResponse :=
  if p1 = 0x07 then checkOnly req
  else if p1 = 0x03 ∨ p1 = 0x08 then do
    let enforceUserPresence := p1 = 0x03
    let s ← Prog.get
    let currentlySelected := preSelected env s = some req.keyHandle.securityKeyIndex
    let key ← Prog.mapErr .ofFidoError (securityKey req.keyHandle.securityKeyIndex)
    if key.live = false ∧ ¬ currentlySelected then Prog.throw .wrongData
    else do
      let userPresent ← authenticationPresence env fingerprint transport currentlySelected
        req.keyHandle.securityKeyIndex
      if enforceUserPresence ∧ userPresent = false then Prog.throw .conditionNotSatisfied
      else signRequest P env req userPresent
  else Prog.throw .wrongParameter

/-! ## 7. Requests -/

end FidoServer

inductive Reply where
  | registered (resp : RegisterResponse)
  | authenticated (resp : AuthenticateResponse)
  | version
deriving DecidableEq

namespace FidoServer

variable {K F : Type} [DecidableEq F] (P : Platform K F) (env : Env)

def processApdu (command : U2fApduCommand) (transport : Transport) : Handler K F Error Reply :=
  let fingerprint := P.presenceFingerprint command.data
  if command.p2 ≠ 0 then Prog.throw .wrongParameter
  else if command.instruction = 0x01 then do
    let req ← Prog.ofExcept (RegisterRequest.fromApduData command.data)
    let securityKeyIndex ← registrationKey env fingerprint transport
    let resp ← attestAndRegisterU2f P env securityKeyIndex req.applicationParameter
      req.challengeParameter
    pure (.registered resp)
  else if command.instruction = 0x02 then do
    let req ← Prog.ofExcept (AuthenticateRequest.fromApduData command.data)
    let resp ← authenticate P env req command.p1 fingerprint transport
    pure (.authenticated resp)
  else if command.instruction = 0x03 then
    if command.p1 ≠ 0 then Prog.throw .wrongParameter else pure .version
  else Prog.throw (.instructionNotSupported command.instruction)

/-- The cached next keys are refreshed and the subscribers notified; a failure is logged. -/
def refreshAndNotify {ε : Type} : Handler K F ε Unit := do
  let _ ← Prog.result (computeNextSigningKeys P env)
  pure ()

def u2fProcessApdu (command : U2fApduCommand) (transport : Transport) :
    Handler K F FidoError (Except Error Reply) := do
  let res ← Prog.result (processApdu P env command transport)
  match res with
  | .ok (.registered _) => refreshAndNotify P env
  | .ok (.authenticated _) => refreshAndNotify P env
  | _ => pure ()
  pure res

/-- `FidoServer::new`, with the certificate that goes with the key of the secure element. -/
def new (file : FidoKeysState) (attestationCertificate : Option Bytes) :
    Except FidoError (FidoServer K F) :=
  match attestationCertificate with
  | none => .error .other
  | some certificate => do
    let fidoKeys ← populateFidoKeys P env file
    match computeNextSigningKeys P env ⟨file, fidoKeys, certificate, NavThread.start, none⟩ with
    | (.ok (), s) => .ok s
    | (.err e, _) => .error e
    | (.panic _, _) => .error .other

end FidoServer

inductive Request where
  | createSecurityKey (label : String) (color : Nat) (icon : String)
  | editSecurityKey (index : Nat) (label : String) (color : Nat) (icon : String) (date : Nat)
  | setArchived (index : Nat) (archived : Bool)
  | selectSecurityKey (index : Option Nat)
  | u2fProcessApdu (command : U2fApduCommand) (transport : Transport)

/-- The handlers of the server; only U2F requests have a reply that matters here. -/
def FidoServer.handle {K F : Type} [DecidableEq F] (P : Platform K F) (env : Env) :
    Request → Handler K F FidoError (Option (Except Error Reply))
  | .createSecurityKey label color icon => do
    let _ ← createSecurityKey P env label color icon
    refreshAndNotify P env
    pure none
  | .editSecurityKey index label color icon date => do
    editSecurityKey env index label color icon date
    refreshAndNotify P env
    pure none
  | .setArchived index archived => do
    setArchived env index archived
    refreshAndNotify P env
    pure none
  | .selectSecurityKey index => do
    selectSecurityKey env index
    pure none
  | .u2fProcessApdu command transport => do
    let reply ← u2fProcessApdu P env command transport
    pure (some reply)

end Fido
