import Mathlib

/-!
# The quantum link server

Envelopes arrive as byte strings from whoever sends them. One that unseals was sealed for this
device by its sender, so what can be unsealed is what was sealed: `World.sealed`. The server keeps
the paired device, the ids of the envelopes seen and the heartbeat that it waits for.

The events that the server reports to its subscribers are left out, and so are the messages that
it sends other than heartbeats: neither changes the server. The heartbeat timer may fire at any
time.
-/

namespace QuantumLink

abbrev Bytes := List UInt8

abbrev RequestId := List UInt8

/-! ## 1. Messages -/

structure PairingRequest (X : Type) where
  /-- The document that the bytes decode to, if they do. -/
  xidDocument : Option X
  deviceName : String
deriving DecidableEq

structure Heartbeat where
  requestId : Option RequestId
  timestampMs : Option Nat
deriving DecidableEq

/-- The messages that the subscribers are told of are one case. -/
inductive QuantumLinkMessage (X : Type) where
  | pairingRequest (request : PairingRequest X)
  | heartbeat (h : Heartbeat)
  | deviceNameUpdate (deviceName : String)
  | securityChallenge (data : Bytes)
  | notification (kind : Nat)
deriving DecidableEq

/-- `X` are the identities of devices, `A` the ids of envelopes. Instants are in nanoseconds. -/
structure UnsealedEnvoyMessage (X A : Type) where
  message : QuantumLinkMessage X
  /-- Seconds, as the sender's clock had them. -/
  timestamp : Nat
  sender : X
  arid : A
  expiresAt : Int
deriving DecidableEq

inductive Error where
  | unseal
  | alreadyPaired
  | invalidXid
  | senderMismatch
  | systemTimeOverflow
  | pairingResponse
  | notPaired
  | expired
  | futureDated
  | replayAttack
  /-- The handler panics. -/
  | panicked
deriving DecidableEq

/-! ## 2. State -/

inductive RequestState where
  | idle
  | pendingSend
  | waitingForResponse
deriving DecidableEq

structure HeartbeatState where
  live : Bool
  request : RequestState
  timeSync : Option RequestId
deriving DecidableEq

def HeartbeatState.dead : HeartbeatState := ⟨false, .idle, none⟩

structure PairedDevice (X : Type) where
  xid : X
  name : String
deriving DecidableEq

structure QuantumLinkServer (X A : Type) where
  pairedDevice : Option (PairedDevice X)
  shouldSetSystemTime : Bool
  /-- Ids with the instants at which they may be forgotten. -/
  aridCache : List (A × Int)
  lastReceivedName : Option String
  osVersion : Option String
  btConnected : Bool
  heartbeatState : HeartbeatState
  missedHeartbeats : Nat

inductive Event (X A : Type) where
  | heartbeatSent (requestId : RequestId)
  | clockSet (bytes : Bytes) (u : UnsealedEnvoyMessage X A)
  | paired (bytes : Bytes) (u : UnsealedEnvoyMessage X A)
  | pairingComplete (bytes : Bytes)
  | pairingFailed (bytes : Bytes)
  | unpaired
  | dispatched (bytes : Bytes) (u : UnsealedEnvoyMessage X A)
deriving DecidableEq

structure World (X A : Type) where
  server : QuantumLinkServer X A
  now : Int
  sealed : List (Bytes × UnsealedEnvoyMessage X A)
  history : List (Event X A)

/-- What the other servers and the random numbers are during one call. -/
structure Env where
  deviceId : Option String
  osVersionInfo : Option String
  requestId : RequestId

/-- `foundation_api`'s `EXPIRATION_DURATION` is a parameter. -/
structure Config where
  expirationDuration : Int

/-! ## 3. The id cache -/

inductive ReplayCheck where
  | fresh
  | replay
  | expired
deriving DecidableEq

section Cache

variable {A : Type} [DecidableEq A]

/-- An id is remembered until its envelope expires. -/
def checkAndStore (cache : List (A × Int)) (arid : A) (expiresAt now : Int) :
    ReplayCheck × List (A × Int) :=
  let cache := cache.filter fun entry => now < entry.2
  if expiresAt ≤ now then (.expired, cache)
  else if arid ∈ cache.map Prod.fst then (.replay, cache)
  else (.fresh, (arid, expiresAt) :: cache)

end Cache

/-! ## 4. Heartbeats -/

namespace QuantumLinkServer

variable {X A : Type}

/-- `get_current_os_version` keeps what it has found. -/
def withOsVersion (env : Env) (s : QuantumLinkServer X A) : QuantumLinkServer X A :=
  { s with osVersion := s.osVersion.or env.osVersionInfo }

def heartbeatFailure (s : QuantumLinkServer X A) : QuantumLinkServer X A :=
  let missed := s.missedHeartbeats + 1
  if 5 ≤ missed then
    { s with missedHeartbeats := missed, heartbeatState := .dead }
  else
    { s with
      missedHeartbeats := missed
      heartbeatState := { s.heartbeatState with request := .idle } }

def heartbeatSuccess (s : QuantumLinkServer X A) : QuantumLinkServer X A :=
  { s with missedHeartbeats := 0, heartbeatState := ⟨true, .idle, none⟩ }

/-- A heartbeat is sent, waited for, or given up. -/
def heartbeatTick (env : Env) (s : QuantumLinkServer X A) :
    QuantumLinkServer X A × List (Event X A) :=
  match s.heartbeatState.request with
  | .idle =>
    if s.btConnected = false ∨ s.pairedDevice.isNone then (s, [])
    else
      let s := s.withOsVersion env
      ({ s with
        heartbeatState :=
          { s.heartbeatState with request := .pendingSend, timeSync := some env.requestId } },
        [.heartbeatSent env.requestId])
  | .pendingSend => (s, [])
  | .waitingForResponse =>
    (heartbeatFailure { s with heartbeatState := { s.heartbeatState with timeSync := none } }, [])

def handleHeartbeatSendResult (ok : Bool) (s : QuantumLinkServer X A) : QuantumLinkServer X A :=
  if ok then { s with heartbeatState := { s.heartbeatState with request := .waitingForResponse } }
  else s.heartbeatFailure

def setBleState (env : Env) (connected : Bool) (s : QuantumLinkServer X A) :
    QuantumLinkServer X A × List (Event X A) :=
  let wasConnected := s.btConnected
  let s := { s with btConnected := connected }
  if wasConnected = false ∧ connected then heartbeatTick env { s with missedHeartbeats := 0 }
  else if wasConnected ∧ connected = false then
    ({ s with heartbeatState := .dead, missedHeartbeats := 0 }, [])
  else (s, [])

/-- `UnpairFromEnvoy` -/
def unpair (s : QuantumLinkServer X A) : QuantumLinkServer X A × List (Event X A) :=
  match s.pairedDevice with
  | none => (s, [])
  | some _ =>
    ({ s with pairedDevice := none, lastReceivedName := none, heartbeatState := .dead },
      [.unpaired])

def dispatchQlMessage (message : QuantumLinkMessage X) (s : QuantumLinkServer X A) :
    QuantumLinkServer X A :=
  let s := s.heartbeatSuccess
  match message with
  | .deviceNameUpdate name => { s with lastReceivedName := some name }
  | _ => s

end QuantumLinkServer

/-! ## 5. Received messages -/

namespace World

variable {X A : Type}

def log (w : World X A) (events : List (Event X A)) : World X A :=
  { w with history := w.history ++ events }

/-- A step of the server alone. -/
def serve (w : World X A) (result : QuantumLinkServer X A × List (Event X A)) : World X A :=
  { w with server := result.1, history := w.history ++ result.2 }

/-- Milliseconds become nanoseconds, which must fit 64 bits. -/
def syncSystemTime (w : World X A) (bytes : Bytes) (u : UnsealedEnvoyMessage X A)
    (timestampMs : Nat) : Except Error Unit × World X A :=
  if timestampMs * 1000000 < 2 ^ 64 then
    if w.server.shouldSetSystemTime then
      (.ok (), { w with
        now := (timestampMs * 1000000 : Nat), history := w.history ++ [Event.clockSet bytes u] })
    else (.ok (), w)
  else (.error .systemTimeOverflow, w)

/-- `send_pairing_response` -/
def sendPairingResponse (env : Env) (w : World X A) : Option Unit × World X A :=
  match env.deviceId with
  | none => (none, w)
  | some _ =>
    let server := w.server.withOsVersion env
    (server.osVersion.map fun _ => (), { w with server := server })

def setPairedDevice (w : World X A) (bytes : Bytes) (u : UnsealedEnvoyMessage X A)
    (device : PairedDevice X) : World X A :=
  { w with
    server := { w.server with pairedDevice := some device }
    history := w.history ++ [Event.paired bytes u] }

def takeTimeSync (w : World X A) : World X A :=
  { w with server := { w.server with
    heartbeatState := { w.server.heartbeatState with timeSync := none } } }

variable [DecidableEq X] [DecidableEq A]

/-- The device is paired before the response to it is made. -/
def handlePairingRequest (env : Env) (bytes : Bytes) (u : UnsealedEnvoyMessage X A)
    (request : PairingRequest X) (w : World X A) : Except Error Unit × World X A :=
  match w.server.pairedDevice with
  | some _ => (.error .alreadyPaired, w)
  | none =>
    match request.xidDocument with
    | none => (.error .invalidXid, w.log [.pairingFailed bytes])
    | some xid =>
      if xid ≠ u.sender then (.error .senderMismatch, w.log [.pairingFailed bytes])
      else
        match w.syncSystemTime bytes u (u.timestamp * 1000) with
        | (.error e, w) => (.error e, w.log [.pairingFailed bytes])
        | (.ok (), w) =>
          match (w.setPairedDevice bytes u ⟨xid, request.deviceName⟩).sendPairingResponse env with
          | (none, w) => (.error .pairingResponse, w.log [.pairingFailed bytes])
          | (some (), w) =>
            let w := w.log [.pairingComplete bytes]
            (.ok (), w.serve ({ w.server with missedHeartbeats := 0 }.heartbeatTick env))

/-- The reply to the heartbeat that the server waits for sets the clock. -/
def timeSync (bytes : Bytes) (u : UnsealedEnvoyMessage X A) (w : World X A) :
    Except Error Unit × World X A :=
  match u.message, w.server.heartbeatState.timeSync with
  | .heartbeat ⟨some responseId, some timestampMs⟩, some requestId =>
    if responseId = requestId then w.takeTimeSync.syncSystemTime bytes u timestampMs
    else (.ok (), w)
  | _, _ => (.ok (), w)

def clockSkewTolerance : Int := 30 * 1000000000

def checkReplay (config : Config) (u : UnsealedEnvoyMessage X A) (w : World X A) :
    Except Error Unit × World X A :=
  if u.expiresAt ≤ w.now then (.error .expired, w)
  else if w.now + config.expirationDuration + clockSkewTolerance < u.expiresAt then
    (.error .futureDated, w)
  else
    let checked := checkAndStore w.server.aridCache u.arid u.expiresAt w.now
    let w := { w with server := { w.server with aridCache := checked.2 } }
    match checked.1 with
    | .fresh => (.ok (), w)
    | .replay => (.error .replayAttack, w)
    | .expired => (.error .expired, w)

/-- `ScChallenge::SIZE` -/
def challengeSize : Nat := 104

/-- `copy_from_slice` panics when the lengths differ. -/
def copyFromSlice (destination source : Bytes) : Option Bytes :=
  if source.length = destination.length then some source else none

/-- The challenge that is passed to the security server. -/
def challengeOf (data : Bytes) : Option Bytes :=
  copyFromSlice (List.replicate challengeSize 0) (data.take (min data.length challengeSize))

/-- Whether `dispatch_ql_message` returns. -/
def dispatchResult : QuantumLinkMessage X → Except Error Unit
  | .securityChallenge data => if (challengeOf data).isSome then .ok () else .error .panicked
  | _ => .ok ()

def handleMessage (config : Config) (env : Env) (bytes : Bytes) (w : World X A) :
    Except Error Unit × World X A :=
  match w.sealed.lookup bytes with
  | none => (.error .unseal, w)
  | some u =>
    match u.message with
    | .pairingRequest request => w.handlePairingRequest env bytes u request
    | _ =>
      if w.server.pairedDevice.map PairedDevice.xid ≠ some u.sender then (.error .notPaired, w)
      else
        match w.timeSync bytes u with
        | (.error e, w) => (.error e, w)
        | (.ok (), w) =>
          match w.checkReplay config u with
          | (.error e, w) => (.error e, w)
          | (.ok (), w) => (dispatchResult u.message,
              w.serve (w.server.dispatchQlMessage u.message, [.dispatched bytes u]))

/-! ## 6. Runs -/

end World

/-- Anyone may seal an envelope for this device and deliver any bytes at any time. -/
inductive Act (X A : Type) where
  | sealEnvelope (bytes : Bytes) (u : UnsealedEnvoyMessage X A)
  | deliver (env : Env) (bytes : Bytes)
  | unpair
  | heartbeatTick (env : Env)
  | bleState (env : Env) (connected : Bool)
  | heartbeatSendResult (ok : Bool)
  | envoyTimeSync (enabled : Bool)
  | passTime (duration : Nat)

namespace World

variable {X A : Type} [DecidableEq X] [DecidableEq A]

def step (config : Config) (w : World X A) : Act X A → World X A
  | .sealEnvelope bytes u => { w with sealed := w.sealed ++ [(bytes, u)] }
  | .deliver env bytes => (w.handleMessage config env bytes).2
  | .unpair => w.serve w.server.unpair
  | .heartbeatTick env => w.serve (w.server.heartbeatTick env)
  | .bleState env connected => w.serve (w.server.setBleState env connected)
  | .heartbeatSendResult ok => w.serve (w.server.handleHeartbeatSendResult ok, [])
  | .envoyTimeSync enabled =>
    { w with server := { w.server with shouldSetSystemTime := enabled } }
  | .passTime duration => { w with now := w.now + duration }

def run (config : Config) (w : World X A) (acts : List (Act X A)) : World X A :=
  acts.foldl (step config) w

/-- `QuantumLinkServer::new`, at any time and never paired before. -/
def start (now : Int) : World X A where
  server :=
    { pairedDevice := none
      shouldSetSystemTime := true
      aridCache := []
      lastReceivedName := none
      osVersion := none
      btConnected := false
      heartbeatState := .dead
      missedHeartbeats := 0 }
  now := now
  sealed := []
  history := []

end World

end QuantumLink
