import KeyOS.QuantumLink.Server

/-!
# Requests to the phone

A client asks, the server hands a message to the thread that sends over BLE and keeps the request
in the slot of its kind. The phone answers it, the thread reports that the send has failed, or the
heartbeat loop finds that the request has expired. That loop is a timer that is armed again and
again, and a tick or a report that finds the queue of the server full is lost.

A handler of the server and a step of the thread are one step each. The ids of requests are not in
the source, where a report of the thread names a kind.
-/

namespace QuantumLink.Requests

/-! ## 1. State -/

inductive PendingRequestKind where
  | envoyMagicBackupEnabled
  | checkFirmwareUpdate
  | startFirmwareUpdate
  | backupShard
  | restoreShard
  | restoreMagicBackup
  | magicBackupStatus
  | envoyTimezone
deriving DecidableEq

/-- The fields of `PendingRequests`. -/
inductive Slot where
  | kind (k : PendingRequestKind)
  /-- Does not have an initiator. -/
  | createMagicBackupResult
deriving DecidableEq

def Slot.all : List Slot :=
  [.kind .envoyMagicBackupEnabled, .kind .checkFirmwareUpdate, .kind .startFirmwareUpdate,
    .kind .backupShard, .kind .restoreShard, .kind .restoreMagicBackup, .kind .magicBackupStatus,
    .kind .envoyTimezone, .createMagicBackupResult]

abbrev Id := Nat

structure PendingRequest where
  id : Id
  expiration : Nat
deriving DecidableEq

inductive SendOutcome where
  | respond (id : Id)
  | notifyOnFailure (kind : PendingRequestKind) (id : Id)
  | notifyHeartbeat
  | ignore
deriving DecidableEq

/-- What the timer and the thread put into the queue of the server. -/
inductive Notification where
  | heartbeatTick
  | heartbeatSendResult (ok : Bool)
  | btSendFailure (kind : PendingRequestKind) (id : Id)
deriving DecidableEq

inductive Answer where
  | ok
  | bluetooth
  | noDevicePaired
  | timeout
  /-- The request is dropped, which sends the default response. -/
  | cancelled
deriving DecidableEq

structure World where
  paired : Bool
  btConnected : Bool
  live : Bool
  request : RequestState
  missedHeartbeats : Nat
  pending : Slot → Option PendingRequest
  /-- When the timer fires, if it is armed. -/
  timer : Option Nat
  inbox : List Notification
  queue : List SendOutcome
  sending : Option SendOutcome
  /-- The thread fails what is queued. -/
  draining : Bool
  /-- In milliseconds. -/
  now : Nat
  nextId : Id
  answers : List (Id × Answer)

def heartbeatInterval : Nat := 6000

def heartbeatTimeout : Nat := 2000

def maxMissedHeartbeats : Nat := 5

/-- `TimeoutDuration` -/
def Slot.timeout : Slot → Nat
  | .kind .checkFirmwareUpdate => 8000
  | .kind .startFirmwareUpdate => 8000
  | .createMagicBackupResult => 90000
  | _ => 4000

namespace World

/-! ## 2. Slots -/

def answer (w : World) (id : Id) (a : Answer) : World := { w with answers := w.answers ++ [(id, a)] }

/-- The request of a slot is taken and answered. -/
def respond (w : World) (slot : Slot) (a : Answer) : World :=
  match w.pending slot with
  | some r => { w.answer r.id a with pending := Function.update w.pending slot none }
  | none => w

/-- A slot is assigned, and what it held is dropped. -/
def store (w : World) (slot : Slot) (id : Id) : World :=
  let w := w.respond slot .cancelled
  { w with pending := Function.update w.pending slot (some ⟨id, w.now + slot.timeout⟩) }

def expireAllNow (w : World) : World :=
  { w with pending := fun slot => (w.pending slot).map fun r => { r with expiration := w.now } }

def cleanup (w : World) (slot : Slot) : World :=
  match w.pending slot with
  | some r => if r.expiration ≤ w.now then w.respond slot .timeout else w
  | none => w

def cleanupExpired (w : World) : World := Slot.all.foldl cleanup w

/-! ## 3. Heartbeats -/

/-- The send succeeds where a device is paired. -/
def send (w : World) (outcome : SendOutcome) : World := { w with queue := w.queue ++ [outcome] }

def rescheduleHeartbeat (w : World) (duration : Nat) : World :=
  { w with timer := some (w.now + duration) }

/-- `HeartbeatState::DEAD` -/
def dead (w : World) : World := { w with live := false, request := .idle }

def heartbeatFailure (w : World) : World :=
  let w := { w with missedHeartbeats := w.missedHeartbeats + 1 }
  if maxMissedHeartbeats ≤ w.missedHeartbeats then w.dead else { w with request := .idle }

def heartbeatSuccess (w : World) : World :=
  { w with missedHeartbeats := 0, live := true, request := .idle }.rescheduleHeartbeat
    heartbeatInterval

def heartbeatTick (w : World) : World :=
  match w.request with
  | .idle =>
    if w.btConnected = false ∨ w.paired = false then w
    else { w.send .notifyHeartbeat with request := .pendingSend }
  | .pendingSend => w
  | .waitingForResponse => w.heartbeatFailure.rescheduleHeartbeat heartbeatInterval

def handleHeartbeatSendResult (w : World) (ok : Bool) : World :=
  if ok then
    { w with request := .waitingForResponse }.rescheduleHeartbeat heartbeatTimeout
  else w.heartbeatFailure.rescheduleHeartbeat heartbeatInterval

/-- `changed`: the name of the device is not the one last received. -/
def publishDeviceName (w : World) (changed : Bool) : World :=
  if w.paired ∧ changed then w.send .ignore else w

def setBleState (w : World) (connected changed : Bool) : World :=
  let wasConnected := w.btConnected
  let w := { w with btConnected := connected }
  if wasConnected = false ∧ connected then
    ({ w with missedHeartbeats := 0 }.heartbeatTick).publishDeviceName changed
  else if wasConnected ∧ connected = false then
    { w.dead with missedHeartbeats := 0 }.expireAllNow
  else w

/-! ## 4. Clients -/

/-- The OS version and the seed fingerprint, where the message of the kind needs them. -/
def needsInfo : PendingRequestKind → Bool
  | .checkFirmwareUpdate => true
  | .startFirmwareUpdate => true
  | .restoreMagicBackup => true
  | .magicBackupStatus => true
  | _ => false

/-- The handlers of the eight kinds. `info`: what the message needs is there. -/
def handleRequest (w : World) (kind : PendingRequestKind) (info : Bool) : World :=
  let id := w.nextId
  let w := { w with nextId := id + 1 }
  if needsInfo kind ∧ info = false then w.answer id .cancelled
  else if w.paired then (w.send (.notifyOnFailure kind id)).store (.kind kind) id
  else w.answer id .noDevicePaired

def handleAwaitCreateMagicBackupResult (w : World) : World :=
  { w with nextId := w.nextId + 1 }.store .createMagicBackupResult w.nextId

/-- The handlers of the messages that are answered once they are sent. -/
def handleForward (w : World) (info : Bool) : World :=
  let id := w.nextId
  let w := { w with nextId := id + 1 }
  if info ∧ w.paired then w.send (.respond id) else w.answer id .cancelled

/-- `UnpairFromEnvoy` -/
def handleUnpair (w : World) : World :=
  let id := w.nextId
  let w := { w with nextId := id + 1 }
  if w.paired then { w.send (.respond id) with paired := false }.dead else w.answer id .ok

/-! ## 5. The phone -/

/-- A message of the paired device that has not been seen before. -/
def dispatchQlMessage (w : World) (response : Option Slot) : World :=
  if w.paired then
    match response with
    | some slot => w.heartbeatSuccess.respond slot .ok
    | none => w.heartbeatSuccess
  else w

/-- `valid`: the document is the sender's and the time can be set. `responds`: the id of the
device and its version are there for the response. -/
def handlePairingRequest (w : World) (valid responds changed : Bool) : World :=
  if w.paired ∨ valid = false then w
  else
    let w := { w with paired := true }
    if responds then
      { (w.send .ignore).publishDeviceName changed with missedHeartbeats := 0 }.heartbeatTick
    else w

/-! ## 6. The thread -/

def post (w : World) (n : Notification) (lost : Bool) : World :=
  if lost then w else { w with inbox := w.inbox ++ [n] }

def failSend (w : World) (outcome : SendOutcome) (lost : Bool) : World :=
  match outcome with
  | .respond id => w.answer id .bluetooth
  | .notifyOnFailure kind id => w.post (.btSendFailure kind id) lost
  | .notifyHeartbeat => w.post (.heartbeatSendResult false) lost
  | .ignore => w

/-- The next payload is received. -/
def recv (w : World) : World :=
  match w.sending, w.queue with
  | none, outcome :: queue =>
    if w.draining then w else { w with sending := some outcome, queue := queue }
  | _, _ => w

def sendSucceeds (w : World) (lost : Bool) : World :=
  match w.sending with
  | some (.respond id) => { w with sending := none }.answer id .ok
  | some .notifyHeartbeat => { w with sending := none }.post (.heartbeatSendResult true) lost
  | some _ => { w with sending := none }
  | none => w

def sendFails (w : World) (lost : Bool) : World :=
  match w.sending with
  | some outcome => { w with sending := none, draining := true }.failSend outcome lost
  | none => w

/-- A payload that is queued behind one that has failed. -/
def drain (w : World) (lost : Bool) : World :=
  if w.draining then
    match w.queue with
    | outcome :: queue => { w with queue := queue }.failSend outcome lost
    | [] => { w with draining := false }
  else w

/-! ## 7. Runs -/

def fire (w : World) (lost : Bool) : World :=
  match w.timer with
  | some deadline =>
    if deadline ≤ w.now then { w with timer := none }.post .heartbeatTick lost else w
  | none => w

def handle (w : World) : Notification → World
  | .heartbeatTick => w.heartbeatTick.cleanupExpired
  | .heartbeatSendResult ok => w.handleHeartbeatSendResult ok
  | .btSendFailure kind _ => w.respond (.kind kind) .bluetooth

def deliver (w : World) : World :=
  match w.inbox with
  | n :: inbox => { w with inbox := inbox }.handle n
  | [] => w

end World

inductive Event where
  | request (kind : PendingRequestKind) (info : Bool)
  | awaitCreateMagicBackupResult
  | forward (info : Bool)
  | unpair
  | deviceName (changed : Bool)
  | btState (connected changed : Bool)
  | message (response : Option Slot)
  | pairingRequest (valid responds changed : Bool)
  | passTime (ms : Nat)
  /-- The timer fires, and the tick may find the queue full. -/
  | fire (lost : Bool)
  /-- The server takes the next notification. -/
  | deliver
  | recv
  | sendSucceeds (lost : Bool)
  | sendFails (lost : Bool)
  | drain (lost : Bool)
deriving DecidableEq

namespace World

def step (w : World) : Event → World
  | .request kind info => w.handleRequest kind info
  | .awaitCreateMagicBackupResult => w.handleAwaitCreateMagicBackupResult
  | .forward info => w.handleForward info
  | .unpair => w.handleUnpair
  | .deviceName changed => w.publishDeviceName changed
  | .btState connected changed => (w.setBleState connected changed).cleanupExpired
  | .message response => w.dispatchQlMessage response
  | .pairingRequest valid responds changed => w.handlePairingRequest valid responds changed
  | .passTime ms => { w with now := w.now + ms }
  | .fire lost => w.fire lost
  | .deliver => w.deliver
  | .recv => w.recv
  | .sendSucceeds lost => w.sendSucceeds lost
  | .sendFails lost => w.sendFails lost
  | .drain lost => w.drain lost

def run (w : World) (events : List Event) : World := events.foldl step w

/-- `QuantumLinkServer::new`, with a device paired before or not. -/
def start (paired : Bool) : World where
  paired := paired
  btConnected := false
  live := false
  request := .idle
  missedHeartbeats := 0
  pending := fun _ => none
  timer := none
  inbox := []
  queue := []
  sending := none
  draining := false
  now := 0
  nextId := 0
  answers := []

/-! ## 8. Where the requests are -/

def idOf : Option PendingRequest → Multiset Id
  | some r => {r.id}
  | none => 0

def held (pending : Slot → Option PendingRequest) : Multiset Id :=
  (Slot.all.map fun slot => idOf (pending slot)).sum

def responds : SendOutcome → Multiset Id
  | .respond id => {id}
  | _ => 0

/-- What the thread is to respond to -/
def unsent (queue : List SendOutcome) (sending : Option SendOutcome) : Multiset Id :=
  (queue.map responds).sum + sending.elim 0 responds

/-- Answered, in a slot, or with the thread -/
def places (w : World) : Multiset Id :=
  (w.answers.map Prod.fst : List Id) + held w.pending + unsent w.queue w.sending

/-- Every request is in one place, but for `ids`, which are in none. -/
def Kept (w : World) (ids : Multiset Id) : Prop := w.places + ids = Multiset.range w.nextId

variable {w : World} {ids ids' : Multiset Id} {id : Id} {o : SendOutcome}

theorem held_update (pending : Slot → Option PendingRequest) (slot : Slot)
    (r : Option PendingRequest) :
    held (Function.update pending slot r) + idOf (pending slot) = held pending + idOf r := by
  rcases slot with (_ | _ | _ | _ | _ | _ | _ | _) | _ <;>
    simp only [held, Slot.all, List.map, Function.update, List.sum_cons] <;> simp <;> abel

namespace Kept

theorem next (h : w.Kept ids) : { w with nextId := w.nextId + 1 }.Kept ({w.nextId} + ids) := by
  unfold Kept at *
  rw [Multiset.range_succ, ← h, ← Multiset.singleton_add, add_left_comm]
  rfl

theorem moved {w' : World} (h : w.Kept ids) (hnext : w'.nextId = w.nextId)
    (hids : w'.places + ids' = w.places + ids) : w'.Kept ids' := by
  rw [Kept, hids, hnext]
  exact h

theorem answer (h : w.Kept ids) (hids : {id} + ids' = ids) (a : Answer) :
    (w.answer id a).Kept ids' := by
  refine h.moved rfl ?_
  simp only [← hids, places, World.answer, List.map_append, ← Multiset.coe_add]
  show _ + ({id} : Multiset Id) + _ + _ + _ = _
  abel

theorem slot {slot : Slot} {r : Option PendingRequest} (h : w.Kept ids)
    (hids : idOf r + ids' = ids + idOf (w.pending slot)) :
    { w with pending := Function.update w.pending slot r }.Kept ids' := by
  refine h.moved rfl (Multiset.ext.2 fun id => ?_)
  have hheld := congrArg (Multiset.count id) (held_update w.pending slot r)
  replace hids := congrArg (Multiset.count id) hids
  simp only [places, Multiset.count_add] at hheld hids ⊢
  omega

theorem respond (h : w.Kept ids) (slot : Slot) (a : Answer) : (w.respond slot a).Kept ids := by
  unfold World.respond
  split
  · next r hr => exact answer (h.slot (by rw [hr]; exact zero_add _)) (add_comm _ _) a
  · exact h

theorem store (h : w.Kept ({id} + ids)) (slot : Slot) : (w.store slot id).Kept ids := by
  have hnone : (w.respond slot .cancelled).pending slot = none := by
    unfold World.respond
    split
    · exact Function.update_self _ _ _
    · assumption
  exact (h.respond slot .cancelled).slot (by rw [hnone]; exact (add_zero _).symm)

theorem send (h : w.Kept ids) (hids : responds o + ids' = ids) : (w.send o).Kept ids' := by
  refine h.moved rfl ?_
  simp [← hids, places, World.send, unsent]
  abel

theorem post (h : w.Kept ids) (n : Notification) (lost : Bool) : (w.post n lost).Kept ids := by
  unfold World.post
  split <;> exact h

theorem failSend (h : w.Kept (responds o)) (lost : Bool) : (w.failSend o lost).Kept 0 := by
  cases o with
  | respond id => exact h.answer (add_zero _) .bluetooth
  | notifyOnFailure kind id => exact h.post _ lost
  | notifyHeartbeat => exact h.post _ lost
  | ignore => exact h

theorem sent (h : w.Kept 0) (ho : w.sending = some o) :
    { w with sending := none }.Kept (responds o) :=
  h.moved rfl (by simp [places, ho, unsent, add_assoc])

theorem cleanupExpired (h : w.Kept ids) : w.cleanupExpired.Kept ids := by
  unfold World.cleanupExpired
  generalize Slot.all = slots
  induction slots generalizing w with
  | nil => exact h
  | cons slot slots ih =>
    refine ih ?_
    unfold cleanup
    split
    · split
      exacts [h.respond slot .timeout, h]
    · exact h

theorem heartbeatFailure (h : w.Kept ids) : w.heartbeatFailure.Kept ids := by
  unfold World.heartbeatFailure
  dsimp only
  split <;> exact h

theorem heartbeatTick (h : w.Kept ids) : w.heartbeatTick.Kept ids := by
  unfold World.heartbeatTick
  split
  · split
    exacts [h, h.send (zero_add _)]
  · exact h
  · exact h.heartbeatFailure

theorem publishDeviceName (h : w.Kept ids) (changed : Bool) :
    (w.publishDeviceName changed).Kept ids := by
  unfold World.publishDeviceName
  split
  exacts [h.send (zero_add _), h]

theorem setBleState (h : w.Kept ids) (connected changed : Bool) :
    (w.setBleState connected changed).Kept ids := by
  unfold World.setBleState
  dsimp only
  split
  · exact (heartbeatTick (w := { w with btConnected := connected, missedHeartbeats := 0 })
      h).publishDeviceName changed
  · split
    · have hid (r : Option PendingRequest) :
          idOf (r.map fun r => { r with expiration := w.now }) = idOf r := by cases r <;> rfl
      simpa [Kept, places, held, expireAllNow, dead, hid] using h
    · exact h

theorem step (h : w.Kept 0) (e : Event) : (w.step e).Kept 0 := by
  cases e with
  | request kind info =>
    simp only [World.step, handleRequest]
    split_ifs
    exacts [h.next.answer rfl .cancelled, (h.next.send (zero_add _)).store _,
      h.next.answer rfl .noDevicePaired]
  | awaitCreateMagicBackupResult => exact h.next.store _
  | forward info =>
    simp only [World.step, handleForward]
    split
    exacts [h.next.send rfl, h.next.answer rfl .cancelled]
  | unpair =>
    simp only [World.step, handleUnpair]
    split
    exacts [h.next.send rfl, h.next.answer rfl .ok]
  | deviceName changed => exact h.publishDeviceName changed
  | btState connected changed => exact (h.setBleState connected changed).cleanupExpired
  | message response =>
    simp only [World.step, dispatchQlMessage]
    split
    · split
      exacts [respond (w := w.heartbeatSuccess) h _ .ok, h]
    · exact h
  | pairingRequest valid responds changed =>
    simp only [World.step, handlePairingRequest]
    split_ifs
    · exact h
    · have hsent := send (w := { w with paired := true }) (o := .ignore) h (zero_add _)
      exact heartbeatTick (w := { World.publishDeviceName _ changed with missedHeartbeats := 0 })
        (hsent.publishDeviceName changed)
    · exact h
  | passTime ms => exact h
  | fire lost =>
    simp only [World.step, fire]
    split
    · split_ifs
      exacts [post (w := { w with timer := none }) h _ lost, h]
    · exact h
  | deliver =>
    simp only [World.step, deliver]
    split
    · next n inbox _ =>
      cases n with
      | heartbeatTick => exact (heartbeatTick (w := { w with inbox := inbox }) h).cleanupExpired
      | heartbeatSendResult ok =>
        cases ok with
        | true => exact h
        | false => exact heartbeatFailure (w := { w with inbox := inbox }) h
      | btSendFailure kind id => exact respond (w := { w with inbox := inbox }) h _ _
    · exact h
  | recv =>
    simp only [World.step, recv]
    split
    · next o queue hsending hqueue =>
      split_ifs
      · exact h
      · refine h.moved rfl ?_
        simp [places, hsending, hqueue, unsent, add_comm]
    · exact h
  | sendSucceeds lost =>
    simp only [World.step, sendSucceeds]
    cases ho : w.sending with
    | none => exact h
    | some o =>
      have hsent := h.sent ho
      cases o with
      | respond id => exact hsent.answer (add_zero _) .ok
      | notifyOnFailure kind id => exact hsent
      | notifyHeartbeat => exact hsent.post _ lost
      | ignore => exact hsent
  | sendFails lost =>
    simp only [World.step, sendFails]
    split
    · next o ho => exact failSend (w := { w with sending := none, draining := true }) (h.sent ho) lost
    · exact h
  | drain lost =>
    simp only [World.step, drain]
    split_ifs
    · split
      · next o queue hqueue =>
        refine failSend (w := { w with queue := queue }) (h.moved rfl ?_) lost
        simp [places, hqueue, unsent]
        abel
      · exact h
    · exact h

end Kept

/-- No request is lost, and none is answered twice. -/
theorem run_places (paired : Bool) (events : List Event) :
    ((start paired).run events).places = Multiset.range ((start paired).run events).nextId := by
  suffices hrun : ((start paired).run events).Kept 0 from (add_zero _).symm.trans hrun
  have hstart : (start paired).Kept 0 := rfl
  unfold run
  generalize start paired = w at *
  induction events generalizing w with
  | nil => exact hstart
  | cons e events ih => exact ih _ (hstart.step e)

end World

end QuantumLink.Requests
