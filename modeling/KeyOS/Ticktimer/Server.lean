import KeyOS.Kernel.Types
import KeyOS.Lib.SortedMap

/-!
# The timer service

Every blocked `Sleep` and `WaitForCondition` and every requested callback is an entry of one
map, keyed by the uptime at which it expires. `recalculate_sleep` runs after each message that
may change the map: it adds an entry, answers the expired ones and starts the sleep timer for
the first of the others.

Times are `u64` nanoseconds, whose additions wrap. An entry carries what the service does not
know: its number, the process instance that asked for it and the time at which it is due. A
process instance has one PID, and all processes that are gone send as `PID.terminated`.
-/

namespace Ticktimer

open Kernel (PID)

/-- Any sleeping below 100 us is considered zero. -/
def MIN_SLEEP_NS : Nat := 100000

def U64_MAX : Nat := 2 ^ 64 - 1

/-! ## 1. The sleep timer -/

def NS_IN_SEC : Nat := 1000000000

def SLOW_CLOCK_SPEED : Nat := 32768

def nsToSlowCycles (ns : Nat) : Nat := ns * SLOW_CLOCK_SPEED / NS_IN_SEC

def slowCyclesToNs (sc : Nat) : Nat := sc * NS_IN_SEC / SLOW_CLOCK_SPEED

/-- The nanoseconds that `start_sleep(ns)` sleeps for: one hour at most. -/
def sleepLength (ns : Nat) : Nat :=
  slowCyclesToNs (min (nsToSlowCycles ns) (SLOW_CLOCK_SPEED * 3600))

/-! ## 2. Messages -/

/-- The word that names the sender of a message. -/
structure MessageSender where
  data : UInt32
deriving DecidableEq

def MessageSender.pid (sender : MessageSender) : Option PID :=
  PID.new ((sender.data >>> 24) &&& 0xff).toUInt8

abbrev CID := UInt32

inductive Opcode where
  | elapsed
  | sleep
  | waitForCondition
  | notifyCondition
  | getSystemTime
  | requestCallback
  | setSystemTime
  | disconnected
  | timerInterrupt
  | watchdogReset
  | invalidCall
deriving DecidableEq

def Opcode.fromUsize : Nat → Opcode
  | 0 => .elapsed
  | 1 => .sleep
  | 8 => .waitForCondition
  | 9 => .notifyCondition
  | 12 => .getSystemTime
  | 13 => .requestCallback
  | 20 => .setSystemTime
  | 30 => .disconnected
  | 31 => .timerInterrupt
  | 32 => .watchdogReset
  | _ => .invalidCall

structure ScalarMessage where
  blocking : Bool
  id : UInt32
  arg1 : UInt32
  arg2 : UInt32
  arg3 : UInt32
  arg4 : UInt32

inductive KernelError where
  | unknownError
  | other (code : Nat)
deriving DecidableEq

/-- A message, with what its handler reads elsewhere. -/
structure Event where
  sender : MessageSender
  /-- Nothing for a memory message -/
  body : Option ScalarMessage
  /-- `elapsed_ns()` -/
  uptime : Nat
  /-- `get_remote_pid` of the callback's connection -/
  remotePid : Except KernelError PID
  /-- The process instance that sent the message -/
  owner : Nat

/-- Two words as one `u64`, the low one first. -/
def long (lo hi : UInt32) : Nat := lo.toNat ||| hi.toNat <<< 32

/-! ## 3. State -/

inductive TimerRequest where
  | timeout (sender : MessageSender) (condvar : Option UInt32)
  | callback (cid : CID) (messageId messageData : UInt32)
deriving DecidableEq

structure Entry where
  request : TimerRequest
  id : Nat
  owner : Nat
  /-- The uptime plus the timeout at the time of the request, without wrapping -/
  due : Nat
deriving DecidableEq

/-- What became of an entry. -/
inductive Fate where
  /-- `respond(true)`: the sender is told that the time has passed, or the callback is sent. -/
  | timedOut
  /-- `respond(false)` -/
  | notified
  /-- A callback that is requested again, cancelled, or whose connection is gone -/
  | dropped
deriving DecidableEq

structure Done where
  entry : Entry
  fate : Fate
  uptime : Nat
deriving DecidableEq

/-- A `NotifyCondition` that was handled. -/
structure Notified where
  owner : Nat
  condvar : UInt32
  /-- The number of threads to wake -/
  requested : Nat
  /-- The threads of the caller that waited on the condition -/
  waiting : Nat
  woken : List Entry
  /-- The number returned to the caller -/
  returned : Nat

abbrev Heap := SortedMap Nat Entry

structure State where
  sleepHeap : Heap
  /-- When the sleep last started ends -/
  sleepEnd : Option Nat
  nextId : Nat
  done : List Done
  notifies : List Notified
  /-- By connection and message, the callback requested last -/
  latest : CID → UInt32 → Option Nat
  /-- The uptime that `recalculate_sleep` read last -/
  served : Nat
  /-- An addition of two times wrapped -/
  overflowed : Bool

def State.init : State := ⟨.empty, none, 0, [], [], fun _ _ => none, 0, false⟩

/-! ## 4. Operations on the map -/

/-- `while sleep_heap.contains_key(&target_uptime) { target_uptime += 1 }`. Each round finds
another key, so that `fuel` is one more than the number of keys. -/
def bump (heap : Heap) : Nat → Nat → Nat
  | 0, target => target
  | fuel + 1, target =>
    if target ∈ heap.keys then bump heap fuel ((target + 1) % 2 ^ 64) else target

/-- The addition of the loop wraps. -/
def bumpOverflows (heap : Heap) : Nat → Nat → Bool
  | 0, _ => false
  | fuel + 1, target =>
    if target ∈ heap.keys then
      decide (U64_MAX < target + 1) || bumpOverflows heap fuel ((target + 1) % 2 ^ 64)
    else
      false

/-- The entry waits on the condition for a thread of the PID. -/
def waitsOn (pid : Option PID) (condvar : UInt32) (entry : Entry) : Bool :=
  match entry.request with
  | .timeout sender (some c) => sender.pid == pid && condvar == c
  | _ => false

/-- The loop of `NotifyCondition`: the entries to wake, and the map without them. -/
def notifyLoop (pid : Option PID) (condvar : UInt32) : Nat → Heap → List Entry × Heap
  | 0, heap => ([], heap)
  | count + 1, heap =>
    match heap.entries.find? fun e => waitsOn pid condvar e.2 with
    | some (key, entry) =>
      (entry :: (notifyLoop pid condvar count (heap.erase key)).1,
        (notifyLoop pid condvar count (heap.erase key)).2)
    | none => ([], heap)

namespace State

/-- `gone` leave the map. -/
def retire (s : State) (fate : Fate) (uptime : Nat) (gone : List Entry) (heap : Heap) : State :=
  { s with sleepHeap := heap, done := s.done ++ gone.map fun entry => ⟨entry, fate, uptime⟩ }

/-- `sleep_heap.retain`, which drops callbacks. -/
def retain (s : State) (uptime : Nat) (keep : Entry → Bool) : State :=
  s.retire .dropped uptime ((s.sleepHeap.entries.map Prod.snd).filter fun entry => !keep entry)
    (s.sleepHeap.retain keep)

/-- The new request of `recalculate_sleep`. -/
def push (s : State) (uptime timeout : Nat) (request : TimerRequest) (owner : Nat) : State :=
  let target := (uptime + timeout) % 2 ^ 64
  let fuel := s.sleepHeap.entries.length + 1
  { s with
    sleepHeap := s.sleepHeap.insert (bump s.sleepHeap fuel target)
      ⟨request, s.nextId, owner, uptime + timeout⟩
    nextId := s.nextId + 1
    overflowed := s.overflowed || decide (U64_MAX < uptime + timeout) ||
      bumpOverflows s.sleepHeap fuel target }

/-- The entry with the key expires at `uptime`. -/
def expires (uptime key : Nat) : Bool := decide (key < (uptime + MIN_SLEEP_NS) % 2 ^ 64)

/-- Respond to the expired entries. -/
def expire (s : State) (uptime : Nat) : State :=
  s.retire .timedOut uptime
    ((s.sleepHeap.entries.takeWhile fun e => expires uptime e.1).map Prod.snd)
    (s.sleepHeap.dropWhile (expires uptime))

/-- Start the sleep timer if there is something to wait on. -/
def startSleep (s : State) (uptime : Nat) : State :=
  match s.sleepHeap.entries with
  | [] => s
  | (target, _) :: _ =>
    { s with sleepEnd := some (uptime + sleepLength ((target + 2 ^ 64 - uptime) % 2 ^ 64)) }

/-- The loop of `recalculate_sleep`. -/
def respondExpired (s : State) (uptime : Nat) : State :=
  let overflows := !s.sleepHeap.entries.isEmpty && decide (U64_MAX < uptime + MIN_SLEEP_NS)
  let s := (s.expire uptime).startSleep uptime
  { s with served := uptime, overflowed := s.overflowed || overflows }

/-- Recalculate the sleep timer, optionally adding an element to the map. -/
def recalculateSleep (s : State) (uptime : Nat) (new : Option (Nat × TimerRequest)) (owner : Nat) :
    State :=
  match new with
  | some (timeout, request) => (s.push uptime timeout request owner).respondExpired uptime
  | none => s.respondExpired uptime

/-! ## 5. Handlers -/

/-- The threads of the process instance that wait on the condition. -/
def waiting (s : State) (owner : Nat) (condvar : UInt32) : List Entry :=
  (s.sleepHeap.entries.map Prod.snd).filter fun entry =>
    entry.owner == owner && match entry.request with
      | .timeout _ (some c) => condvar == c
      | _ => false

def notifyCondition (s : State) (pid : Option PID) (condvar : UInt32) (requestedCount uptime owner : Nat) :
    State :=
  let (woken, heap) := notifyLoop pid condvar requestedCount s.sleepHeap
  { s.retire .notified uptime woken heap with
    notifies := s.notifies ++
      [⟨owner, condvar, requestedCount, (s.waiting owner condvar).length, woken, woken.length⟩] }

/-- The connection of the callback belongs to the sender. -/
def ownsConnection (e : Event) : Bool :=
  e.remotePid == match e.sender.pid with
    | some pid => .ok pid
    | none => .error .unknownError

/-- A callback other than the one with the message. -/
def otherCallback (cid : CID) (messageId : UInt32) (entry : Entry) : Bool :=
  match entry.request with
  | .callback c m _ => !(m == messageId && c == cid)
  | .timeout _ _ => true

/-- A request on another connection. -/
def otherConnection (cid : CID) (entry : Entry) : Bool :=
  match entry.request with
  | .callback c _ _ => !(cid == c)
  | .timeout _ _ => true

/-- The record of the callback requested last. -/
def setLatest (s : State) (cid : CID) (messageId : UInt32) (id : Option Nat) : State :=
  { s with latest := fun c m => if c = cid ∧ m = messageId then id else s.latest c m }

def requestCallback (s : State) (e : Event) (m : ScalarMessage) : State :=
  if ownsConnection e then
    let nsec := m.arg1.toNat * 1000000
    let s := s.retain e.uptime (otherCallback m.arg4 m.arg2)
    if 0 < nsec then
      (s.setLatest m.arg4 m.arg2 (some s.nextId)).recalculateSleep e.uptime
        (some (nsec, .callback m.arg4 m.arg2 m.arg3)) e.owner
    else
      (s.setLatest m.arg4 m.arg2 none).recalculateSleep e.uptime none e.owner
  else
    -- "CID did not belong to the sender"
    s

def handleScalar (s : State) (e : Event) (m : ScalarMessage) : State :=
  match Opcode.fromUsize m.id.toNat with
  | .sleep =>
    if m.blocking then
      s.recalculateSleep e.uptime (some (long m.arg1 m.arg2, .timeout e.sender none)) e.owner
    else s
  | .waitForCondition =>
    if m.blocking then
      s.recalculateSleep e.uptime (some (long m.arg2 m.arg3, .timeout e.sender (some m.arg1)))
        e.owner
    else s
  | .notifyCondition =>
    if m.blocking then
      (s.notifyCondition e.sender.pid m.arg1 m.arg2.toNat e.uptime e.owner).recalculateSleep
        e.uptime none e.owner
    else s
  | .requestCallback => s.requestCallback e m
  | .disconnected =>
    (s.retain e.uptime (otherConnection m.arg1)).recalculateSleep e.uptime none e.owner
  | .timerInterrupt => if m.blocking then s else s.recalculateSleep e.uptime none e.owner
  -- No request is made or answered
  | .elapsed | .getSystemTime | .setSystemTime | .watchdogReset | .invalidCall => s

/-- One round of the loop of `main`. -/
def handle (s : State) (e : Event) : State :=
  match e.body with
  | some m => s.handleScalar e m
  | none => s

end State

end Ticktimer
