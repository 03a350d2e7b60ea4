import Mathlib

/-!
# The presence prompt of the FIDO server

FIDO and the navigation thread share one slot. FIDO writes a request there and notifies the
thread; the thread takes the request, makes the blocking GUI call that shows the prompt, and
writes the outcome back if the slot is still its own. The polls of all requesters come through
`NavThread.poll`; the thread is `navLoop`, cut where it holds the lock of the slot.
-/

namespace Fido

/-! ## 1. The slot -/

structure UserPresenceOptions where
  securityKeyIndex : Option Nat
  authentication : Bool
  rpId : Option String
  rpName : Option String
  userName : Option String
  userDisplayName : Option String
deriving DecidableEq

namespace UserPresenceOptions

def registration (securityKeyIndex : Option Nat) : UserPresenceOptions :=
  ⟨securityKeyIndex, false, none, none, none, none⟩

def authenticate (securityKeyIndex : Option Nat) : UserPresenceOptions :=
  ⟨securityKeyIndex, true, none, none, none, none⟩

end UserPresenceOptions

structure UserPresenceResult where
  present : Bool
  selectedKeyIndex : Option Nat
deriving DecidableEq

namespace UserPresenceResult

def newChecked (selectedKeyIndex : Option Nat) : UserPresenceResult := ⟨true, selectedKeyIndex⟩

end UserPresenceResult

/-- Result of polling a pending presence check. -/
inductive PresencePoll where
  | pending
  | confirmed (selectedKeyIndex : Option Nat)
  | dismissed
deriving DecidableEq

/-- State shared between the FIDO main thread and the navigation thread. `F` are the
fingerprints of the requests. -/
inductive PresenceState (F : Type) where
  | idle
  | pending (fingerprint : F) (options : UserPresenceOptions)
  | inProgress (fingerprint : F)
  | completed (fingerprint : F) (present : Bool) (selectedKeyIndex : Option Nat)
deriving DecidableEq

/-- Instants are counted in nanoseconds. -/
def selectionTimeout : Nat := 30 * 1000000000

/-- FIDO-side handle to the navigation thread. -/
structure NavThread (F : Type) where
  slot : PresenceState F
  lastPolledAt : Option Nat

namespace NavThread

variable {F : Type} [DecidableEq F]

def start : NavThread F := ⟨.idle, none⟩

/-- What a poll returns, whether it published a request and notified the thread, and the state
that it leaves. -/
structure Polled (F : Type) where
  verdict : PresencePoll
  notified : Bool
  nav : NavThread F

/-- The slot gets a fresh request for the thread. -/
def publish (now : Nat) (fingerprint : F) (options : UserPresenceOptions) : Polled F :=
  ⟨.pending, true, ⟨.pending fingerprint options, some now⟩⟩

/-- The slot is live for the fingerprint of the request or for another one. -/
def pollLive (t : NavThread F) (now : Nat) (fp fingerprint : F) (options : UserPresenceOptions) :
    Polled F :=
  if fp = fingerprint then
    ⟨.pending, false, { t with lastPolledAt := some now }⟩
  -- The owner has been silent too long, the slot goes to the request that asks now.
  else if now - t.lastPolledAt.getD now > selectionTimeout then
    publish now fingerprint options
  else
    ⟨.pending, false, t⟩

/-- `NavThread::poll` -/
def poll (t : NavThread F) (now : Nat) (fingerprint : F) (options : UserPresenceOptions) :
    Polled F :=
  match t.slot with
  | .idle => publish now fingerprint options
  | .pending fp _ => t.pollLive now fp fingerprint options
  | .inProgress fp => t.pollLive now fp fingerprint options
  | .completed fp present selectedKeyIndex =>
    if fp = fingerprint then
      ⟨if present then .confirmed selectedKeyIndex else .dismissed, false, ⟨.idle, none⟩⟩
    else
      publish now fingerprint options

end NavThread

/-! ## 2. The navigation thread -/

/-- What `check_user_presence` returns. -/
inductive GuiReply where
  | result (r : UserPresenceResult)
  | noResult
  | failed
deriving DecidableEq

/-- The outcome that the thread makes of a reply. -/
def GuiReply.outcome : GuiReply → UserPresenceResult
  | .result r => r
  | .noResult => ⟨false, none⟩
  | .failed => ⟨false, none⟩

/-- Where the thread is: before the slot, in the GUI call with what the user has confirmed so
far, or with the outcome of the call before the slot again. -/
inductive Nav (F : Type) where
  | waiting
  | asking (fingerprint : F) (options : UserPresenceOptions) (answer : Option UserPresenceResult)
  | answered (fingerprint : F) (outcome : UserPresenceResult)
deriving DecidableEq

/-- The thread takes the published request and flips the slot under the same lock. -/
def take {F : Type} : PresenceState F → Option (F × UserPresenceOptions × PresenceState F)
  | .pending fingerprint options => some (fingerprint, options, .inProgress fingerprint)
  | _ => none

/-- Stale-result guard: the outcome is committed only if the slot is still in progress for this
fingerprint. -/
def commit {F : Type} [DecidableEq F] (slot : PresenceState F) (fingerprint : F)
    (outcome : UserPresenceResult) : PresenceState F :=
  match slot with
  | .inProgress fp =>
    if fp = fingerprint then .completed fingerprint outcome.present outcome.selectedKeyIndex
    else slot
  | _ => slot

/-! ## 3. The system -/

/-- What can be seen of a run. -/
inductive Event (F : Type) where
  | published (fingerprint : F) (options : UserPresenceOptions)
  | shown (fingerprint : F) (options : UserPresenceOptions)
  | confirmed (selectedKeyIndex : Option Nat)
  | closed
  | verdict (fingerprint : F) (v : PresencePoll)
deriving DecidableEq

structure World (F : Type) where
  nav : NavThread F
  thread : Nav F
  now : Nat
  history : List (Event F)

/-- One step of a requester, of the clock, of the thread, of the user or of the GUI. -/
inductive Act (F : Type) where
  | poll (fingerprint : F) (options : UserPresenceOptions)
  | tick (duration : Nat)
  | take
  | confirm (selectedKeyIndex : Option Nat)
  | reply (r : GuiReply)
  | commit
deriving DecidableEq

/-- A reply says that the user is present only if the user confirmed this prompt. -/
def GuiReply.Honest (answer : Option UserPresenceResult) (r : GuiReply) : Prop :=
  r.outcome.present = true → answer = some r.outcome

instance (answer : Option UserPresenceResult) (r : GuiReply) : Decidable (r.Honest answer) := by
  unfold GuiReply.Honest
  infer_instance

namespace World

variable {F : Type} [DecidableEq F]

def start : World F := ⟨NavThread.start, .waiting, 0, []⟩

def step (w : World F) : Act F → Option (World F)
  | .poll fingerprint options =>
    let polled := w.nav.poll w.now fingerprint options
    let published := if polled.notified then [.published fingerprint options] else []
    some { w with
      nav := polled.nav
      history := w.history ++ (published ++ [.verdict fingerprint polled.verdict]) }
  | .tick duration => some { w with now := w.now + duration }
  | .take =>
    match w.thread, take w.nav.slot with
    | .waiting, some (fingerprint, options, slot) =>
      some { w with
        nav := { w.nav with slot := slot }
        thread := .asking fingerprint options none
        history := w.history ++ [.shown fingerprint options] }
    | _, _ => none
  | .confirm selectedKeyIndex =>
    match w.thread with
    | .asking fingerprint options none =>
      some { w with
        thread := .asking fingerprint options (some (.newChecked selectedKeyIndex))
        history := w.history ++ [.confirmed selectedKeyIndex] }
    | _ => none
  | .reply r =>
    match w.thread with
    | .asking fingerprint _ answer =>
      if r.Honest answer then
        some { w with
          thread := .answered fingerprint r.outcome
          history := w.history ++ [.closed] }
      else none
    | _ => none
  | .commit =>
    match w.thread with
    | .answered fingerprint outcome =>
      some { w with
        nav := { w.nav with slot := Fido.commit w.nav.slot fingerprint outcome }
        thread := .waiting }
    | _ => none

/-- The steps in this order. -/
def run (w : World F) : List (Act F) → Option (World F)
  | [] => some w
  | a :: as => (w.step a).bind fun w' => run w' as

end World

end Fido
