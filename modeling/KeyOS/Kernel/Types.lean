import KeyOS.Lib.Exec

/-!
# Kernel interface types

The types that the kernel shares with its processes: identifiers, memory ranges,
messages and error codes. A `usize` has 32 bits on this machine.
-/

namespace Kernel

/-! ## 1. Errors and panics -/

/-- The error codes of the system calls modelled here. -/
inductive Error where
  | badAlignment
  | badAddress
  | outOfMemory
  | memoryInUse
  | serverExists
  | serverNotFound
  | processNotFound
  | internalError
  | serverQueueFull
  | threadNotAvailable
  | unhandledSyscall
  | invalidSyscall
  | shareViolation
  | accessDenied
  | again
  | doubleFree
  | invalidArguments
  | kernelTableFull
deriving DecidableEq, Repr

/-- The places where the kernel stops the machine: an `assert!`, an `expect`, an
`unwrap` or an index out of bounds. -/
inductive Panic where
  /-- `assert_ne!(tail_generation, head_generation)` in `queue_message` -/
  | generationsMeet
  /-- "didn't find a free context, even though there should be one" -/
  | noFreeContext
  /-- "tried to return context, but it was already blocking" -/
  | contextAlreadyBlocking
  /-- a thread that is already parked is parked again -/
  | threadAlreadyParked
  /-- "Multiple IRQ threads marked ready" -/
  | irqReadyTwice
  /-- "IRQ thread parked when not ready" -/
  | irqNotReady
  /-- "Thread linked twice" -/
  | linkedTwice
  /-- A thread that should be in a ready queue was not linked in -/
  | notLinked
  /-- "No threads ready (not even idle)" -/
  | noThreadsReady
  /-- "Highest prio head was empty" -/
  | highestHeadEmpty
  /-- "Chosen process did not exist" -/
  | processMissing
  /-- a subtraction below zero -/
  | underflow
  /-- a slice index out of range -/
  | outOfRange
  /-- `assert!(self.num_free_pages.saturating_add(pages) <= RAM_PAGES)` -/
  | freePagesOverflow
  /-- `assert!(self.num_free_pages >= pages)` -/
  | freePagesUnderflow
  /-- the zeroed address is in no region -/
  | noAllocationOffset
  /-- "Tried to map RWX page!" -/
  | mapRwx
  /-- the kernel stores through a read-only entry -/
  | permissionFault
  /-- the kernel stores through an entry without a page -/
  | translationFault
  /-- "reverting a partial move must not fail" and its sibling for lending -/
  | revertFailed
  /-- the `unwrap` of `clear_shared` -/
  | clearSharedFailed
deriving DecidableEq, Repr

/-! ## 2. Identifiers -/

/-- A non-zero byte. -/
structure PID where
  get : UInt8
  neZero : get ≠ 0
deriving DecidableEq

def PID.new (n : UInt8) : Option PID := if h : n ≠ 0 then some ⟨n, h⟩ else none

theorem PID.two_ne : (2 : UInt8) ≠ 0 := by decide

theorem PID.three_ne : (3 : UInt8) ≠ 0 := by decide

theorem PID.four_ne : (4 : UInt8) ≠ 0 := by decide

/-- The first process, which the kernel itself runs in. -/
def PID.kernel : PID := ⟨1, by decide⟩

/-- The sender of a message whose process is gone. -/
def PID.terminated : PID := ⟨255, by decide⟩

abbrev TID := Nat

abbrev MessageId := Nat

/-- A server ID: four 32-bit words. -/
structure SID where
  words : UInt32 × UInt32 × UInt32 × UInt32
deriving DecidableEq

/-! ## 3. Memory ranges -/

structure NonZeroUsize where
  get : Nat
  neZero : get ≠ 0
  lt : get < 2 ^ 32
deriving DecidableEq

def NonZeroUsize.new (n : Nat) : Option NonZeroUsize :=
  if h : n ≠ 0 ∧ n < 2 ^ 32 then some ⟨n, h.1, h.2⟩ else none

@[simp] theorem NonZeroUsize.new_get (n : NonZeroUsize) : NonZeroUsize.new n.get = some n := by
  simp only [NonZeroUsize.new, dif_pos (And.intro n.neZero n.lt)]

/-- Storing an optional word as a number and reading it back loses nothing. -/
@[simp] theorem NonZeroUsize.new_getD (o : Option NonZeroUsize) :
    NonZeroUsize.new ((o.map NonZeroUsize.get).getD 0) = o := by
  cases o with
  | none => rfl
  | some n => exact NonZeroUsize.new_get n

abbrev MemoryAddress := NonZeroUsize

abbrev MemorySize := NonZeroUsize

structure MemoryRange where
  addr : MemoryAddress
  size : MemorySize
deriving DecidableEq

/-! ## 4. Messages -/

structure MemoryMessage where
  id : MessageId
  buf : MemoryRange
  offset : Option MemoryAddress
  valid : Option MemorySize
deriving DecidableEq

structure ScalarMessage where
  id : MessageId
  arg1 : Nat
  arg2 : Nat
  arg3 : Nat
  arg4 : Nat
deriving DecidableEq

inductive Message where
  | mutableBorrow (msg : MemoryMessage)
  | borrow (msg : MemoryMessage)
  | move (msg : MemoryMessage)
  | scalar (msg : ScalarMessage)
  | blockingScalar (msg : ScalarMessage)
  | blockingMove (msg : MemoryMessage)
deriving DecidableEq

namespace Message

def newScalar (id arg1 arg2 arg3 arg4 : Nat) : Message := .scalar ⟨id, arg1, arg2, arg3, arg4⟩

end Message

/-- The opaque word that names the sender of a message. -/
structure MessageSender where
  data : Nat
deriving DecidableEq

structure MessageEnvelope where
  sender : MessageSender
  body : Message
deriving DecidableEq

/-- What a `MessageSender` stands for: a server, a slot of its queue and the process
that sent the message. -/
structure SenderID where
  sidx : Nat
  idx : Nat
  pid : Option PID
deriving DecidableEq

namespace SenderID

def toSender (s : SenderID) : MessageSender :=
  ⟨((s.pid.map fun p => p.get.toNat).getD 0) * 2 ^ 24 + s.sidx % 2 ^ 8 * 2 ^ 16 + s.idx % 2 ^ 16⟩

end SenderID

end Kernel
