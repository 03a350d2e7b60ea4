import KeyOS.Crypto.Sha2

/-!
# Streaming SHA

The client's side of a SHA context. What does not make a page is hashed in software; the rest is
lent to the server, which has the hash state from then on until the client takes it back.

A method stops at each request that it sends, and goes on with the answer: others may run in
between.
-/

namespace Crypto

open BlockModes

/-! ## 1. State -/

def swThreshold : Nat := 0x1000

def scratchCap : Nat := 128 * 1024

def pageSize : Nat := 4096

/-- `Error::BadAddress` -/
def badAddress : UInt32 := 2

structure ShaStreamingContext where
  algo : ShaAlgo
  accumulator : Bytes
  bytesCompressed : UInt64
  hashState : Bytes
  serverId : Option UInt32
  serverAuthoritative : Bool
  /-- The bytes of the memory that is mapped. -/
  scratch : Option Bytes

/-- A slice of the caller. -/
structure Slice where
  addr : UInt32
  bytes : Bytes
  short : bytes.length < 2 ^ 31

/-- What a method does next, and its context as it stands. -/
inductive ShaCall where
  | returned (self : ShaStreamingContext) (result : Except CryptoError Bytes)
  | panicked (self : ShaStreamingContext)
  | setContext (self : ShaStreamingContext) (msg : ShaSetContext) (next : UInt32 → ShaCall)
  /-- `ShaUpdate`: the buffer is lent, and comes back as it is. -/
  | update (self : ShaStreamingContext) (contextId : UInt32) (buf : Bytes) (length : UInt32)
    (next : ShaCall)
  | getContext (self : ShaStreamingContext) (contextId : UInt32) (next : ShaContext → ShaCall)
  | mapMemory (self : ShaStreamingContext) (size : Nat) (next : Bytes → ShaCall)

/-- A method that changes its context and has a value. -/
def ShaClient (α : Type) : Type :=
  ShaStreamingContext → (ShaStreamingContext → α → ShaCall) → ShaCall

namespace ShaClient

variable {α : Type}

instance : Monad ShaClient where
  pure a := fun self k => k self a
  bind x f := fun self k => x self fun self a => f a self k

def get : ShaClient ShaStreamingContext := fun self k => k self self

def modify (f : ShaStreamingContext → ShaStreamingContext) : ShaClient Unit :=
  fun self k => k (f self) ()

def throw (e : CryptoError) : ShaClient α := fun self _ => .returned self (.error e)

/-- A slice that is in range, an `unwrap` of what is there. -/
def require (c : Prop) [Decidable c] : ShaClient Unit :=
  fun self k => if c then k self () else .panicked self

def unwrap : Option α → ShaClient α
  | some a => fun self k => k self a
  | none => fun self _ => .panicked self

def sendSetContext (msg : ShaSetContext) : ShaClient UInt32 :=
  fun self k => .setContext self msg (k self)

def lendUpdate (contextId : UInt32) (buf : Bytes) (length : UInt32) : ShaClient Unit :=
  fun self k => .update self contextId buf length (k self ())

def sendGetContext (contextId : UInt32) : ShaClient ShaContext :=
  fun self k => .getContext self contextId (k self)

def mapMemory (size : Nat) : ShaClient Bytes := fun self k => .mapMemory self size (k self)

@[simp] theorem bind_run {β : Type} (x : ShaClient α) (f : α → ShaClient β)
    (self : ShaStreamingContext) (k : ShaStreamingContext → β → ShaCall) :
    (x >>= f) self k = x self fun self a => f a self k := rfl

@[simp] theorem get_run (self : ShaStreamingContext)
    (k : ShaStreamingContext → ShaStreamingContext → ShaCall) : get self k = k self self := rfl

@[simp] theorem modify_run (f : ShaStreamingContext → ShaStreamingContext)
    (self : ShaStreamingContext) (k : ShaStreamingContext → Unit → ShaCall) :
    modify f self k = k (f self) () := rfl

/-! ## 2. Methods -/

/-- `sha_init` -/
def shaInit (algo : ShaAlgo) : ShaStreamingContext where
  algo := algo
  accumulator := []
  bytesCompressed := 0
  hashState := algo.initialHashState
  serverId := none
  serverAuthoritative := false
  scratch := none

def pushStateToServer : ShaClient Unit := do
  let self ← get
  if self.serverAuthoritative then return ()
  else
    let id ← sendSetContext ⟨self.serverId, self.algo, self.hashState⟩
    modify fun self => { self with serverId := some id, serverAuthoritative := true }

def fetchServerState : ShaClient Unit := do
  let self ← get
  if self.serverAuthoritative then
    let id ← unwrap self.serverId
    let snap ← sendGetContext id
    modify fun self => { self with hashState := snap.hashState, serverAuthoritative := false }
  else return ()

/-- Some bytes have been hashed. -/
def count (len : Nat) : ShaClient Unit :=
  modify fun self => { self with bytesCompressed := self.bytesCompressed + UInt64.ofNat len }

def updateSw (C : Compression) (data : Bytes) : ShaClient Unit := do
  modify fun self => { self with accumulator := self.accumulator ++ data }
  let self ← get
  let numBlocks := self.accumulator.length / self.algo.blockSize
  if 0 < numBlocks then
    fetchServerState
    let blocksEnd := numBlocks * self.algo.blockSize
    modify fun self =>
      { self with
        hashState := swCompressBlocks C self.hashState self.algo (self.accumulator.take blocksEnd)
        accumulator := self.accumulator.drop blocksEnd }
    count blocksEnd
  else return ()

def scratchRange : ShaClient Unit := do
  let self ← get
  if self.scratch.isNone then
    let mem ← mapMemory scratchCap
    modify fun self => { self with scratch := some mem }
  else return ()

/-- `scratch[offset..][..bytes.len()].copy_from_slice(bytes)` -/
def writeScratch (offset : Nat) (bytes : Bytes) : ShaClient Unit := do
  let self ← get
  let mem ← unwrap self.scratch
  require (offset + bytes.length ≤ mem.length)
  modify fun self => { self with scratch := some (patch mem offset bytes) }

/-- `ShaUpdate` -/
def shaUpdate (buf : Bytes) (length : Nat) : ShaClient Unit := do
  let self ← get
  let id ← unwrap self.serverId
  lendUpdate id buf (UInt32.ofNat length)
  count length

/-- The pages with the first bytes of the scratch memory are lent. -/
def lendScratch (length : Nat) : ShaClient Unit := do
  let self ← get
  let mem ← unwrap self.scratch
  let pages := (length + (pageSize - 1)) / pageSize * pageSize
  require (pages ≤ mem.length ∧ 0 < pages)
  shaUpdate (mem.take pages) length

/-- The loop of `update_hw`, with the rounds that are left. -/
def hwRounds : Nat → Bytes → ShaClient Unit
  | 0, _ => fun self _ => .panicked self
  | rounds + 1, remaining => do
    let self ← get
    let accLen := self.accumulator.length
    if self.algo.blockSize ≤ accLen + remaining.length then
      let fromData := min (scratchCap - accLen) remaining.length
      let sendLen := (accLen + fromData) / self.algo.blockSize * self.algo.blockSize
      writeScratch 0 self.accumulator
      require (accLen ≤ sendLen ∧ sendLen - accLen ≤ remaining.length)
      writeScratch accLen (remaining.take (sendLen - accLen))
      modify fun self => { self with accumulator := [] }
      lendScratch sendLen
      hwRounds rounds (remaining.drop (sendLen - accLen))
    else modify fun self => { self with accumulator := remaining }

/-- `MemoryRange::new(addr, size)?` -/
def newMemoryRange (addr : UInt32) (size : Nat) : ShaClient Unit :=
  if addr = 0 ∨ size = 0 then throw (.xousError badAddress) else return ()

def updateHw (C : Compression) (data : Slice) : ShaClient Unit := do
  let self ← get
  -- Fast path: the pages of an aligned slice are lent as they are, the tail is for the software.
  if self.accumulator = [] ∧ data.addr.toNat % pageSize = 0 ∧ pageSize ≤ data.bytes.length then
    let hwLen := data.bytes.length / pageSize * pageSize
    newMemoryRange data.addr hwLen
    shaUpdate (data.bytes.take hwLen) hwLen
    updateSw C (data.bytes.drop hwLen)
  else
    scratchRange
    hwRounds (self.accumulator.length + data.bytes.length + 1) data.bytes

def update (C : Compression) (data : Slice) : ShaClient Unit := do
  let self ← get
  if data.bytes = [] then return ()
  else if swThreshold ≤ self.accumulator.length + data.bytes.length then
    pushStateToServer
    updateHw C data
  else updateSw C data.bytes

def finalize (C : Compression) : ShaClient Bytes := do
  fetchServerState
  modify fun self =>
    let totalBits := (self.bytesCompressed + UInt64.ofNat self.accumulator.length) * 8
    let pad := shaPadding self.accumulator self.algo totalBits
    { self with hashState := swCompressBlocks C self.hashState self.algo pad }
  let self ← get
  return self.hashState.take self.algo.hashSize

end ShaClient

end Crypto
