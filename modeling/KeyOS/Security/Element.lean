import KeyOS.Lib.Interrupt

/-!
# The secure element

The element holds slots of 32-byte blocks and two counters that only go up. A slot is
written in plain, or with a write key: the host then has to know what another slot holds.
An HMAC under the attempt key moves the login counter, and is refused once the counter
has reached the match count.

Every command is one step: it takes effect whole or not at all, it can fail, and the power
can go before it. Hashes are computed by another server, so they can fail too. The hashes
themselves are parameters (`Board`).
-/

namespace Security

open Exec Interrupt Interruptible

/-! ## 1. Bytes -/

/-- `[u8; n]` -/
abbrev Bytes (n : Nat) := Fin n → UInt8

variable {n m : Nat}

def zeros (n : Nat) : Bytes n := fun _ => 0

/-- `a ^= k`, byte by byte, as far as both reach. -/
def xorBytes (a : Bytes n) (k : Bytes m) : Bytes n := fun i =>
  if h : i.val < m then a i ^^^ k ⟨i.val, h⟩ else a i

/-- The first `m` bytes of `a`, filled up with zeros. -/
def resize (m : Nat) (a : Bytes n) : Bytes m := fun i =>
  if h : i.val < n then a ⟨i.val, h⟩ else 0

/-- The block `k` of `a.chunks(32)`, filled up with zeros. -/
def chunk (a : Bytes n) (k : Nat) : Bytes 32 := fun i =>
  if h : 32 * k + i.val < n then a ⟨32 * k + i.val, h⟩ else 0

/-- The numbers of the blocks of `a.chunks(32)`. -/
def chunks (n : Nat) : List Nat := List.range ((n + 31) / 32)

/-- The first `n` bytes of consecutive blocks. -/
def joinBlocks (n : Nat) (blocks : List (Bytes 32)) : Bytes n := fun i =>
  blocks.getD (i.val / 32) (zeros 32) ⟨i.val % 32, Nat.mod_lt _ (by decide)⟩

/-- Consecutive `u32::to_le_bytes`, filled up with zeros. -/
def leBytes (values : List Nat) : Bytes 32 := fun i =>
  UInt8.ofNat (values.getD (i.val / 4) 0 / 256 ^ (i.val % 4))

/-- `u32::from_le_bytes(padded[..4])` -/
def leValue (a : Bytes 32) : Nat :=
  (a 0).toNat + 256 * (a 1).toNat + 65536 * (a 2).toNat + 16777216 * (a 3).toNat

theorem leValue_leBytes {v : Nat} (hv : v < 2 ^ 32) (values : List Nat) :
    leValue (leBytes (v :: values)) = v := by
  show v / 256 ^ 0 % 256 + 256 * (v / 256 ^ 1 % 256) + 65536 * (v / 256 ^ 2 % 256)
    + 16777216 * (v / 256 ^ 3 % 256) = v
  omega

/-! ## 2. Slots and counters -/

inductive Slot where
  | ioProtectionSecret
  | pinStretch
  | pinAttempt
  | pinHash
  | matchCount
  | lastGood
  | aesEntropy
  | seed
  | keycardAuthenticity
  | seedFingerprint
deriving DecidableEq, Repr

/-- How the configuration of the element lets a slot be written. -/
inductive WriteAccess where
  | plain
  | withKey (key : Slot)
  | never
deriving DecidableEq, Repr

namespace Slot

/-- The size of the slot in bytes. -/
def size : Slot → Nat
  | aesEntropy => 416
  | seed | keycardAuthenticity | seedFingerprint => 72
  | _ => 36

def writeAccess : Slot → WriteAccess
  | pinHash | aesEntropy | seedFingerprint => .withKey seed
  | matchCount | lastGood => .withKey pinHash
  | seed => .plain
  -- Written on an older configuration only, where it holds the entropy of the disk keys.
  | keycardAuthenticity => .withKey seed
  | ioProtectionSecret | pinStretch | pinAttempt => .never

end Slot

inductive Counter where
  | loginAttempt
  | factoryReset
deriving DecidableEq, Repr

structure Element where
  /-- The 32-byte blocks of each slot. -/
  slots : Slot → Nat → Bytes 32
  counters : Counter → Nat

inductive Error where
  | cryptoAuthLib
  | crypto
  | seIncorrectTempkey
deriving DecidableEq, Repr

/-- `TempKey` after `gendig`, as the host computes it from what it takes the slot or the
counter to hold. -/
inductive Digest where
  | slot (slot : Slot) (contents : Bytes 32)
  | counter (counter : Counter) (value : Nat)
deriving DecidableEq

/-- `!31`: the low five bits are dropped. -/
def dropLowBits (value : Nat) : Nat := value / 32 * 32

namespace Element

/-- The login counter goes up to here: the stored match count without its low five bits. -/
def limit (e : Element) : Nat := dropLowBits (leValue (e.slots .matchCount 0))

/-- The digest of the element is the same one. -/
def agrees (e : Element) : Digest → Bool
  | .slot slot contents => e.slots slot 0 = contents
  | .counter counter value => e.counters counter = value

def put (e : Element) (slot : Slot) (blk : Nat) (data : Bytes 32) : Element :=
  { e with slots := fun s k => if s = slot ∧ k = blk then data else e.slots s k }

def count (e : Element) (counter : Counter) : Element :=
  { e with counters := fun c => if c = counter then e.counters c + 1 else e.counters c }

def write (slot : Slot) (blk : Nat) (data : Bytes 32) (e : Element) :
    Except Error (Unit × Element) :=
  if slot.writeAccess = .plain then .ok ((), e.put slot blk data) else .error .cryptoAuthLib

/-- A write with a key needs a digest that the element agrees with. -/
def writeWithKey (slot : Slot) (blk : Nat) (digest : Digest) (data : Bytes 32) (e : Element) :
    Except Error (Unit × Element) :=
  match slot.writeAccess, digest with
  | .withKey key, .slot keySlot contents =>
    if key = keySlot ∧ e.slots keySlot 0 = contents then .ok ((), e.put slot blk data)
    else .error .cryptoAuthLib
  | _, _ => .error .cryptoAuthLib

/-- The login counter does not go past the match count. -/
def increment (counter : Counter) (e : Element) : Except Error (Nat × Element) :=
  if counter = .loginAttempt ∧ e.limit ≤ e.counters .loginAttempt then .error .cryptoAuthLib
  else .ok (e.counters counter + 1, e.count counter)

/-- The start of an HMAC under the key in a slot. -/
def hmacStart (slot : Slot) (e : Element) : Except Error (Unit × Element) :=
  if slot = .pinAttempt then (e.increment .loginAttempt).map fun (_, e) => ((), e)
  else .ok ((), e)

@[simp] theorem slots_put_same (e : Element) (slot : Slot) (blk : Nat) (data : Bytes 32) :
    (e.put slot blk data).slots slot blk = data :=
  if_pos ⟨rfl, rfl⟩

theorem slots_put_other (e : Element) {slot other : Slot} (h : other ≠ slot) (blk k : Nat)
    (data : Bytes 32) : (e.put slot blk data).slots other k = e.slots other k :=
  if_neg fun hs => h hs.1

@[simp] theorem counters_put (e : Element) (slot : Slot) (blk : Nat) (data : Bytes 32) :
    (e.put slot blk data).counters = e.counters := rfl

@[simp] theorem counters_count_same (e : Element) (counter : Counter) :
    (e.count counter).counters counter = e.counters counter + 1 :=
  if_pos rfl

end Element

/-! ## 3. The machine -/

structure Securam where
  /-- Magic and checksum are right. -/
  intact : Bool
  otpKey : Bytes 72
  pinEntryMode : UInt8
  diskEncryptionKeys : Bytes 32 × Bytes 32

abbrev AuthPinHash := Bytes 32

abbrev XorPinHash := Bytes 32

structure Machine where
  element : Element
  securam : Securam
  /-- The hashes of the PIN that is logged in, in the memory of the server. -/
  pinHash : Option (AuthPinHash × XorPinHash)

/-- What does not change while the server runs. -/
structure Board where
  sha256 : List UInt8 → Bytes 32
  /-- HMAC of a message under a key. -/
  hmac : Bytes 32 → Bytes 32 → Bytes 32
  /-- What an encrypted read with a wrong key makes of the data. -/
  misread : Bytes 32 → Bytes 32 → Bytes 32
  ioProtectionSecret : Bytes 32
  aesKeysInSlot12 : Bool

/-- A program of the security server. -/
abbrev SecurityM (ε α : Type) := Interruptible Machine Unit ε α

/-- A command of the element. -/
def command {α : Type} (f : Element → Except Error (α × Element)) : SecurityM Error α :=
  step (fun _ => .cryptoAuthLib) fun m =>
    (f m.element).map fun (a, e) => (a, { m with element := e })

/-- A command that only reads. -/
def query {α : Type} (f : Element → Except Error α) : SecurityM Error α :=
  probe (fun _ => .cryptoAuthLib) fun m => f m.element

/-- A command whose result is of no use to the model. -/
def exchange : SecurityM Error Unit := query fun _ => .ok ()

/-- A hash that another server computes. -/
def hashOf {α : Type} (a : α) : SecurityM Error α := probe (fun _ => .crypto) fun _ => .ok a

/-- `with_securam(..)` with an edit of a field. -/
def withSecuram {ε : Type} (f : Securam → Securam) : SecurityM ε Unit :=
  expect "SECURAM corrupt" <| step (fun _ => ()) fun m =>
    if m.securam.intact then .ok ((), { m with securam := f m.securam }) else .error ()

/-- `with_securam(..)` with a read of a field. -/
def readSecuram {ε α : Type} (f : Securam → α) : SecurityM ε α :=
  expect "SECURAM corrupt" <| probe (fun _ => ()) fun m =>
    if m.securam.intact then .ok (f m.securam) else .error ()

def setPinHash {ε : Type} (hashes : Option (AuthPinHash × XorPinHash)) : SecurityM ε Unit :=
  Prog.modify fun d => { d with contents := { d.contents with pinHash := hashes } }

/-! ## 4. Commands of the host -/

variable (b : Board)

/-- The nonce that both sides know: `nonce_rand` and a hash. -/
def pickNonce : SecurityM Error Unit := do
  exchange
  hashOf ()

def gendigSlot (slot : Slot) (contents : Bytes 32) : SecurityM Error Digest := do
  pickNonce
  exchange
  hashOf (.slot slot contents)

def gendigCounter (counter : Counter) (value : Nat) : SecurityM Error Digest := do
  pickNonce
  exchange
  hashOf (.counter counter value)

/-- Does `TempKey` hold what the host thinks it does? -/
def isCorrectTempkey (expected : Digest) : SecurityM Error Bool := do
  let correct ← query fun e => .ok (e.agrees expected)
  hashOf correct

def requireTempkey (expected : Digest) : SecurityM Error Unit := do
  let correct ← isCorrectTempkey expected
  Prog.onlyIf (correct = false) (throw .seIncorrectTempkey)

def checkmac (slot : Slot) (secret : Bytes 32) : SecurityM Error Unit := do
  pickNonce
  hashOf ()
  query fun e => if e.slots slot 0 = secret then .ok () else .error .cryptoAuthLib

def checkmacHard (slot : Slot) (secret : Bytes 32) : SecurityM Error Unit := do
  let digest ← gendigSlot slot secret
  requireTempkey digest

/-- `for _ in 0..n { if x.is_ok() { return Ok(()) } } x` -/
def orRetry (x : SecurityM Error Unit) : Nat → SecurityM Error Unit
  | 0 => x
  | n + 1 => do
    let result : Except Error Unit ← attempt x
    match result with
    | .ok () => pure ()
    | .error _ => orRetry x n

def pairUnlock : SecurityM Error Unit :=
  orRetry (checkmac .ioProtectionSecret b.ioProtectionSecret) 2

def hmac32 (slot : Slot) (msg : Bytes 32) : SecurityM Error (Bytes 32) := do
  command (Element.hmacStart slot)
  query fun e => .ok (b.hmac (e.slots slot 0) msg)

def writeSlot (slot : Slot) (data : Bytes n) : SecurityM Error Unit :=
  Prog.forEach (chunks n) fun blk => command (Element.write slot blk (chunk data blk))

def encryptedWrite32 (dataSlot : Slot) (blk : Nat) (writeKn : Slot) (writeKey : Bytes 32)
    (data : Bytes 32) : SecurityM Error Unit := do
  pairUnlock b
  let digest ← gendigSlot writeKn writeKey
  hashOf ()
  command (Element.writeWithKey dataSlot blk digest data)

def encryptedWrite (dataSlot writeKn : Slot) (writeKey : Bytes 32) (data : Bytes n) :
    SecurityM Error Unit :=
  Prog.forEach (chunks n) fun blk =>
    encryptedWrite32 b dataSlot blk writeKn writeKey (chunk data blk)

/-- The data comes back right if the key is what the slot of the key holds. -/
def encryptedRead32 (dataSlot : Slot) (blk : Nat) (readKn : Slot) (readKey : Bytes 32) :
    SecurityM Error (Bytes 32) := do
  pairUnlock b
  let digest ← gendigSlot readKn readKey
  query fun e =>
    let data := e.slots dataSlot blk
    .ok (if e.agrees digest then data else b.misread readKey data)

def encryptedReadBlocks (dataSlot readKn : Slot) (readKey : Bytes 32) :
    List Nat → SecurityM Error (List (Bytes 32))
  | [] => pure []
  | blk :: blks => do
    let block ← encryptedRead32 b dataSlot blk readKn readKey
    let blocks ← encryptedReadBlocks dataSlot readKn readKey blks
    pure (block :: blocks)

def encryptedRead (n : Nat) (dataSlot readKn : Slot) (readKey : Bytes 32) :
    SecurityM Error (Bytes n) := do
  let blocks ← encryptedReadBlocks b dataSlot readKn readKey (chunks n)
  pure (joinBlocks n blocks)

/-- A value held in the first four bytes of a slot. -/
def readSlotAsCounterInsecure (slot : Slot) : SecurityM Error Nat := do
  pairUnlock b
  query fun e => .ok (leValue (e.slots slot 0))

/-- Read a one-way counter and verify the value. -/
def getCounter (counter : Counter) : SecurityM Error Nat := do
  let result ← query fun e => .ok (e.counters counter)
  let digest ← gendigCounter counter result
  requireTempkey digest
  pure result

def getCounterInsecure (counter : Counter) : SecurityM Error Nat :=
  query fun e => .ok (e.counters counter)

def incrementTimes (counter : Counter) : Nat → Nat → SecurityM Error Nat
  | 0, result => pure result
  | incr + 1, _ => do
    let result ← command (Element.increment counter)
    incrementTimes counter incr result

/-- Add to a one-way counter in single steps, and verify the value. -/
def addCounter (counter : Counter) (incr : Nat) : SecurityM Error Nat := do
  let result ← incrementTimes counter incr 0
  let digest ← gendigCounter counter result
  requireTempkey digest
  pure result

/-! ## 5. What the commands change -/

section Changes

variable {R : Machine → Machine → Prop} {α ε : Type}

theorem setPinHash_moves {hashes : Option (AuthPinHash × XorPinHash)}
    (h : ∀ m, R m { m with pinHash := hashes }) : Moves R (setPinHash hashes : SecurityM ε Unit) :=
  fun d => h d.contents

variable [Std.Refl R]

theorem command_moves {f : Element → Except Error (α × Element)}
    (h : ∀ m a e, f m.element = .ok (a, e) → R m { m with element := e }) :
    Moves R (command f) := by
  refine Moves.step fun m a m' hm => ?_
  cases hf : f m.element with
  | ok r =>
    rw [hf] at hm
    cases hm
    exact h m r.1 r.2 hf
  | error e =>
    rw [hf] at hm
    cases hm

theorem withSecuram_moves {f : Securam → Securam}
    (h : ∀ m, R m { m with securam := f m.securam }) :
    Moves R (withSecuram f : SecurityM ε Unit) := by
  refine Moves.expect (Moves.step fun m a m' hm => ?_)
  split at hm
  · cases hm
    exact h m
  · cases hm

theorem readSecuram_moves {f : Securam → α} : Moves R (readSecuram f : SecurityM ε α) :=
  Moves.expect Moves.probe

theorem query_moves {f : Element → Except Error α} : Moves R (query f) :=
  Moves.probe

theorem hashOf_moves {a : α} : Moves R (hashOf a) :=
  Moves.probe

variable [IsTrans Machine R]

theorem pickNonce_moves : Moves R pickNonce :=
  Moves.bind query_moves fun _ => hashOf_moves

theorem gendigSlot_moves (slot : Slot) (contents : Bytes 32) :
    Moves R (gendigSlot slot contents) :=
  Moves.bind pickNonce_moves fun _ => Moves.bind query_moves fun _ => hashOf_moves

theorem gendigCounter_moves (counter : Counter) (value : Nat) :
    Moves R (gendigCounter counter value) :=
  Moves.bind pickNonce_moves fun _ => Moves.bind query_moves fun _ => hashOf_moves

theorem requireTempkey_moves (expected : Digest) : Moves R (requireTempkey expected) :=
  Moves.bind (Moves.bind query_moves fun _ => hashOf_moves) fun _ => Moves.onlyIf Moves.throw

theorem checkmac_moves (slot : Slot) (secret : Bytes 32) : Moves R (checkmac slot secret) :=
  Moves.bind pickNonce_moves fun _ => Moves.bind hashOf_moves fun _ => query_moves

theorem checkmacHard_moves (slot : Slot) (secret : Bytes 32) :
    Moves R (checkmacHard slot secret) :=
  Moves.bind (gendigSlot_moves slot secret) requireTempkey_moves

theorem orRetry_moves {x : SecurityM Error Unit} (h : Moves R x) (n : Nat) :
    Moves R (orRetry x n) := by
  induction n with
  | zero => exact h
  | succ n ih =>
    refine Moves.bind h.attempt fun result => ?_
    cases result with
    | ok u => exact Moves.pure
    | error e => exact ih

theorem pairUnlock_moves : Moves R (pairUnlock b) :=
  orRetry_moves (checkmac_moves _ _) 2

theorem hmac32_moves (slot : Slot) (msg : Bytes 32)
    (h : slot = .pinAttempt → ∀ m, R m { m with element := m.element.count .loginAttempt }) :
    Moves R (hmac32 b slot msg) := by
  refine Moves.bind (command_moves fun m a e he => ?_) fun _ => query_moves
  unfold Element.hmacStart Element.increment at he
  split at he
  · next hslot =>
    split at he
    · cases he
    · cases he
      exact h hslot m
  · cases he
    exact Std.Refl.refl m

/-- A write edits blocks of its own slot only. -/
theorem writeSlot_moves {slot : Slot} (data : Bytes n)
    (h : ∀ m blk data, R m { m with element := m.element.put slot blk data }) :
    Moves R (writeSlot slot data) := by
  refine Moves.forEach fun blk => command_moves fun m a e he => ?_
  unfold Element.write at he
  split at he
  · cases he
    exact h m blk _
  · cases he

theorem encryptedWrite32_moves {dataSlot : Slot} (blk : Nat) (writeKn : Slot)
    (writeKey data : Bytes 32)
    (h : ∀ m blk data, R m { m with element := m.element.put dataSlot blk data }) :
    Moves R (encryptedWrite32 b dataSlot blk writeKn writeKey data) := by
  refine Moves.bind (pairUnlock_moves b) fun _ => Moves.bind (gendigSlot_moves _ _) fun digest =>
    Moves.bind hashOf_moves fun _ => command_moves fun m a e he => ?_
  unfold Element.writeWithKey at he
  split at he
  · split at he
    · cases he
      exact h m blk data
    · cases he
  · cases he

theorem encryptedWrite_moves {dataSlot : Slot} (writeKn : Slot) (writeKey : Bytes 32)
    (data : Bytes n)
    (h : ∀ m blk data, R m { m with element := m.element.put dataSlot blk data }) :
    Moves R (encryptedWrite b dataSlot writeKn writeKey data) :=
  Moves.forEach fun blk => encryptedWrite32_moves b blk writeKn writeKey _ h

theorem encryptedReadBlocks_moves (dataSlot readKn : Slot) (readKey : Bytes 32)
    (blks : List Nat) : Moves R (encryptedReadBlocks b dataSlot readKn readKey blks) := by
  induction blks with
  | nil => exact Moves.pure
  | cons blk blks ih =>
    refine Moves.bind ?_ fun block => Moves.bind ih fun blocks => Moves.pure
    exact Moves.bind (pairUnlock_moves b) fun _ => Moves.bind (gendigSlot_moves _ _) fun _ =>
      query_moves

theorem encryptedRead_moves (n : Nat) (dataSlot readKn : Slot) (readKey : Bytes 32) :
    Moves R (encryptedRead b n dataSlot readKn readKey) :=
  Moves.bind (encryptedReadBlocks_moves b dataSlot readKn readKey _) fun _ => Moves.pure

theorem readSlotAsCounterInsecure_moves (slot : Slot) :
    Moves R (readSlotAsCounterInsecure b slot) :=
  Moves.bind (pairUnlock_moves b) fun _ => query_moves

theorem getCounter_moves (counter : Counter) : Moves R (getCounter counter) :=
  Moves.bind query_moves fun _ => Moves.bind (gendigCounter_moves _ _) fun _ =>
    Moves.bind (requireTempkey_moves _) fun _ => Moves.pure

theorem incrementTimes_moves (counter : Counter)
    (h : ∀ m, R m { m with element := m.element.count counter }) (incr result : Nat) :
    Moves R (incrementTimes counter incr result) := by
  induction incr generalizing result with
  | zero => exact Moves.pure
  | succ incr ih =>
    refine Moves.bind (command_moves fun m a e he => ?_) ih
    unfold Element.increment at he
    split at he
    · cases he
    · cases he
      exact h m

theorem addCounter_moves (counter : Counter)
    (h : ∀ m, R m { m with element := m.element.count counter }) (incr : Nat) :
    Moves R (addCounter counter incr) :=
  Moves.bind (incrementTimes_moves counter h incr 0) fun _ =>
    Moves.bind (gendigCounter_moves _ _) fun _ => Moves.bind (requireTempkey_moves _) fun _ =>
      Moves.pure

end Changes

/-! ## 6. What the commands yield -/

section Results

/-- The contents stay as they are. -/
theorem unchanged {ε α : Type} {x : SecurityM ε α} (h : Moves (· = ·) x) (P : Machine → Prop) :
    Spec (fun _ => True) P x (fun _ => P) fun _ => P :=
  h.spec fun _ _ hs hP => hs ▸ hP

/-- What a program that changes nothing keeps. -/
theorem steady {ε α : Type} {x : SecurityM ε α} (h : Moves (· = ·) x) (P : Machine → Prop) :
    Spec (fun _ => True) P x (fun _ => P) fun _ _ => True :=
  (unchanged h P).conseq (fun _ => id) (fun _ _ => id) fun _ _ _ => trivial

theorem command_spec {α : Type} {f : Element → Except Error (α × Element)} {P : Machine → Prop}
    {Q : α → Machine → Prop}
    (h : ∀ m a e, P m → f m.element = .ok (a, e) → Q a { m with element := e }) :
    Spec (fun _ => True) P (command f) Q fun _ => P := by
  refine Spec.step (fun m a m' hP hm => ?_) (fun _ _ hP _ => hP) (fun _ _ hP _ => hP)
    fun _ hP _ => hP
  cases hf : f m.element with
  | ok r =>
    rw [hf] at hm
    cases hm
    exact h m r.1 r.2 hP hf
  | error e =>
    rw [hf] at hm
    cases hm

theorem query_spec {α : Type} {f : Element → Except Error α} {P : Machine → Prop}
    {Q : α → Machine → Prop} (h : ∀ m a, P m → f m.element = .ok a → Q a m) :
    Spec (fun _ => True) P (query f) Q fun _ => P :=
  Spec.probe (fun m a hP hm => h m a hP hm) (fun _ _ hP _ => hP) (fun _ _ hP _ => hP)
    fun _ hP _ => hP

theorem requireTempkey_spec (expected : Digest) (P : Machine → Prop) :
    Spec (fun _ => True) P (requireTempkey expected)
      (fun _ m => P m ∧ m.element.agrees expected = true) fun _ => P := by
  refine Spec.bind (Q := fun correct m => P m ∧ m.element.agrees expected = correct) ?_
    fun correct => Spec.onlyIf (fun _ => Spec.throw fun _ h => h.1) fun hne m h => ?_
  · refine Spec.bind (Q := fun correct m => P m ∧ m.element.agrees expected = correct)
      (query_spec fun m a hP ha => ⟨hP, by cases ha; rfl⟩) fun correct => ?_
    exact Spec.probe (fun _ _ h ha => by cases ha; exact h) (fun _ _ h _ => h.1)
      (fun _ _ h _ => h.1) fun _ h _ => h.1
  · cases correct with
    | true => exact h
    | false => exact absurd rfl hne

/-- A counter that is read is the counter of the element. -/
theorem getCounter_spec (counter : Counter) (m : Machine) :
    Spec (fun _ => True) (· = m) (getCounter counter)
      (fun n m' => n = m.element.counters counter ∧ m' = m) fun _ => (· = m) := by
  refine Spec.bind (Q := fun n m' => n = m.element.counters counter ∧ m' = m)
    (query_spec fun m' n hm hn => ⟨by cases hn; rw [hm], hm⟩) fun n => ?_
  refine Spec.assume fun hn => ?_
  refine Spec.bind (unchanged (gendigCounter_moves counter n) _) fun digest => ?_
  refine Spec.bind (unchanged (requireTempkey_moves digest) _) fun _ => ?_
  exact Spec.pure fun _ hm => ⟨hn, hm⟩

theorem encryptedWrite32_spec (slot : Slot) (blk : Nat) (writeKn : Slot)
    (writeKey data : Bytes 32) (P : Machine → Prop) :
    Spec (fun _ => True) P (encryptedWrite32 b slot blk writeKn writeKey data)
      (fun _ m' => ∃ m, P m ∧ m' = { m with element := m.element.put slot blk data })
      fun _ => P := by
  refine Spec.bind (unchanged (pairUnlock_moves b) P) fun _ => ?_
  refine Spec.bind (unchanged (gendigSlot_moves _ _) P) fun digest => ?_
  refine Spec.bind (unchanged hashOf_moves P) fun _ => command_spec fun m a e hP he => ?_
  unfold Element.writeWithKey at he
  split at he
  · split at he
    · cases he
      exact ⟨m, hP, rfl⟩
    · cases he
  · cases he

theorem chunk_block (data : Bytes 32) : chunk data 0 = data := by
  funext i
  unfold chunk
  rw [dif_pos (by omega)]
  congr 1
  ext
  simp

end Results

end Security
