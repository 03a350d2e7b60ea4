import KeyOS.Lib.ByteStream
import KeyOS.Lib.Exec
import KeyOS.Lib.Slices

/-!
# The patcher

A patch is applied a bufferful of target at a time: a batch is planned from the control records,
the source bytes that it needs are gathered in sorted and merged runs, and the delta and the extra
bytes are laid over them.
-/

namespace Qbsdiff

open Exec Prog Slices

abbrev Bytes := List UInt8

/-! ## 1. Records -/

/-- `x as i64` of a `u64`. -/
def asI64 (x : Nat) : Int := if x < 2 ^ 63 then x else x - 2 ^ 64

/-- `x as u64` of an `i64`. -/
def asU64 (x : Int) : Nat := (x % 2 ^ 64).toNat

def decodeInt (b : Bytes) : Int :=
  let x := ByteStream.ofLe (b.take 8)
  if x < 2 ^ 63 ∨ x = 2 ^ 63 then asI64 x else -(x % 2 ^ 63 : Nat)

structure Control where
  add : Nat
  copy : Nat
  seek : Int
deriving DecidableEq

/-- A record of 24 bytes. -/
def Control.decode (ctl : Bytes) : Control where
  add := asU64 (decodeInt ctl)
  copy := asU64 (decodeInt (ctl.drop 8))
  seek := decodeInt (ctl.drop 16)

/-- One source read gathered while planning a batch. -/
structure SourceRead where
  sourceOffset : Nat
  bufferOffset : Nat
  len : Nat
deriving DecidableEq

structure Batch where
  segments : List (Nat × Nat)
  reads : List SourceRead
  used : Nat

/-- Where a run ends, the reads that it has taken, and those that are left. -/
structure Run where
  runEnd : Nat
  taken : List SourceRead
  left : List SourceRead

def coalesceGap : Nat := 8192

/-! ## 2. State -/

structure Context where
  source : Bytes
  target : Bytes
  ctrls : Bytes
  delta : Bytes
  extra : Bytes
  buf : Bytes
  /-- The size of the delta cache. -/
  dlt : Nat
  scratch : Bytes
  pending : Option Control
  sourcePos : Int
  total : Nat

inductive Error where
  | unexpectedEof
deriving DecidableEq

inductive Panic where
  | overflow
  | slice
  /-- Not of the source: a loop has not ended in its rounds. -/
  | endless
deriving DecidableEq

/-- Whether the build checks arithmetic for overflow, and what `sort_unstable_by_key` does. -/
structure Build where
  overflowChecks : Bool
  sort : List SourceRead → List SourceRead
  sort_perm : ∀ reads, (sort reads).Perm reads
  sort_sorted : ∀ reads, (sort reads).Pairwise fun a b => a.sourceOffset ≤ b.sourceOffset

abbrev Patcher := Prog Context Panic Error

def FitsI64 (x : Int) : Prop := -2 ^ 63 ≤ x ∧ x < 2 ^ 63

instance (x : Int) : Decidable (FitsI64 x) := inferInstanceAs (Decidable (_ ∧ _))

section Arithmetic

variable (B : Build)

def addI64 (a b : Int) : Patcher Int := do
  require .overflow !(B.overflowChecks && !decide (FitsI64 (a + b)))
  return asI64 (asU64 (a + b))

def addU64 (a b : Nat) : Patcher Nat := do
  require .overflow !(B.overflowChecks && decide (2 ^ 64 ≤ a + b))
  return (a + b) % 2 ^ 64

def subU64 (a b : Nat) : Patcher Nat := do
  require .overflow !(B.overflowChecks && decide (a < b))
  return (2 ^ 64 + a - b) % 2 ^ 64

end Arithmetic

/-! ## 3. Streams -/

/-- `read_exact` on the decompressed delta. -/
def readDelta (len : Nat) : Patcher Bytes := do
  let m ← get
  match ByteStream.readExact len m.delta with
  | some (bytes, rest) => do
    modify fun m => { m with delta := rest }
    return bytes
  | none => throw .unexpectedEof

def readExtra (len : Nat) : Patcher Bytes := do
  let m ← get
  match ByteStream.readExact len m.extra with
  | some (bytes, rest) => do
    modify fun m => { m with extra := rest }
    return bytes
  | none => throw .unexpectedEof

/-- A seek and a `read_exact`. -/
def readSource (offset len : Nat) : Patcher Bytes := do
  let m ← get
  if offset + len ≤ m.source.length then return slice m.source offset len
  else throw .unexpectedEof

/-- `self.buf[offset..][..bytes.len()]` is replaced. -/
def writeBuf (offset : Nat) (bytes : Bytes) : Patcher Unit := do
  let m ← get
  require .slice (offset + bytes.length ≤ m.buf.length)
  modify fun m => { m with buf := splice m.buf offset bytes }

/-- `None` at the end of the records. -/
def nextControl : Patcher (Option Control) := do
  let m ← get
  match m.ctrls with
  | [] => return none
  | _ =>
    match ByteStream.readExact 24 m.ctrls with
    | some (ctl, rest) => do
      modify fun m => { m with ctrls := rest }
      return some (Control.decode ctl)
    | none => throw .unexpectedEof

/-! ## 4. A batch -/

/-- `self.pending.take()`, or the next record. -/
def takeControl : Patcher (Option Control) := do
  let m ← get
  match m.pending with
  | some ctrl => do
    modify fun m => { m with pending := none }
    return some ctrl
  | none => nextControl

section Batch

variable (B : Build)

/-- The source bytes that a record adds to, as far as they fit. -/
def planAdd (add : Nat) (batch : Batch) : Patcher Batch := do
  if 0 < add then
    let m ← get
    let pos ← addI64 B m.sourcePos add
    modify fun m => { m with sourcePos := pos }
    return { batch with
      reads := batch.reads ++ [⟨asU64 m.sourcePos, batch.used, add⟩]
      used := batch.used + add }
  else return batch

/-- The loop of `plan`, with the rounds that are left. -/
def planRounds : Nat → Batch → Patcher Batch
  | 0, _ => panic .endless
  | rounds + 1, batch => do
    let m ← get
    if batch.used < m.buf.length then
      let next ← takeControl
      match next with
      | none => return batch
      | some ctrl => do
        let add := min ctrl.add (m.buf.length - batch.used)
        let added ← planAdd B add batch
        let copy := min ctrl.copy (m.buf.length - added.used)
        let laid : Batch :=
          { added with
            used := added.used + copy
            segments := if 0 < add ∨ 0 < copy then added.segments ++ [(add, copy)]
              else added.segments }
        if add < ctrl.add ∨ copy < ctrl.copy then
          modify fun m =>
            { m with pending := some ⟨ctrl.add - add, ctrl.copy - copy, ctrl.seek⟩ }
          return laid
        else
          let moved ← get
          let pos ← addI64 B moved.sourcePos ctrl.seek
          modify fun m => { m with sourcePos := pos }
          planRounds rounds laid
    else return batch

def plan : Patcher Batch := do
  let m ← get
  planRounds B (m.ctrls.length + 2) ⟨[], [], 0⟩

/-- The loop that extends a run. -/
def extendRun (scratchLen : Nat) (first : SourceRead) : Nat → List SourceRead → Patcher Run
  | runEnd, [] => return ⟨runEnd, [], []⟩
  | runEnd, candidate :: rest => do
    let candidateEnd ← addU64 B candidate.sourceOffset candidate.len
    let newEnd := max runEnd candidateEnd
    let reach ← addU64 B runEnd coalesceGap
    if reach < candidate.sourceOffset then return ⟨runEnd, [], candidate :: rest⟩
    else
      let len ← subU64 B newEnd first.sourceOffset
      if scratchLen < len then return ⟨runEnd, [], candidate :: rest⟩
      else
        let run ← extendRun scratchLen first newEnd rest
        return { run with taken := candidate :: run.taken }

/-- A read of a run lands where it belongs. -/
def scatter (first : SourceRead) (read : SourceRead) : Patcher Unit := do
  let start ← subU64 B read.sourceOffset first.sourceOffset
  let m ← get
  require .slice (start + read.len ≤ m.scratch.length)
  writeBuf read.bufferOffset (slice m.scratch start read.len)

/-- A run is read, and what merged is scattered. -/
def readRun (first : SourceRead) (run : Run) : Patcher Unit := do
  if run.taken = [] then
    let bytes ← readSource first.sourceOffset first.len
    writeBuf first.bufferOffset bytes
  else
    let len ← subU64 B run.runEnd first.sourceOffset
    let m ← get
    require .slice (len ≤ m.scratch.length)
    let bytes ← readSource first.sourceOffset len
    modify fun m => { m with scratch := splice m.scratch 0 bytes }
    forEach (first :: run.taken) (scatter B first)

/-- The loop of `gather`, with the rounds that are left. -/
def gatherRounds : Nat → List SourceRead → Patcher Unit
  | _, [] => return ()
  | 0, _ :: _ => panic .endless
  | rounds + 1, first :: rest => do
    let firstEnd ← addU64 B first.sourceOffset first.len
    let m ← get
    let run ← extendRun B m.scratch.length first firstEnd rest
    readRun B first run
    gatherRounds rounds run.left

def gather (reads : List SourceRead) : Patcher Unit := gatherRounds B reads.length (B.sort reads)

end Batch

/-- `wrapping_add`, byte by byte. -/
def addBytes (xs ys : Bytes) : Bytes := List.zipWith (· + ·) xs ys

/-- The delta is added a cacheful at a time. -/
def overlayAdd (dlt : Nat) : Nat → Nat → Nat → Patcher Unit
  | _, _, 0 => return ()
  | 0, _, _ + 1 => panic .endless
  | rounds + 1, offset, remaining => do
    let len := min remaining dlt
    let bytes ← readDelta len
    let m ← get
    require .slice (offset + len ≤ m.buf.length)
    writeBuf offset (addBytes (slice m.buf offset len) bytes)
    overlayAdd dlt rounds (offset + len) (remaining - len)

def overlayFrom : Nat → List (Nat × Nat) → Patcher Unit
  | _, [] => return ()
  | offset, (add, copy) :: segments => do
    let m ← get
    overlayAdd m.dlt add offset add
    let bytes ← readExtra copy
    writeBuf (offset + add) bytes
    overlayFrom (offset + add + copy) segments

def overlay (segments : List (Nat × Nat)) : Patcher Unit := overlayFrom 0 segments

/-! ## 5. The whole patch -/

/-- The loop of `apply`, with the rounds that are left. -/
def applyRounds (B : Build) : Nat → Patcher Nat
  | 0 => panic .endless
  | rounds + 1 => do
    let batch ← plan B
    if batch.used = 0 then
      let m ← get
      return m.total
    else
      gather B batch.reads
      overlay batch.segments
      modify fun m => { m with target := m.target ++ m.buf.take batch.used }
      let m ← get
      let total ← addU64 B m.total batch.used
      modify fun m => { m with total := total }
      applyRounds B rounds

/-- What a patch is applied to, and how. -/
structure Input where
  source : Bytes
  ctrls : Bytes
  delta : Bytes
  extra : Bytes
  bufferSize : Nat
  deltaMin : Nat
  scratch : Bytes
  /-- Neither a slice nor a file nor an allocation reaches `2 ^ 63` bytes. -/
  source_short : source.length < 2 ^ 63
  buffer_short : bufferSize < 2 ^ 63

/-- `buffer_size` and `delta_min` of the builder. -/
def atLeast128 (size : Nat) : Nat := if size < 128 then 128 else size

def Input.context (input : Input) : Context where
  source := input.source
  target := []
  ctrls := input.ctrls
  delta := input.delta
  extra := input.extra
  buf := List.replicate (atLeast128 input.bufferSize) 0
  dlt := min (atLeast128 input.deltaMin) (atLeast128 input.bufferSize)
  scratch := input.scratch
  pending := none
  sourcePos := 0
  total := 0

def apply (B : Build) (input : Input) : Outcome Panic Error Nat × Context :=
  applyRounds B (input.delta.length + input.extra.length + 1) input.context

end Qbsdiff
