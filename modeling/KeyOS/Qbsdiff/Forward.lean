import KeyOS.Lib.WeightedChains
import KeyOS.Qbsdiff.Batches

/-!
# Forward-only patches

The matcher's records are cut into pieces of source bytes. The encoder keeps a chain of pieces
whose source ranges move forward without overlap, and makes literals of all the other bytes.
-/

namespace Qbsdiff.Forward

open Slices WeightedChains

inductive Panic where
  | overflow
  | sourceOutsideFile
  | wrongControlTargetSize
  | nonmonotonicPlan
  | unwrap
  | slice
  /-- Not of the source: a loop has not ended in its rounds. -/
  | endless
deriving DecidableEq

def require (p : Panic) (c : Prop) [Decidable c] : Except Panic Unit :=
  if c then .ok () else .error p

/-! ## 1. Pieces -/

structure Match where
  source : Nat
  target : Nat
  len : Nat
deriving DecidableEq

/-- The loop that cuts the source bytes of a record into pieces of at most 256 bytes. -/
def cutPieces (source target add offset : Nat) : List Match :=
  if offset < add then
    ⟨source + offset, target + offset, min (add - offset) 256⟩ ::
      cutPieces source target add (offset + min (add - offset) 256)
  else []
termination_by add - offset

/-- What has been collected, and where the records stand. -/
structure Collected where
  pieces : List Match
  source : Int
  target : Nat

section Collect

-- Whether the build checks arithmetic for overflow.
variable (overflowChecks : Bool)

def addI64 (a b : Int) : Except Panic Int := do
  require .overflow (overflowChecks = true → FitsI64 (a + b))
  return asI64 (asU64 (a + b))

def addUsize (a b : Nat) : Except Panic Nat := do
  require .overflow (overflowChecks = true → a + b < 2 ^ 64)
  return (a + b) % 2 ^ 64

/-- The pieces of a record. -/
def piecesOf (old : Bytes) (s : Collected) (add : Nat) : Except Panic (List Match) :=
  if 0 < add then do
    require .sourceOutsideFile (0 ≤ s.source)
    let last ← addUsize overflowChecks (asU64 s.source) add
    require .sourceOutsideFile (last ≤ old.length)
    return cutPieces (asU64 s.source) s.target add 0
  else .ok []

def collect (old : Bytes) (s : Collected) (control : Control) : Except Panic Collected := do
  let pieces ← piecesOf overflowChecks old s control.add
  let len ← addUsize overflowChecks control.add control.copy
  let target ← addUsize overflowChecks s.target len
  let moved ← addI64 overflowChecks (asI64 control.add) control.seek
  let source ← addI64 overflowChecks s.source moved
  return ⟨s.pieces ++ pieces, source, target⟩

end Collect

/-! ## 2. The plan -/

/-- A score: the length of a chain, and its last piece; `usize::MAX` is `none`. -/
abbrev Score : Type := Nat × Option Nat

structure Plan where
  /-- source endpoints map to improving chain scores -/
  chains : SortedMap Nat Score
  previous : List (Option Nat)
  winner : Score

def Plan.start (pieces : List Match) : Plan where
  chains := SortedMap.empty.insert 0 (0, none)
  previous := List.replicate pieces.length none
  winner := (0, none)

/-- `chains.range(..=end).next_back().unwrap().1` -/
def scoreBy (chains : SortedMap Nat Score) (x : Nat) : Except Panic Score :=
  match chains.lastUpTo x with
  | some (_, score) => .ok score
  | none => .error .unwrap

/-- A better chain ending earlier makes later endpoints redundant. -/
def improve (chains : SortedMap Nat Score) (x : Nat) (score : Score) :
    Except Panic (SortedMap Nat Score) := do
  let best ← scoreBy chains x
  if score.1 ≤ best.1 then return chains
  else return (prune chains x score.1).insert x score

/-- One round of the loop; the sums stay in the old file and below the length of the new one. -/
def consider (p : Plan) (i : Nat) (r : Match) : Except Panic Plan := do
  let prior ← scoreBy p.chains r.source
  let score := (prior.1 + r.len, some i)
  let chains ← improve p.chains (r.source + r.len) score
  return {
    chains := chains
    previous := p.previous.set i prior.2
    winner := if p.winner.1 < score.1 then score else p.winner }

def considerFrom : Nat → List Match → Plan → Except Panic Plan
  | _, [], p => .ok p
  | i, r :: rest, p => do
    let next ← consider p i r
    considerFrom (i + 1) rest next

def index {α : Type} (xs : List α) (i : Nat) : Except Panic α :=
  match xs[i]? with
  | some x => .ok x
  | none => .error .slice

/-- The loop from the winner back, with the rounds that are left. -/
def follow (previous : List (Option Nat)) : Nat → Option Nat → Except Panic (List Nat)
  | _, none => .ok []
  | 0, some _ => .error .endless
  | rounds + 1, some i => do
    let before ← index previous i
    let selected ← follow previous rounds before
    return i :: selected

/-- The pieces that are kept, the last one first. -/
def select (pieces : List Match) : Except Panic (List Nat) := do
  let plan ← considerFrom 0 pieces (.start pieces)
  follow plan.previous pieces.length plan.winner.2

/-! ## 3. The streams -/

structure Streams where
  ctrl : Bytes
  delta : Bytes
  extra : Bytes

structure Encoder where
  streams : Streams
  source : Nat
  target : Nat

/-- A control record. -/
def record (add copy seek : Nat) : Bytes :=
  ByteStream.le 8 add ++ ByteStream.le 8 copy ++ ByteStream.le 8 seek

/-- `wrapping_sub`, byte by byte. -/
def subBytes (xs ys : Bytes) : Bytes := List.zipWith (· - ·) xs ys

section Encode

variable (old new : Bytes)

/-- A piece, and the bytes before it. -/
def emit (s : Encoder) (r : Match) : Except Panic Encoder := do
  require .nonmonotonicPlan (s.source ≤ r.source ∧ s.target ≤ r.target)
  let gap := r.target - s.target
  require .slice (r.target ≤ new.length)
  require .slice (r.target + r.len ≤ new.length ∧ r.source + r.len ≤ old.length)
  return {
    streams := {
      ctrl := s.streams.ctrl ++ (record 0 gap (r.source - s.source) ++ record r.len 0 0)
      extra := s.streams.extra ++ slice new s.target gap
      delta := s.streams.delta ++ subBytes (slice new r.target r.len) (slice old r.source r.len) }
    source := r.source + r.len
    target := r.target + r.len }

/-- The bytes behind the last piece. -/
def finish (s : Encoder) : Except Panic Streams := do
  require .slice (s.target ≤ new.length)
  return {
    ctrl := s.streams.ctrl ++ record 0 (new.length - s.target) 0
    extra := s.streams.extra ++ new.drop s.target
    delta := s.streams.delta }

def encode (pieces : List Match) (selected : List Nat) : Except Panic Streams := do
  let emitted ← selected.reverse.foldlM (fun s i => do emit old new s (← index pieces i))
    ⟨⟨[], [], []⟩, 0, 0⟩
  finish new emitted

end Encode

/-- The streams before they are compressed, with the pieces they were made of and those kept. -/
structure Built where
  pieces : List Match
  selected : List Nat
  streams : Streams

/-- `build`, up to the compression. -/
def build (overflowChecks : Bool) (old new : Bytes) (controls : List Control) :
    Except Panic Built := do
  let collected ← controls.foldlM (collect overflowChecks old) ⟨[], 0, 0⟩
  require .wrongControlTargetSize (collected.target = new.length)
  let selected ← select collected.pieces
  let streams ← encode old new collected.pieces selected
  return ⟨collected.pieces, selected, streams⟩

/-! ## 4. The check of what was built -/

/-- The old file and the new one; no slice reaches `2 ^ 63` bytes. -/
structure Files where
  old : Bytes
  new : Bytes
  old_short : old.length < 2 ^ 63
  new_short : new.length < 2 ^ 63

/-- `super::apply`, with the streams as they come out of the decompression. -/
def Streams.input (files : Files) (s : Streams) : Input where
  source := files.old
  ctrls := s.ctrl
  delta := s.delta
  extra := s.extra
  bufferSize := 2 * 1024 * 1024
  deltaMin := 32768
  scratch := List.replicate 65536 0
  source_short := files.old_short
  buffer_short := by decide

/-- Where `gather` seeks, and how much it reads there. -/
def gatherSeeks (scratchLen : Nat) : List SourceRead → List (Nat × Nat)
  | [] => []
  | first :: rest =>
    (first.sourceOffset,
        (extend scratchLen first first.sourceEnd rest).runEnd - first.sourceOffset) ::
      gatherSeeks scratchLen (extend scratchLen first first.sourceEnd rest).left
termination_by reads => reads.length
decreasing_by exact Nat.lt_succ_of_le length_extend_left

/-- The seeks of all the batches that the records come to. -/
def applySeeks (sort : List SourceRead → List SourceRead) (scratchLen bufLen : Nat)
    (cs : List Control) (pos : Int) : List (Nat × Nat) :=
  if 0 < total (cut bufLen cs).1 then
    gatherSeeks scratchLen (sort (readsOf (cut bufLen cs).1 pos 0)) ++
      applySeeks sort scratchLen bufLen (cut bufLen cs).2 (posAfter (cut bufLen cs).1 pos)
  else []
termination_by total cs
decreasing_by
  have hcut := @total_cut cs bufLen
  omega

/-- What the check's source notes of the reads. -/
structure Source where
  readEnd : Nat
  reads : Nat
deriving DecidableEq

inductive VerifyError where
  | backwardRead
  | apply (e : Error)
  | wrongDecodedBytes

/-- A seek, and the read that follows it. -/
def Source.read (s : Source) (seek : Nat × Nat) : Except VerifyError Source :=
  if seek.1 < s.readEnd then .error .backwardRead else .ok ⟨seek.1 + seek.2, s.reads + 1⟩

/-- `verify`: the seeks of the run as its source sees them, and what the run makes. -/
def verify (B : Build) (files : Files) (s : Streams) :
    Exec.Outcome Qbsdiff.Panic VerifyError Nat :=
  let input := s.input files
  let seeks := applySeeks B.sort input.scratch.length (atLeast128 input.bufferSize)
    (controls input.ctrls) 0
  match seeks.foldlM Source.read ⟨0, 0⟩ with
  | .error e => .err e
  | .ok source =>
    match apply B input with
    | (.ok _, m) => if m.target = files.new then .ok source.reads else .err .wrongDecodedBytes
    | (.err e, _) => .err (.apply e)
    | (.panic p, _) => .panic p

end Qbsdiff.Forward
