import KeyOS.Update.Downloader

/-!
# Durable files

A durable file is kept under three names, so that a crash at any point of a write leaves a
reader either the old contents or the new ones. `staged` exists only as a whole file;
`scratch` may be a half-written one; `path` is missing only between its removal and the
renaming of the staged copy over it.
-/

namespace Storage

open Exec Interrupt Interruptible
open Update (Bytes FsError Fault overwrite)

/-! ## 1. The names of a file -/

inductive Name where
  | path
  | scratch
  | staged
deriving DecidableEq, Repr

/-- What exists under each name. -/
abbrev Names := Name → Option Bytes

/-- A request to the file server about the file, under its names. -/
abbrev FileM := Interruptible Names Fault FsError

namespace Names

/-- Without overwrite. -/
def rename (source target : Name) : FileM Unit :=
  step Subtype.val fun v => match v source with
    | none => .error .fileNotFound
    | some data =>
      if (v target).isSome then .error .fileAlreadyExists
      else .ok ((), Function.update (Function.update v source none) target (some data))

def remove (name : Name) : FileM Unit :=
  step Subtype.val fun v => match v name with
    | none => .error .fileNotFound
    | some _ => .ok ((), Function.update v name none)

/-- `open_file` with `CREATE`, which leaves what exists as it is. -/
def create (name : Name) : FileM Unit :=
  step Subtype.val fun v => .ok ((), Function.update v name (some ((v name).getD [])))

/-- `open_file` with `READ_ONLY` -/
def openFile (name : Name) : FileM Unit :=
  probe Subtype.val fun v => match v name with
    | none => .error .fileNotFound
    | some _ => .ok ()

def readToEnd (name : Name) : FileM Bytes :=
  probe Subtype.val fun v => .ok ((v name).getD [])

/-- `WriteFile` at a position of the open file. -/
def write (name : Name) (position : Nat) (data : Bytes) : FileM Unit :=
  step Subtype.val fun v => .ok ((), Function.update v name
    ((v name).map fun content => overwrite content position data))

/-- `TruncateFile` at a position. -/
def truncate (name : Name) (position : Nat) : FileM Unit :=
  step Subtype.val fun v => .ok ((), Function.update v name ((v name).map (List.take position)))

/-- `SeekFile` and `Flush`, which leave the contents as they are. -/
def check : FileM Unit := probe Subtype.val fun _ => .ok ()

end Names

open Names

/-! ## 2. Writing and reading -/

/-- `xous::keyos::PAGE_SIZE` -/
def pageSize : Nat := 4096

/-- `FILE_BUFFER_SIZE` -/
def fileBufferSize : Nat := 64 * 512

/-- How many of `len` bytes one `write` takes. A buffer that is `aligned` to a page is lent as
it is, any other one is copied. -/
def writeLen (aligned : Bool) (len : Nat) : Nat :=
  if aligned ∧ pageSize ≤ len then min (len / pageSize * pageSize) fileBufferSize
  else min len fileBufferSize

/-- `while !buf.is_empty()`. What is left of an aligned buffer after a `write` is aligned too. -/
def writeLoop (name : Name) (aligned : Bool) : (fuel position : Nat) → Bytes → FileM Unit
  | _, _, [] => pure ()
  | 0, _, _ => pure ()
  | fuel + 1, position, data => do
    let n := writeLen aligned data.length
    write name position (data.take n)
    writeLoop name aligned fuel (position + n) (data.drop n)

/-- `write_all`; each `write` takes at least one byte. -/
def writeAll (name : Name) (aligned : Bool) (position : Nat) (data : Bytes) : FileM Unit :=
  writeLoop name aligned data.length position data

/-- `File::overwrite` -/
def overwriteFile (name : Name) (aligned : Bool) (data : Bytes) : FileM Unit := do
  check
  writeAll name aligned 0 data
  truncate name data.length

/-- Settle what a crash left staged. -/
def settle : FileM Unit := do
  let _ : Except FsError Unit ← attempt (rename .staged .path)
  let _ : Except FsError Unit ← attempt (remove .staged)
  pure ()

/-- Stage the new contents. The rename is the commit. -/
def stage (aligned : Bool) (data : Bytes) : FileM Unit := do
  create .scratch
  overwriteFile .scratch aligned data
  mapErr (fun _ => .io) check
  rename .scratch .staged

def durableFileWrite (aligned : Bool) (data : Bytes) : FileM Unit := do
  settle
  stage aligned data
  let _ : Except FsError Unit ← attempt (remove .path)
  rename .staged .path

def readFile (name : Name) : FileM Bytes := do
  openFile name
  mapErr (fun _ => .io) (readToEnd name)

def durableFileRead : FileM Bytes := do
  let result ← attempt (readFile .path)
  match result with
  | .error .fileNotFound => readFile .staged
  | .error e => throw e
  | .ok data => pure data

/-! ## 3. A register of generations -/

/-- What the callers see of one operation. -/
inductive Event where
  | wrote (data : Bytes) (returnedOk : Bool)
  | read (result : Except (Stop FsError) Bytes)

/-- What a durable file is for. `writes` are the contents of the writes so far, `floor` is the
newest generation that a write has returned `Ok` for or that a read has returned. Generations
count from one. -/
def Durable : (writes : List Bytes) → (floor : Nat) → List Event → Prop
  | _, _, [] => True
  | writes, floor, .wrote data returnedOk :: events =>
    Durable (writes ++ [data]) (if returnedOk then writes.length + 1 else floor) events
  | writes, floor, .read (.ok data) :: events =>
    ∃ generation, floor ≤ generation ∧ 0 < generation ∧
      writes[generation - 1]? = some data ∧ Durable writes generation events
  | writes, floor, .read (.error e) :: events =>
    (e = .error .fileNotFound → floor = 0) ∧ Durable writes floor events

/-! ## 4. Histories -/

/-- One call, with the fates of the requests that it sends. -/
inductive Call where
  | write (aligned : Bool) (data : Bytes) (fates : Nat → Fate Fault)
  | read (fates : Nat → Fate Fault)

def resultOf {ε α : Type} : Outcome Empty ε α → Except ε α
  | .ok a => .ok a
  | .err e => .error e

def Call.run (v : Names) : Call → Event × Names
  | .write aligned data fates =>
    let (outcome, device) := durableFileWrite aligned data ⟨v, fates⟩
    (.wrote data (resultOf outcome).isOk, device.contents)
  | .read fates =>
    let (outcome, device) := durableFileRead ⟨v, fates⟩
    (.read (resultOf outcome), device.contents)

def events : Names → List Call → List Event
  | _, [] => []
  | v, call :: calls => (call.run v).1 :: events (call.run v).2 calls

/-- Where a crash has left only the staged copy, it is not removed after its renaming has
failed. -/
def Adopts (fates : Nat → Fate Fault) (v : Names) : Prop :=
  v .path = none → (v .staged).isSome → ∀ f, fates 0 = .fault f → fates 1 ≠ .done

/-- The condition on a call. -/
def Call.Careful (v : Names) : Call → Prop
  | .write _ _ fates => Adopts fates v
  | .read _ => True

/-- Every call of the history is careful in the state that it finds. -/
def Careful : Names → List Call → Prop
  | _, [] => True
  | v, call :: calls => call.Careful v ∧ Careful (call.run v).2 calls

end Storage
