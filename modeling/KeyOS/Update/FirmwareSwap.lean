import KeyOS.Lib.Interrupt

/-!
# The firmware swap

An update is staged in `keyos.update`. The update server swaps it into place with
`finalize_update`; after a reset the file server repairs what is left of an interrupted
swap with `fixup_interrupted_update`; before either of them the bootloader picks the
image to start. A rename is one step of the device. A recursive removal is one step for
each entry, so it stops after any prefix of its deletions.
-/

namespace Update

open Exec Interrupt Interruptible

/-! ## 1. The system volume -/

abbrev Bytes := List UInt8

/-- A directory, as its entries in the order of the iterator. -/
inductive Dir where
  | nil
  | file (name : String) (data : Bytes) (rest : Dir)
  | dir (name : String) (contents rest : Dir)
deriving DecidableEq, Repr

namespace Dir

def file? (name : String) : Dir → Option Bytes
  | nil => none
  | file n data rest => if n = name then some data else rest.file? name
  | dir n _ rest => if n = name then none else rest.file? name

/-- The contents of the first entry, as a directory. -/
def firstContents : Dir → Dir
  | dir _ contents _ => contents
  | _ => nil

def putFirst (contents : Dir) : Dir → Dir
  | dir name _ rest => dir name contents rest
  | d => d

end Dir

/-- The directories of the system volume that take part in a swap. -/
inductive TopDir where
  | keyos
  | keyosUpdate
  | keyosOld
deriving DecidableEq, Repr

abbrev Volume := TopDir → Option Dir

inductive FsError where
  | io
  | fileNotOpen
  | invalidBufferLength
  | invalidPath
  | invalidOperation
  | fileNotFound
  | fileAlreadyExists
  | fileInUse
  | notADirectory
  | noMedia
  | outOfMemory
  | accessDenied
  | internalError
deriving DecidableEq, Repr

/-- A failure of the device or of a check on the caller. None of them says that an entry is
missing. -/
abbrev Fault := { e : FsError // e ≠ .fileNotFound }

inductive Error where
  | fs (e : FsError)
  | unexpected (message : String)
  | noUpdateDownloaded
  | insufficientBattery
  | unexpectedVersionAfterReboot (expected actual : String)
deriving DecidableEq, Repr

/-! ## 2. The file system -/

/-- `Dir::remove` of the first entry. A directory must be empty. -/
def Dir.removeFirst : Dir → Except FsError (Unit × Dir)
  | .nil => .error .fileNotFound
  | .file _ _ rest => .ok ((), rest)
  | .dir _ .nil rest => .ok ((), rest)
  | .dir _ _ _ => .error .io

/-- Access checks and reads, whose value the code does not use. -/
def check {σ : Type} : Interruptible σ Fault FsError Unit :=
  probe Subtype.val fun _ => .ok ()

def recursivelyRemoveContents : Dir → Interruptible Dir Fault FsError Unit
  | .nil => check
  | .file _ _ rest => do
    check
    step Subtype.val Dir.removeFirst
    recursivelyRemoveContents rest
  | .dir _ contents rest => do
    check
    within Dir.firstContents Dir.putFirst (recursivelyRemoveContents contents)
    step Subtype.val Dir.removeFirst
    recursivelyRemoveContents rest

def openDir (name : TopDir) : Interruptible Volume Fault FsError Dir :=
  probe Subtype.val fun v => match v name with
    | some d => .ok d
    | none => .error .fileNotFound

/-- `recursively_remove_contents` of an open directory of the volume. -/
def removeContentsOf (name : TopDir) (d : Dir) : Interruptible Volume Fault FsError Unit :=
  within (fun v => (v name).getD .nil) (fun d v => Function.update v name (some d))
    (recursivelyRemoveContents d)

/-- `Dir::remove` of a directory of the volume. -/
def removeDir (name : TopDir) : Interruptible Volume Fault FsError Unit :=
  step Subtype.val fun v => match v name with
    | none => .error .fileNotFound
    | some .nil => .ok ((), Function.update v name none)
    | some _ => .error .io

/-- `Dir::rename`. That the destination exists is an error without a kind of its own. -/
def renameDir (source target : TopDir) : Interruptible Volume Fault FsError Unit :=
  step Subtype.val fun v => match v source with
    | none => .error .fileNotFound
    | some d =>
      if source = target then .ok ((), v)
      else if (v target).isSome then .error .io
      else .ok ((), Function.update (Function.update v source none) target (some d))

/-- `flush_fs` -/
def flush : Interruptible Volume Fault FsError Unit := check

/-- The `Rename` request. -/
def rename (source target : TopDir) : Interruptible Volume Fault FsError Unit := do
  check
  renameDir source target
  flush

def removeRecursive (name : TopDir) : Interruptible Volume Fault FsError Unit := do
  let opened ← attempt (openDir name)
  match opened with
  | .ok d => do
    removeContentsOf name d
    removeDir name
  | .error (_ : FsError) => removeDir name

/-- The `Remove` request. -/
def remove (name : TopDir) : Interruptible Volume Fault FsError Unit := do
  check
  removeRecursive name
  flush

/-! ## 3. The swap -/

def pathExists (name : TopDir) : Interruptible Volume Fault Error Bool := do
  let found ← attempt (openDir name)
  match found with
  | .ok _ => pure true
  | .error .fileNotFound => pure false
  | .error e => throw (.fs e)

/-- `finalize_update`, once it knows which of the three directories exist. -/
def swapDirs (keyosExists updateExists oldExists : Bool) :
    Interruptible Volume Fault Error Unit := do
  Prog.onlyIf (!keyosExists && !updateExists)
    (throw (.unexpected "firmware swap has no current or staged firmware"))
  Prog.onlyIf (keyosExists && updateExists) do
    Prog.onlyIf oldExists
      (throw (.unexpected "firmware swap already has an old firmware directory"))
    mapErr .fs (rename .keyos .keyosOld)
  Prog.onlyIf updateExists (mapErr .fs (rename .keyosUpdate .keyos))
  Prog.onlyIf (oldExists || (keyosExists && updateExists)) (mapErr .fs (remove .keyosOld))

/-- Swaps the staged firmware into place and removes the old one. -/
def finalizeUpdate : Interruptible Volume Fault Error Unit := do
  mapErr .fs flush
  let keyosExists ← pathExists .keyos
  let updateExists ← pathExists .keyosUpdate
  let oldExists ← pathExists .keyosOld
  swapDirs keyosExists updateExists oldExists

/-! ## 4. After a reset -/

/-- What the fix-up writes to the log. -/
inductive FixupLog where
  | keyosNotFound
  | removingContents (e : FsError)
  | removing (e : FsError)
deriving DecidableEq, Repr

def recoverKeyos : Interruptible Volume Fault FsError (List FixupLog) := do
  let opened ← attempt (openDir .keyos)
  match opened with
  | .ok _ => pure []
  | .error (_ : FsError) => do
    let renamed ← attempt (renameDir .keyosUpdate .keyos)
    match renamed with
    | .error (_ : FsError) =>
      halt "\"keyos\" directory not found, and renaming from \"keyos.update\" also failed"
    | .ok () => do
      let _ : Except FsError Unit ← attempt flush
      pure [.keyosNotFound]

def removeOld : Interruptible Volume Fault FsError (List FixupLog) := do
  let opened ← attempt (openDir .keyosOld)
  match opened with
  | .error (_ : FsError) => pure []
  | .ok old => do
    let emptied ← attempt (removeContentsOf .keyosOld old)
    match emptied with
    | .error e => pure [.removingContents e]
    | .ok () => do
      let removed ← attempt (removeDir .keyosOld)
      let _ : Except FsError Unit ← attempt flush
      match removed with
      | .error e => pure [.removing e]
      | .ok () => pure []

def fixupInterruptedUpdate : Interruptible Volume Fault FsError (List FixupLog) := do
  let recovered ← recoverKeyos
  let removed ← removeOld
  pure (recovered ++ removed)

section Bootloader

variable {ν : Type} (readVersion : Bytes → Option ν)

/-- The version that the bootloader reads from the header of `app.bin`. -/
def osVersion (v : Volume) (name : TopDir) : Option ν :=
  match v name with
  | none => none
  | some d => (d.file? "app.bin").bind readVersion

/-- The directory whose image the bootloader loads: `keyos`, or `keyos.update` if that has
no readable header. -/
def selectedImage (v : Volume) : TopDir :=
  match osVersion readVersion v .keyos with
  | some _ => .keyos
  | none => .keyosUpdate

/-- A firmware tree that the bootloader can start. -/
def Bootable (d : Dir) : Prop :=
  ∃ data version, d.file? "app.bin" = some data ∧ readVersion data = some version

end Bootloader

end Update
