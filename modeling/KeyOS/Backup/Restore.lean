import KeyOS.Update.FirmwareSwap

/-!
# Restoring a backup

A backup is extracted to `appdata-restore-temp`. Then the current `appdata` is moved aside to
`appdata-old`, the extracted one is moved into its place, and the old one is removed. A
rename is one step of the device; a recursive removal is one step for each entry.
-/

namespace Backup

open Exec Interrupt Interruptible
open Update (Bytes Dir FsError Fault check recursivelyRemoveContents)

/-! ## 1. The encrypted root -/

inductive Node where
  | file (data : Bytes)
  | dir (contents : Dir)
deriving DecidableEq, Repr

def Node.contents : Node → Dir
  | .file _ => .nil
  | .dir contents => contents

inductive RootName where
  | appdata
  | appdataOld
  | appdataRestoreTemp
deriving DecidableEq, Repr

/-- What is at each of the paths that a restore uses. -/
abbrev Root := RootName → Option Node

/-- `backup::Error` -/
inductive Error where
  | invalidBackupFile
  | accessDenied
  | fs (e : FsError)
  | io (message : String)
deriving DecidableEq, Repr

structure BackupMetadata where
  createdAt : Nat
  deviceName : Option String
deriving DecidableEq, Repr

abbrev RootM := Interruptible Root Fault FsError

/-! ## 2. Requests to the file server -/

def openDir (name : RootName) : RootM Dir :=
  probe Subtype.val fun v => match v name with
    | some (.dir contents) => .ok contents
    | some (.file _) => .error .notADirectory
    | none => .error .fileNotFound

/-- Run `x` on the contents of a directory. -/
def inDir {ε α : Type} (name : RootName) (x : Interruptible Dir Fault ε α) :
    Interruptible Root Fault ε α :=
  within (fun v => ((v name).map Node.contents).getD .nil)
    (fun d v => Function.update v name (some (.dir d))) x

/-- `Dir::remove`. A directory must be empty. -/
def removeEntry (name : RootName) : RootM Unit :=
  step Subtype.val fun v => match v name with
    | none => .error .fileNotFound
    | some (.file _) => .ok ((), Function.update v name none)
    | some (.dir .nil) => .ok ((), Function.update v name none)
    | some (.dir _) => .error .io

def removeRecursive (name : RootName) : RootM Unit := do
  let opened ← attempt (openDir name)
  match opened with
  | .ok contents => do
    inDir name (recursivelyRemoveContents contents)
    removeEntry name
  | .error (_ : FsError) => removeEntry name

/-- The `Remove` request: access check, removal, flush. -/
def remove (name : RootName) : RootM Unit := do
  check
  removeRecursive name
  check

def removeIfExists (name : RootName) : RootM Unit := do
  let removed ← attempt (remove name)
  match removed with
  | .ok () => pure ()
  | .error .fileNotFound => pure ()
  | .error e => throw e

/-- A directory that exists is opened. -/
def createDir (name : RootName) : RootM Unit :=
  step Subtype.val fun v => match v name with
    | none => .ok ((), Function.update v name (some (.dir .nil)))
    | some (.dir _) => .ok ((), v)
    | some (.file _) => .error .notADirectory

def rename (source target : RootName) : RootM Unit :=
  step Subtype.val fun v => match v source with
    | none => .error .fileNotFound
    | some node =>
      if source = target then .ok ((), v)
      else if (v target).isSome then .error .fileAlreadyExists
      else .ok ((), Function.update (Function.update v source none) target (some node))

/-- Names are compared without case. -/
def sameName (a b : String) : Bool := a.toUpper == b.toUpper

/-- The first entry of that name, and the directory without it. -/
def takeEntry (name : String) : Dir → Option (Node × Dir)
  | .nil => none
  | .file n data rest =>
    if sameName n name then some (.file data, rest)
    else (takeEntry name rest).map fun found => (found.1, .file n data found.2)
  | .dir n contents rest =>
    if sameName n name then some (.dir contents, rest)
    else (takeEntry name rest).map fun found => (found.1, .dir n contents found.2)

/-- What has been extracted as `appdata`. -/
def extracted (v : Root) : Option (Node × Dir) :=
  match v .appdataRestoreTemp with
  | some (.dir contents) => takeEntry "appdata" contents
  | _ => none

/-- The renaming of `appdata-restore-temp/appdata` to `appdata`. -/
def renameExtracted : RootM Unit :=
  step Subtype.val fun v => match extracted v with
    | none => .error .fileNotFound
    | some (node, rest) =>
      if (v .appdata).isSome then .error .fileAlreadyExists
      else .ok ((), Function.update (Function.update v .appdataRestoreTemp (some (.dir rest)))
        .appdata (some node))

/-! ## 3. The restore -/

/-- A backup file, as the restore sees it: whether it can be opened, hashed and its format
told, and what its extraction does, which writes below `appdata-restore-temp` only. -/
structure BackupFile (κ : Type) where
  detect : Except Error Unit
  extract : κ → Interruptible Dir Fault Error BackupMetadata

variable {κ : Type}

/-- Up to the moment at which `appdata` is moved aside. -/
def prepare (key : Except Error κ) (backup : BackupFile κ) : Interruptible Root Fault Error κ := do
  let key ← probe (fun f => .fs f.1) fun _ => key
  probe (fun f => .fs f.1) fun _ => backup.detect
  mapErr .fs (removeIfExists .appdataRestoreTemp)
  mapErr .fs (createDir .appdataRestoreTemp)
  pure key

def moveAside : RootM Unit := do
  removeIfExists .appdataOld
  rename .appdata .appdataOld

/-- The extracted `appdata` takes the place of the old one, with a deferred rollback. -/
def moveIn : RootM Unit := onError renameExtracted (rename .appdataOld .appdata)

def extractAndSwap (backup : BackupFile κ) (key : κ) :
    Interruptible Root Fault Error BackupMetadata := do
  let metadata ← inDir .appdataRestoreTemp (backup.extract key)
  mapErr .fs moveAside
  mapErr .fs moveIn
  let _ : Except FsError Unit ← attempt (remove .appdataOld)
  pure metadata

/-- `restore_backup_internal` with the key of the server. -/
def restoreBackup (key : Except Error κ) (backup : BackupFile κ) :
    Interruptible Root Fault Error BackupMetadata := do
  let key ← prepare key backup
  ensuring (extractAndSwap backup key) (remove .appdataRestoreTemp)

/-! ## 4. Attempts -/

/-- A call of `restore_backup`, with the fates of its steps. -/
structure Attempt (κ : Type) where
  key : Except Error κ
  backup : BackupFile κ
  fates : Nat → Fate Fault

namespace Attempt

def run (a : Attempt κ) (v : Root) : Outcome Empty (Stop Error) BackupMetadata × Root :=
  let (outcome, device) := restoreBackup a.key a.backup ⟨v, a.fates⟩
  (outcome, device.contents)

/-- What a complete extraction of the backup puts in place of `appdata`. -/
def Restored (a : Attempt κ) (node : Node) : Prop :=
  ∃ key fates metadata contents fates' rest,
    a.backup.extract key ⟨.nil, fates⟩ = (.ok metadata, ⟨contents, fates'⟩) ∧
    takeEntry "appdata" contents = some (node, rest)

/-- While `appdata` is moved aside: the power does not go before the extracted one is moved
in, and when that fails the rollback succeeds. -/
def SwapSafe (d : Device Root Fault) : Prop :=
  d.fates 0 ≠ .powerLoss ∧
    ((∃ f, d.fates 0 = .fault f) ∨ extracted d.contents = none → d.fates 1 = .done)

/-- The condition on an attempt. -/
def Careful (a : Attempt κ) (v : Root) : Prop :=
  Prog.Yields (do
      let key ← prepare a.key a.backup
      let _ ← inDir .appdataRestoreTemp (a.backup.extract key)
      mapErr .fs moveAside)
    (fun _ => SwapSafe) ⟨v, a.fates⟩

end Attempt

/-- Attempts from `v`, each of which satisfies `C` in the state that it finds. -/
inductive Attempts (C : Attempt κ → Root → Prop) : Root → List (Attempt κ) → Root → Prop where
  | nil (v : Root) : Attempts C v [] v
  | cons {v v' : Root} {a : Attempt κ} {as : List (Attempt κ)} (hC : C a v)
      (rest : Attempts C (a.run v).2 as v') : Attempts C v (a :: as) v'

end Backup
