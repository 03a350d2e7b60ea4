import KeyOS.Lib.FatTree

/-!
# Uploads of the USB debug service

`LOAD_APP_BEGIN`, `LOAD_APP_FILE_BEGIN`, `LOAD_APP_CHUNK` and `LOAD_APP_END`. A bundle is built
in a `.part` directory beside the installed one, each of its files under a `.part` name, and
`LOAD_APP_END` removes the installed bundle and renames the directory.

Names are those of the source in upper case, as the file system compares them.
-/

namespace UsbDebug

open FatTree

/-! ## 1. State -/

abbrev AppId := Vector UInt8 16

/-- `app_manager::SIDELOADED_APPS_DIR` -/
def SIDELOADED_APPS_DIR : Path := ["KEYOS".toList, "SIDELOADED-APPS".toList]

/-- `".part"` -/
def part : Name := ".PART".toList

def hexDigit (n : Nat) : Char := "0123456789ABCDEF".toList.getD n '0'

def appIdDirName (appId : AppId) : Name :=
  appId.toList.flatMap fun byte => [hexDigit (byte.toNat / 16), hexDigit (byte.toNat % 16)]

/-- `format!("{path}.part")` -/
def withPart (path : Path) : Path := path.dropLast ++ [path.getLastD [] ++ part]

structure UploadFile where
  finalPath : Path
  tempPath : Path
  /-- The open file, and how far it is written -/
  file : Path
  offset : Nat
  expectedSize : Nat
  written : Nat
deriving DecidableEq

structure UploadSession where
  appId : AppId
  appDir : Path
  stagingDir : Path
  currentFile : Option UploadFile
deriving DecidableEq

/-- The session of the service, and the files of the system partition. -/
structure State where
  upload : Option UploadSession
  tree : Tree

inductive Response where
  | ack
  | err
  | locked
deriving DecidableEq, Repr

/-! ## 2. Faults -/

/-- `gui.is_locked()` -/
inductive LockState where
  | unlocked
  | locked
  | failed
deriving DecidableEq, Repr

/-- What the other services answer while a command is handled, and how the calls of the file
system fail. -/
structure Faults where
  lockState : LockState
  developerMode : Bool
  /-- The removals when a session is aborted -/
  abortTemp : Option (Path → Bool)
  abortStaging : Option (Path → Bool)
  removeStaging : Option (Path → Bool)
  parents : Option Nat
  /-- The short names of the directories and of the files that are created or renamed -/
  dirShorts : Path → Option Name
  tempShort : Option Name
  finalShort : Option Name
  removeTemp : Option (Path → Bool)
  openFile : Option Bool
  write : Option Nat
  flush : Bool
  removeFinal : Option (Path → Bool)
  rename : Option Bool
  removeApp : Option (Path → Bool)
  renameApp : Option Bool
  refresh : Bool

/-- What is not there needs no removal. -/
def removed : Except Error Unit → Bool
  | .ok () => true
  | .error .fileNotFound => true
  | .error .io => false

/-! ## 3. Sessions -/

/-- The session is dropped, and what it has uploaded removed. -/
def abortLoadAppSession (f : Faults) (s : State) : State :=
  match s.upload with
  | none => s
  | some session =>
    match session.currentFile with
    | none => ⟨none, (s.tree.remove f.abortStaging session.stagingDir).2⟩
    | some file =>
      ⟨none, ((s.tree.remove f.abortTemp file.tempPath).2.remove f.abortStaging
        session.stagingDir).2⟩

/-- The answer of a device that is locked. -/
def lockedResponse (f : Faults) : Option Response :=
  match f.lockState with
  | .unlocked => none
  | .locked => some .locked
  | .failed => some .err

def startSession (appId : AppId) (tree : Tree) : State :=
  { upload := some {
      appId := appId
      appDir := SIDELOADED_APPS_DIR ++ [appIdDirName appId]
      stagingDir := SIDELOADED_APPS_DIR ++ [appIdDirName appId ++ part]
      currentFile := none }
    tree := tree }

def loadAppBegin (f : Faults) (appId : AppId) (s : State) : Response × State :=
  match lockedResponse f with
  | some response => (response, abortLoadAppSession f s)
  | none =>
    if f.developerMode = false then (.err, s)
    else
      let aborted := abortLoadAppSession f s
      let result :=
        aborted.tree.remove f.removeStaging (SIDELOADED_APPS_DIR ++ [appIdDirName appId ++ part])
      if removed result.1 then (.ack, startSession appId result.2)
      else (.err, { aborted with tree := result.2 })

/-- `path.split('/')` -/
def components (path : List Char) : List Name := path.splitOn '/'

def isValidUploadRelativePath (path : List Char) : Bool :=
  path != [] && path.head? != some '/' && path.getLast? != some '/' &&
    (components path).all fun name => name != [] && name != ['.'] && name != ['.', '.']

/-- The uploaded file gets its name. -/
def promote (f : Faults) (tempPath finalPath : Path) (tree : Tree) : Response × Tree :=
  let tree := (tree.remove f.removeFinal finalPath).2
  match tree.rename f.rename f.finalShort tempPath finalPath with
  | (.ok (), tree) => (.ack, tree)
  | (.error _, tree) => (.err, tree)

/-- The temporary file of an upload, opened. -/
def openTemp (f : Faults) (tempPath : Path) (tree : Tree) : Option Path × Tree :=
  match tree.ensureParentDirExists f.parents f.dirShorts tempPath with
  | (.error _, tree) => (none, tree)
  | (.ok (), tree) =>
    match tree.remove f.removeTemp tempPath with
    | (result, tree) =>
      if removed result then
        match tree.openFile f.openFile f.tempShort tempPath with
        | (.ok file, tree) => (some file, tree)
        | (.error _, tree) => (none, tree)
      else (none, tree)

def startUploadFile (f : Faults) (finalPath : Path) (expectedSize : Nat)
    (session : UploadSession) (tree : Tree) : Response × State :=
  match openTemp f (withPart finalPath) tree with
  | (none, tree) => (.err, ⟨some session, tree⟩)
  | (some file, tree) =>
    if expectedSize = 0 then
      match promote f (withPart finalPath) finalPath tree with
      | (response, tree) => (response, ⟨some session, tree⟩)
    else
      (.ack, ⟨some { session with
        currentFile := some {
          finalPath := finalPath
          tempPath := withPart finalPath
          file := file
          offset := 0
          expectedSize := expectedSize
          written := 0 } }, tree⟩)

def loadAppFileBegin (f : Faults) (filename : List Char) (expectedSize : Nat) (s : State) :
    Response × State :=
  match lockedResponse f with
  | some response => (response, abortLoadAppSession f s)
  | none =>
    if isValidUploadRelativePath filename = false then (.err, s)
    else
      match s.upload with
      | none => (.err, s)
      | some session =>
        match session.currentFile with
        | some _ => (.err, s)
        | none =>
          startUploadFile f (session.stagingDir ++ components filename) expectedSize session s.tree

/-- `u64::MAX` -/
def U64_MAX : Nat := 18446744073709551615

/-- `finish_load_app_file`: the session has no open file from here on. -/
def finishLoadAppFile (f : Faults) (session : UploadSession) (file : UploadFile) (tree : Tree) :
    Response × State :=
  if file.written ≠ file.expectedSize then (.err, ⟨some { session with currentFile := none }, tree⟩)
  else if f.flush then (.err, ⟨some { session with currentFile := none }, tree⟩)
  else
    match promote f file.tempPath file.finalPath tree with
    | (response, tree) => (response, ⟨some { session with currentFile := none }, tree⟩)

def loadAppChunk (f : Faults) (payload : Bytes) (s : State) : Response × State :=
  match lockedResponse f with
  | some response => (response, abortLoadAppSession f s)
  | none =>
    match s.upload with
    | none => (.err, s)
    | some session =>
      match session.currentFile with
      | none => (.err, s)
      | some file =>
        if file.expectedSize < min (file.written + payload.length) U64_MAX then (.err, s)
        else
          match s.tree.writeAll f.write file.file file.offset payload with
          | (.error _, tree, offset) =>
            (.err, ⟨some { session with currentFile := some { file with offset } }, tree⟩)
          | (.ok (), tree, offset) =>
            let written := min (file.written + payload.length) U64_MAX
            if written = file.expectedSize then
              finishLoadAppFile f session { file with offset, written } tree
            else
              (.ack, ⟨some { session with currentFile := some { file with offset, written } }, tree⟩)

/-- The installed bundle is removed, and the staging directory gets its name. -/
def replaceApp (f : Faults) (session : UploadSession) (tree : Tree) : Response × Tree :=
  match tree.remove f.removeApp session.appDir with
  | (result, tree) =>
    if removed result then
      match tree.rename f.renameApp f.finalShort session.stagingDir session.appDir with
      | (.error _, tree) => (.err, tree)
      | (.ok (), tree) => (if f.refresh then .err else .ack, tree)
    else (.err, tree)

def loadAppEnd (f : Faults) (s : State) : Response × State :=
  match lockedResponse f with
  | some response => (response, abortLoadAppSession f s)
  | none =>
    match s.upload with
    | none => (.err, s)
    | some session =>
      match session.currentFile with
      | some _ => (.err, s)
      | none =>
        match replaceApp f session s.tree with
        | (response, tree) => (response, ⟨none, tree⟩)

/-! ## 4. Commands -/

inductive Command where
  | loadAppBegin (appId : AppId)
  | loadAppFileBegin (filename : List Char) (size : Nat)
  | loadAppChunk (data : Bytes)
  | loadAppEnd

structure Event where
  command : Command
  faults : Faults

def dispatch (event : Event) (s : State) : Response × State :=
  match event.command with
  | .loadAppBegin appId => loadAppBegin event.faults appId s
  | .loadAppFileBegin filename size => loadAppFileBegin event.faults filename size s
  | .loadAppChunk data => loadAppChunk event.faults data s
  | .loadAppEnd => loadAppEnd event.faults s

end UsbDebug
