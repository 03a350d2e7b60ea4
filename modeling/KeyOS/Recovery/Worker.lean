import KeyOS.Recovery.Archive

/-!
# The recovery worker

`ReadArchive`, `CopyArchive` and `StartRecovery` over the files of the system and the boot
partition. Every call can fail; a rename that fails has no effect.

The archive is copied to a temporary file and the lists of its files are kept from when it was
first read. `StartRecovery` swaps the OS binary and the bootloader first, and then wipes and fills
the directories of the apps and assets.
-/

namespace Recovery

open FatTree

/-! ## 1. Files -/

def KEYOS : Name := "KEYOS".toList

/-- `keyos/recovtmp.tar` -/
def TEMP_ARCHIVE_PATH : Path := [KEYOS, "RECOVTMP.TAR".toList]

/-- `keyos/app.tmp` -/
def TEMP_OS_BINARY_PATH : Path := [KEYOS, "APP.TMP".toList]

/-- `boot.tmp` -/
def TEMP_BOOTLOADER_PATH : Path := ["BOOT.TMP".toList]

/-- `state/recovery/update-state-invalidated` -/
def UPDATE_STATE_INVALIDATED_MARKER_PATH : Path :=
  ["STATE".toList, "RECOVERY".toList, "UPDATE-STATE-INVALIDATED".toList]

def Binary.location : Binary → Location
  | .app => .system
  | _ => .boot

def Binary.finalName : Binary → Path
  | .app => [KEYOS, "APP.BIN".toList]
  | .recovery => ["RECOVERY.BIN".toList]
  | .bootBin => ["BOOT.BIN".toList]
  | .bootCip => ["BOOT.CIP".toList]

def Binary.oldName : Binary → Path
  | .app => [KEYOS, "APP.OLD".toList]
  | .recovery => ["RECOVERY.OLD".toList]
  | .bootBin => ["BOOTB.OLD".toList]
  | .bootCip => ["BOOTC.OLD".toList]

def Binary.newName : Binary → Path
  | .app => [KEYOS, "APP.NEW".toList]
  | .recovery => ["RECOVERY.NEW".toList]
  | .bootBin => ["BOOTB.NEW".toList]
  | .bootCip => ["BOOTC.NEW".toList]

/-- The files of the two partitions. -/
structure Disk where
  system : Tree
  boot : Tree

def Disk.at (disk : Disk) : Location → Tree
  | .system => disk.system
  | .boot => disk.boot

def Disk.set (disk : Disk) : Location → Tree → Disk
  | .system, tree => { disk with system := tree }
  | .boot, tree => { disk with boot := tree }

/-- How the calls on a file that is written fail. -/
structure WriteFaults where
  openFile : Option Bool
  short : Option Name
  write : Option Nat
  truncate : Bool

/-- A file with this content. On an error it holds part of it. -/
def writeFile (f : WriteFaults) (path : Path) (payload : Bytes) (tree : Tree) : Bool × Tree :=
  match tree.openFile f.openFile f.short path with
  | (.error _, tree) => (false, tree)
  | (.ok file, tree) =>
    match tree.writeAll f.write file 0 payload with
    | (.error _, tree, _) => (false, tree)
    | (.ok (), tree, offset) =>
      if f.truncate then (false, tree)
      else
        match tree.file? file with
        | none => (false, tree)
        | some data => (true, tree.put file (.file (data.take offset)) none)

def readFile (fault : Bool) (path : Path) (tree : Tree) : Option Bytes :=
  if fault then none else tree.file? (tree.resolve path)

/-- `tar_read_file_progress` and `tar_extract_file`, of the temporary archive. -/
def tarReadFile (P : Platform) (fault : Bool) (path : TarPath) (disk : Disk) : Option Bytes :=
  (readFile fault TEMP_ARCHIVE_PATH disk.system).bind fun archive => tarFind P archive path

/-! ## 2. State -/

inductive ArchiveState where
  | none
  | error
  | valid (archive : ValidArchive)
  | copied (archive : ValidArchive)
deriving DecidableEq

inductive RecoveryState where
  | none
  | valid (fwFileHash : Hash) (fwFileTotalSize timestamp : Nat) (isPreRelease : Bool)
  | copied (fwFileHash : Hash) (timestamp : Nat) (isPreRelease : Bool)
  | invalid

/-- The worker, and what is recorded of the firmware. -/
structure State where
  archive : ArchiveState
  osBinary : RecoveryState
  bootloader : RecoveryState
  disk : Disk
  firmwareTimestamp : Nat
  bootloaderBuildDate : Option Nat

/-- The state of the OS binary or of the bootloader -/
def State.binary (s : State) (isBootloader : Bool) : RecoveryState :=
  if isBootloader then s.bootloader else s.osBinary

def State.setBinary (s : State) (isBootloader : Bool) (binary : RecoveryState) : State :=
  if isBootloader then { s with bootloader := binary } else { s with osBinary := binary }

def State.setTree (s : State) (location : Location) (tree : Tree) : State :=
  { s with disk := s.disk.set location tree }

variable (P : Platform)

/-! ## 3. Archives are copied -/

/-- The temporary file of a binary -/
def tempFile (isBootloader : Bool) : Path :=
  if isBootloader then TEMP_BOOTLOADER_PATH else TEMP_OS_BINARY_PATH

def tempLocation (isBootloader : Bool) : Location := if isBootloader then .boot else .system

structure VerifyFaults where
  timestamp : Bool
  removeTemp : Option (Path → Bool)
  tar : Bool
  write : WriteFaults
  verify : Bool
  removeInvalid : Option (Path → Bool)
  removeArchive : Option (Path → Bool)

def deleteArchive (fault : Option (Path → Bool)) (s : State) : State :=
  { s with
    archive := .none
    disk := s.disk.set .system (s.disk.system.remove fault TEMP_ARCHIVE_PATH).2 }

/-- `alpha` or `beta` in the version -/
def isPreRelease (version : List Char) : Bool :=
  "alpha".toList <:+: version || "beta".toList <:+: version

/-- The binary is dropped with the archive. -/
def rejectBinary (f : VerifyFaults) (isBootloader : Bool) (s : State) : State :=
  deleteArchive f.removeArchive (s.setTree (tempLocation isBootloader)
    ((s.disk.at (tempLocation isBootloader)).remove f.removeInvalid (tempFile isBootloader)).2)

/-- The extracted binary is checked. -/
def checkBinary (f : VerifyFaults) (isBootloader : Bool) (binary : Binary) (v : ValidArchive)
    (last size : Nat) (s : State) : State :=
  let header :=
    match readFile f.verify (tempFile isBootloader) (s.disk.at (tempLocation isBootloader)) with
    | none => none
    | some data => verifyCosign2 P data
  match header with
  | none => { (rejectBinary f isBootloader s).setBinary isBootloader .invalid with archive := .error }
  | some header =>
    if verifyManifestHash v.manifest (binaryTarPath v.version binary) header.binaryHash then
      if header.timestamp < last then
        { (rejectBinary f isBootloader s).setBinary isBootloader .invalid with archive := .error }
      else
        s.setBinary isBootloader
          (.valid header.binaryHash size header.timestamp (isPreRelease header.version))
    else { (rejectBinary f isBootloader s).setBinary isBootloader .invalid with archive := .error }

def lastTimestamp (f : VerifyFaults) (isBootloader : Bool) (s : State) : Option Nat :=
  if f.timestamp then none
  else if isBootloader then s.bootloaderBuildDate
  else some s.firmwareTimestamp

def verifyBinary (f : VerifyFaults) (isBootloader : Bool) (binary : Binary) (s : State) : State :=
  match s.archive with
  | .copied v =>
    let s := s.setBinary isBootloader .none
    match lastTimestamp f isBootloader s with
    | none => s
    | some last =>
      let location := tempLocation isBootloader
      let s := s.setTree location
        ((s.disk.at location).remove f.removeTemp (tempFile isBootloader)).2
      match tarReadFile P f.tar (binaryTarPath v.version binary) s.disk with
      | none => rejectBinary f isBootloader s
      | some data =>
        match writeFile f.write (tempFile isBootloader) data (s.disk.at location) with
        | (false, tree) => rejectBinary f isBootloader (s.setTree location tree)
        | (true, tree) =>
          checkBinary P f isBootloader binary v last data.length (s.setTree location tree)
  | _ => s

structure CopyFaults where
  removeOld : Option (Path → Bool)
  source : Bool
  write : WriteFaults
  os : VerifyFaults
  bootloader : VerifyFaults

/-- `CopyArchive`, when the archive file holds these bytes. -/
def copyArchive (f : CopyFaults) (archive : Bytes) (s : State) : State :=
  match s.archive with
  | .valid v =>
    let s := { s with osBinary := .none }
    let s := s.setTree .system (s.disk.system.remove f.removeOld TEMP_ARCHIVE_PATH).2
    if f.source then s
    else
      match writeFile f.write TEMP_ARCHIVE_PATH archive s.disk.system with
      | (false, tree) => s.setTree .system tree
      | (true, tree) =>
        let s := verifyBinary P f.os false v.osBinary
          { s.setTree .system tree with archive := .copied v }
        match v.bootloader with
        | none => s
        | some bootloader => verifyBinary P f.bootloader true bootloader s
  | _ => s

/-! ## 4. Binaries are swapped -/

structure BinaryFaults where
  removeNew : Option (Path → Bool)
  source : Bool
  write : WriteFaults
  removeTemp : Option (Path → Bool)
  removeOld : Option (Path → Bool)
  renameOld : Bool
  renameNew : Bool
  renameBack : Bool
  shorts : Path → Option Name
  timestamp : Bool

/-- What of the temporary file is copied: the header of a bootloader is stripped. -/
def copiedBytes (isBootloader : Bool) (size : Nat) (data : Bytes) : Bytes :=
  if isBootloader then (data.drop P.headerSize).take (size - P.headerSize) else data

def copyBinary (f : BinaryFaults) (isBootloader : Bool) (binary : Binary) (s : State) :
    Bool × State :=
  match s.binary isBootloader with
  | .valid fwFileHash size timestamp pre =>
    let s := s.setTree binary.location
      ((s.disk.at binary.location).remove f.removeNew binary.newName).2
    match readFile f.source (tempFile isBootloader) (s.disk.at (tempLocation isBootloader)) with
    | none => (false, s)
    | some data =>
      match writeFile f.write binary.newName (copiedBytes P isBootloader size data)
          (s.disk.at binary.location) with
      | (false, tree) => (false, s.setTree binary.location tree)
      | (true, tree) =>
        let s := s.setTree binary.location tree
        let s := s.setTree (tempLocation isBootloader)
          ((s.disk.at (tempLocation isBootloader)).remove f.removeTemp (tempFile isBootloader)).2
        (true, s.setBinary isBootloader (.copied fwFileHash timestamp pre))
  | _ => (false, s)

def readbackOsBinary (fault : Bool) (v : ValidArchive) (s : State) : Bool :=
  match s.osBinary with
  | .copied fwFileHash _ _ =>
    match readFile fault v.osBinary.newName (s.disk.at v.osBinary.location) with
    | none => false
    | some data =>
      match verifyCosign2 P data with
      | none => false
      | some header =>
        header.binaryHash = fwFileHash &&
          verifyManifestHash v.manifest (binaryTarPath v.version v.osBinary) fwFileHash
  | _ => false

structure MarkerFaults where
  parents : Option Nat
  dirShorts : Path → Option Name
  openFile : Option Bool
  short : Option Name
  write : Option Nat
  flush : Bool
  remove : Option (Path → Bool)

/-- `b"1"` -/
def MARK : Bytes := [49]

def markUpdateStateInvalidated (f : MarkerFaults) (tree : Tree) : Bool × Tree :=
  match tree.ensureParentDirExists f.parents f.dirShorts UPDATE_STATE_INVALIDATED_MARKER_PATH with
  | (.error _, tree) => (false, tree)
  | (.ok (), tree) =>
    match tree.openFile f.openFile f.short UPDATE_STATE_INVALIDATED_MARKER_PATH with
    | (.error _, tree) => (false, tree)
    | (.ok file, tree) =>
      match tree.writeAll f.write file 0 MARK with
      | (.error _, tree, _) => (false, tree)
      | (.ok (), tree, _) => (!f.flush, tree)

/-- A rename that fails has no effect. -/
def renameFault (fault : Bool) : Option Bool := if fault then some false else none

/-- The names are swapped, or the old binary gets its name back. -/
def swapBinary (f : BinaryFaults) (binary : Binary) (tree : Tree) : Bool × Tree :=
  let tree := (tree.remove f.removeOld binary.oldName).2
  let tree := (tree.rename (renameFault f.renameOld) (f.shorts binary.oldName) binary.finalName
    binary.oldName).2
  match tree.rename (renameFault f.renameNew) (f.shorts binary.finalName) binary.newName
      binary.finalName with
  | (.ok (), tree) => (true, tree)
  | (.error _, tree) =>
    (false, (tree.rename (renameFault f.renameBack) (f.shorts binary.finalName) binary.oldName
      binary.finalName).2)

inductive Finalized where
  | done
  | beforeSwap
  | afterSwap
deriving DecidableEq, Repr

/-- `set_firmware_timestamp` -/
def recordTimestamp (fault : Bool) (timestamp : Nat) (s : State) : State :=
  if fault then s else { s with firmwareTimestamp := timestamp }

def finalizeOsBinary (f : BinaryFaults) (isBootloader : Bool) (binary : Binary) (s : State) :
    Finalized × State :=
  match s.binary isBootloader with
  | .copied _ timestamp pre =>
    match swapBinary f binary (s.disk.at binary.location) with
    | (renamed, tree) =>
      let s := s.setTree binary.location tree
      -- the timestamp is recorded whether the binary was renamed or not
      let s := if pre || isBootloader then s else recordTimestamp f.timestamp timestamp s
      (if renamed = false then .beforeSwap
        else if !pre && !isBootloader && f.timestamp then .afterSwap
        else .done, s)
  | _ => (.beforeSwap, s)

/-! ## 5. Apps and assets -/

structure FileFaults where
  tar : Bool
  hash : Bool
  remove : Option (Path → Bool)
  write : WriteFaults
  readBack : Bool
  hashBack : Bool

/-- How the creation of directories fails: of each, whether, and its short name. -/
structure DirFaults where
  create : Path → Bool
  shorts : Path → Option Name

def createDirAllFrom (f : DirFaults) (tree : Tree) (dir : Path) : Path → Tree
  | [] => tree
  | part :: parts =>
    createDirAllFrom f
      (if f.create (dir ++ [part]) then tree
        else tree.createDir (f.shorts (dir ++ [part])) (dir ++ [part]))
      (dir ++ [part]) parts

/-- `create_dir_all`: a directory that cannot be created is left out. -/
def createDirAll (f : DirFaults) (path : Path) (tree : Tree) : Tree :=
  createDirAllFrom f tree [] path

/-- A file is written, and what the file system then holds is checked. -/
def writeChecked (f : FileFaults) (path : Path) (payload : Bytes) (check : Bytes → Bool)
    (tree : Tree) : Bool × Tree :=
  match writeFile f.write path payload tree with
  | (false, tree) => (false, tree)
  | (true, tree) =>
    match readFile f.readBack path tree with
    | none => (false, tree)
    | some data => (!f.hashBack && check data, tree)

/-- What the check of an ELF compares: the hash of the binary in its header. -/
def elfListed (manifest : RecoveryManifest) (path : TarPath) (data : Bytes) : Bool :=
  match verifyCosign2 P data with
  | none => false
  | some header => verifyManifestHash manifest path header.binaryHash

def fileListed (manifest : RecoveryManifest) (path : TarPath) (data : Bytes) : Bool :=
  verifyManifestHash manifest path (P.sha256 data)

/-- A file takes its place once this is prepared. -/
def copyFile (f : FileFaults) (location : Location) (check : Bytes → Bool) (prepare : Tree → Tree)
    (path : Path) (payload : Bytes) (disk : Disk) : Bool × Disk :=
  match writeChecked f path payload check (prepare (disk.at location)) with
  | (copied, tree) => (copied, disk.set location tree)

structure AppFaults where
  elf : FileFaults
  dirs : DirFaults
  manifest : FileFaults

def elfPath (app : TarPath) : TarPath := app ++ ["app.elf".toList]

def appManifestPath (app : TarPath) : TarPath := app ++ ["manifest.json".toList]

def copyAppManifest (f : FileFaults) (v : ValidArchive) (app dir : TarPath) (disk : Disk) :
    Bool × Disk :=
  match tarReadFile P f.tar (appManifestPath app) disk with
  | none => (false, disk)
  | some data =>
    if f.hash || !fileListed P v.manifest (appManifestPath app) data then (false, disk)
    else
      copyFile f .system (fileListed P v.manifest (appManifestPath app))
        (fun tree => (tree.remove f.remove (fsPath P (appManifestPath dir))).2)
        (fsPath P (appManifestPath dir)) data disk

def copyApp (f : AppFaults) (v : ValidArchive) (app : TarPath) (disk : Disk) : Bool × Disk :=
  match tarReadFile P f.elf.tar (elfPath app) disk with
  | none => (false, disk)
  | some elf =>
    if f.elf.hash || !elfListed P v.manifest (elfPath app) elf then (false, disk)
    else
      match appTarPathToFsDir app with
      | none => (false, disk)
      | some dir =>
        match copyFile f.elf .system (elfListed P v.manifest (elfPath app))
            (fun tree => ((createDirAll f.dirs (fsPath P dir) tree).remove f.elf.remove
              (fsPath P (elfPath dir))).2)
            (fsPath P (elfPath dir)) elf disk with
        | (false, disk) => (false, disk)
        | (true, disk) => copyAppManifest P f.manifest v app dir disk

def copyApps (f : Nat → AppFaults) (v : ValidArchive) (i : Nat) (disk : Disk) :
    List TarPath → Bool × Disk
  | [] => (true, disk)
  | app :: apps =>
    match copyApp P (f i) v app disk with
    | (false, disk) => (false, disk)
    | (true, disk) => copyApps f v (i + 1) disk apps

structure AssetFaults where
  file : FileFaults
  dirs : DirFaults

def copyAsset (f : AssetFaults) (v : ValidArchive) (asset : TarPath × Location) (disk : Disk) :
    Bool × Disk :=
  match tarReadFile P f.file.tar asset.1 disk with
  | none => (false, disk)
  | some data =>
    if f.file.hash || !fileListed P v.manifest asset.1 data then (false, disk)
    else
      copyFile f.file asset.2 (fileListed P v.manifest asset.1)
        (fun tree =>
          createDirAll f.dirs (fsPath P (assetTarPathToFsPath asset.1 asset.2).dropLast)
            (tree.remove f.file.remove (fsPath P (assetTarPathToFsPath asset.1 asset.2))).2)
        (fsPath P (assetTarPathToFsPath asset.1 asset.2)) data disk

def copyAssets (f : Nat → AssetFaults) (v : ValidArchive) (i : Nat) (disk : Disk) :
    List (TarPath × Location) → Bool × Disk
  | [] => (true, disk)
  | asset :: assets =>
    match copyAsset P (f i) v asset disk with
    | (false, disk) => (false, disk)
    | (true, disk) => copyAssets f v (i + 1) disk assets

structure WipeFaults where
  apps : Option (Path → Bool)
  root : TarPath × Location → Option (Path → Bool)

/-- `keyos/apps` -/
def APPS : Path := [KEYOS, "APPS".toList]

/-- The roots of the assets, each once. Removals commute, so the order of the set is left open. -/
def assetRoots (v : ValidArchive) : List (TarPath × Location) :=
  (v.assets.filterMap fun asset =>
    (assetFsPathToWipeRoot (assetTarPathToFsPath asset.1 asset.2) asset.2).map
      fun root => (root, asset.2)).dedup

def wipeRoots (f : WipeFaults) (disk : Disk) : List (TarPath × Location) → Disk
  | [] => disk
  | root :: roots =>
    wipeRoots f
      (disk.set root.2 ((disk.at root.2).remove (f.root root) (fsPath P root.1)).2) roots

def wipeRecoveryTargets (f : WipeFaults) (v : ValidArchive) (disk : Disk) : Disk :=
  wipeRoots P f
    (if v.apps = [] then disk else disk.set .system (disk.system.remove f.apps APPS).2)
    (assetRoots v)

/-! ## 6. Recovery -/

structure StartFaults where
  os : BinaryFaults
  readback : Bool
  marker : MarkerFaults
  bootloader : BinaryFaults
  wipe : WipeFaults
  apps : Nat → AppFaults
  assets : Nat → AssetFaults
  removeArchive : Option (Path → Bool)

/-- The OS binary is copied, read back and swapped. -/
def replaceOs (f : StartFaults) (v : ValidArchive) (s : State) : Bool × State :=
  match copyBinary P f.os false v.osBinary s with
  | (false, s) => (false, s)
  | (true, s) =>
    if readbackOsBinary P f.readback v s = false then (false, s)
    else
      match markUpdateStateInvalidated f.marker s.disk.system with
      | (false, tree) => (false, s.setTree .system tree)
      | (true, tree) =>
        match finalizeOsBinary f.os false v.osBinary (s.setTree .system tree) with
        | (.done, s) => (true, s)
        | (.afterSwap, s) => (false, s)
        | (.beforeSwap, s) =>
          (false, s.setTree .system
            (s.disk.system.remove f.marker.remove UPDATE_STATE_INVALIDATED_MARKER_PATH).2)

/-- The bootloader is copied and swapped, if the archive has one. -/
def replaceBootloader (f : StartFaults) (v : ValidArchive) (s : State) : Bool × State :=
  match v.bootloader with
  | none => (true, s)
  | some binary =>
    match copyBinary P f.bootloader true binary s with
    | (false, s) => (false, s)
    | (true, s) =>
      match finalizeOsBinary f.bootloader true binary s with
      | (.done, s) => (true, s)
      | (_, s) => (false, s)

/-- The directories of the apps and assets are wiped and filled. -/
def replaceFiles (f : StartFaults) (v : ValidArchive) (disk : Disk) : Bool × Disk :=
  match copyApps P f.apps v 0 (wipeRecoveryTargets P f.wipe v disk) v.apps with
  | (false, disk) => (false, disk)
  | (true, disk) => copyAssets P f.assets v 0 disk v.assets

def startRecovery (f : StartFaults) (s : State) : Bool × State :=
  match s.archive with
  | .copied v =>
    match replaceOs P f v s with
    | (false, s) => (false, s)
    | (true, s) =>
      match replaceBootloader P f v s with
      | (false, s) => (false, s)
      | (true, s) =>
        match replaceFiles P f v s.disk with
        | (done, disk) => (done, { s with disk := disk })
  | _ => (false, s)

inductive Request where
  /-- The bytes of the archive file -/
  | readArchive (fault : Bool) (archive : Bytes)
  | copyArchive (faults : CopyFaults) (archive : Bytes)
  | startRecovery (faults : StartFaults)
  | restart

/-- Whether a recovery succeeded, and the state after a request. After success the device
reboots. -/
def handle (request : Request) (s : State) : Bool × State :=
  match request with
  | .readArchive fault archive =>
    match tarVerify P fault archive with
    | none => (false, { s with archive := .error })
    | some v => (false, { s with archive := .valid v })
  | .copyArchive faults archive => (false, copyArchive P faults archive s)
  | .startRecovery faults =>
    match startRecovery P faults s with
    | (false, s) => (false, s)
    | (true, s) => (true, deleteArchive faults.removeArchive s)
  | .restart => (false, { s with archive := .none, osBinary := .none, bootloader := .none })

end Recovery
