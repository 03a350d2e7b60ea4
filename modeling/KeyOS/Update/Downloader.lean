import KeyOS.Update.FirmwareSwap

/-!
# The firmware downloader

The peer sends the patches of an update in chunks. The downloader writes each chunk to the
file of its patch, asks for a resume when a chunk does not come in its turn, and reports
the files when every patch is complete. The peer chooses every field and the order.
-/

namespace Update

open Exec

/-! ## 1. Events -/

structure FirmwareUpdateAvailable where
  version : String
  patchCount : UInt8
  changelog : String
  timestamp : UInt32
  totalSize : UInt32
deriving DecidableEq, Repr

structure FirmwareChunk where
  patchIndex : UInt8
  totalPatches : UInt8
  chunkIndex : UInt16
  totalChunks : UInt16
  data : Bytes
deriving DecidableEq, Repr

/-- `FirmwareFetchEvent` -/
inductive FwEvent where
  | updateNotAvailable
  | starting (metadata : FirmwareUpdateAvailable)
  | downloading
  | chunk (chunk : FirmwareChunk)
  | error (error : String)
deriving DecidableEq, Repr

inductive DownloadError where
  | io (message : String)
  | fs (e : FsError)
  | envoyError (message : String)
  | retryFailed (message : String)
  | invalidState
  | invalidChunk
  | stalled
deriving DecidableEq, Repr

/-! ## 2. Files -/

/-- The path of a release file: `firmware_update_{index}.tar` in the patches directory, or a
path that the user of the update server has chosen. -/
inductive ReleasePath where
  | patch (index : Nat)
  | other (path : String)
deriving DecidableEq, Repr

abbrev Files := ReleasePath → Option Bytes

/-- What the file system replies to the calls of one event, apart from the refusals that the
handles of the downloader itself cause. `open_file` does not truncate a file that exists. -/
structure FsReplies where
  /-- The patches whose files are still there after `remove` of the patches directory. -/
  kept : Nat → Bool
  parentDir : Option FsError
  createDir : Option FsError
  openFile : Nat → Option FsError
  /-- The failure of `write_all`, after so many bytes. -/
  writeAll : Option (Nat × String)
  flush : Option String

/-- The bytes of a file after `data` is written at `position`. -/
def overwrite (content : Bytes) (position : Nat) (data : Bytes) : Bytes :=
  content.take position ++ data ++ content.drop (position + data.length)

/-! ## 3. State -/

/-- A patch and its open file, with the position of the file's cursor. -/
structure PatchState where
  filePath : ReleasePath
  position : Nat
  chunksReceived : UInt16
  totalChunks : Option UInt16
deriving DecidableEq, Repr

def PatchState.isComplete (p : PatchState) : Bool := p.totalChunks == some p.chunksReceived

structure Download where
  metadata : FirmwareUpdateAvailable
  patches : List PatchState
  lastProgressAt : Nat
  /-- When the last resume was requested. -/
  resync : Option Nat
deriving DecidableEq, Repr

/-- `State` of the downloader. -/
inductive DownloadState where
  | idle
  | inProgress (download : Download)
  | failed (staleEventLogged : Bool)
deriving DecidableEq, Repr

structure UpdateFiles where
  metadata : FirmwareUpdateAvailable
  paths : List ReleasePath
deriving DecidableEq, Repr

inductive EventOutcome where
  | none
  | done (files : UpdateFiles)
  | retry (chunkOffset : UInt64)
deriving DecidableEq, Repr

/-- The downloader and the files that it writes. -/
structure Downloader where
  files : Files
  state : DownloadState

abbrev DownloadM := Prog Downloader Empty DownloadError

namespace Downloader

/-- `DOWNLOAD_STALL_TIMEOUT`, in milliseconds. -/
def stallTimeout : Nat := 30000

/-- `RESYNC_RETRY_INTERVAL`, in milliseconds. -/
def resyncRetryInterval : Nat := 5000

def openPatches (d : Downloader) : List PatchState :=
  match d.state with
  | .inProgress dl => dl.patches
  | _ => []

/-- Whether the downloader itself has a handle on the file at `path`. -/
def hasWriter (d : Downloader) (path : ReleasePath) : Bool :=
  d.openPatches.any fun p => p.filePath == path

def setFile (path : ReleasePath) (content : Option Bytes) (d : Downloader) : Downloader :=
  { d with files := Function.update d.files path content }

def resetState (d : Downloader) : Downloader := { d with state := .idle }

def markFailed (d : Downloader) : Downloader :=
  match d.state with
  | .failed _ => d
  | _ => { d with state := .failed false }

/-! ## 4. Starting -/

/-- `remove` of the patches directory, which is refused while a file in it is open. -/
def removePatches (replies : FsReplies) (d : Downloader) : Downloader :=
  if d.openPatches.isEmpty then
    { d with files := fun path => match path with
        | .patch i => if replies.kept i then d.files path else none
        | .other _ => d.files path }
  else d

def failOn {α : Type} (g : α → DownloadError) : Option α → DownloadM Unit
  | none => pure ()
  | some e => Prog.throw (g e)

def openPatchFile (replies : FsReplies) (index : Nat) : DownloadM PatchState := do
  let d ← Prog.get
  let path := ReleasePath.patch index
  Prog.onlyIf (d.hasWriter path) (Prog.throw (.fs .fileInUse))
  failOn .fs (replies.openFile index)
  Prog.modify fun d => d.setFile path (some ((d.files path).getD []))
  pure { filePath := path, position := 0, chunksReceived := 0, totalChunks := none }

/-- `for patch_index in index..index + left` -/
def openPatchFiles (replies : FsReplies) : (left index : Nat) → DownloadM (List PatchState)
  | 0, _ => pure []
  | left + 1, index => do
    let patch ← openPatchFile replies index
    let patches ← openPatchFiles replies left (index + 1)
    pure (patch :: patches)

def handleStarting (replies : FsReplies) (now : Nat) (metadata : FirmwareUpdateAvailable) :
    DownloadM EventOutcome := do
  Prog.modify (removePatches replies)
  failOn .fs replies.parentDir
  failOn .fs replies.createDir
  let patches ← openPatchFiles replies metadata.patchCount.toNat 0
  Prog.modify fun d =>
    { d with state := .inProgress { metadata, patches, lastProgressAt := now, resync := none } }
  pure .none

/-! ## 5. Chunks -/

def expectedChunkPosition (patches : List PatchState) : Option (Nat × UInt16) :=
  (patches.zipIdx.find? fun p => !p.1.isComplete).map fun p => (p.2, p.1.chunksReceived)

/-- `patches.iter().map(|patch| patch.chunks_received as u64).sum()` -/
def chunkOffset (patches : List PatchState) : UInt64 :=
  (patches.map fun p => p.chunksReceived.toUInt64).sum

/-- `write_all` of an open file. -/
def writeAll (replies : FsReplies) (patch : PatchState) (data : Bytes) : DownloadM Unit := do
  let write (data : Bytes) : DownloadM Unit := Prog.modify fun d =>
    d.setFile patch.filePath
      ((d.files patch.filePath).map fun content => overwrite content patch.position data)
  match replies.writeAll with
  | none => write data
  | some (written, e) => do
    write (data.take written)
    Prog.throw (.io e)

def handleComplete (dl : Download) : DownloadM EventOutcome := do
  Prog.forEach dl.patches fun patch => do
    let total ← Prog.okOr .invalidChunk patch.totalChunks
    Prog.onlyIf (patch.chunksReceived ≠ total) (Prog.throw .invalidChunk)
  Prog.modify resetState
  pure (.done { metadata := dl.metadata, paths := dl.patches.map PatchState.filePath })

/-- The chunk is the next one of the patch at `index`. When this fails the caller drops
the patches, so they are put back only at the end. -/
def storeChunk (replies : FsReplies) (now : Nat) (chunk : FirmwareChunk) (dl : Download)
    (index : Nat) (patch : PatchState) : DownloadM EventOutcome := do
  Prog.onlyIf (patch.totalChunks.any (· != chunk.totalChunks)) (Prog.throw .invalidChunk)
  writeAll replies patch chunk.data
  let patch := { patch with
    totalChunks := some chunk.totalChunks
    position := patch.position + chunk.data.length
    chunksReceived := patch.chunksReceived + 1 }
  Prog.onlyIf (patch.chunksReceived = chunk.totalChunks) (failOn .io replies.flush)
  let dl := { dl with
    patches := dl.patches.set index patch, lastProgressAt := now, resync := none }
  Prog.modify fun d => { d with state := .inProgress dl }
  if (expectedChunkPosition dl.patches).isNone then handleComplete dl else pure .none

/-- The chunk has come too early. One request for a resume is under way at a time. -/
def requestResume (now : Nat) (dl : Download) : DownloadM EventOutcome :=
  let retry : DownloadM EventOutcome := do
    Prog.modify fun d => { d with state := .inProgress { dl with resync := some now } }
    pure (.retry (chunkOffset dl.patches))
  match dl.resync with
  | some lastResumeAt => if now - lastResumeAt < resyncRetryInterval then pure .none else retry
  | none => retry

def handleChunk (replies : FsReplies) (now : Nat) (chunk : FirmwareChunk) :
    DownloadM EventOutcome := do
  let d ← Prog.get
  match d.state with
  | .inProgress dl =>
    if chunk.totalPatches.toNat ≠ dl.patches.length then Prog.throw .invalidChunk
    else if chunk.totalChunks ≤ chunk.chunkIndex then Prog.throw .invalidChunk
    else do
      let (index, expected) ← Prog.okOr .invalidChunk (expectedChunkPosition dl.patches)
      if chunk.patchIndex.toNat < index ∨
          (chunk.patchIndex.toNat = index ∧ chunk.chunkIndex < expected) then pure .none
      else if chunk.patchIndex.toNat ≠ index ∨ chunk.chunkIndex ≠ expected then
        requestResume now dl
      else do
        let patch ← Prog.okOr .invalidChunk dl.patches[index]?
        storeChunk replies now chunk dl index patch
  | _ => Prog.throw .invalidState

/-! ## 6. The downloader -/

/-- What `handle_event` does with an event that it does not ignore. -/
def respond (replies : FsReplies) (now : Nat) : FwEvent → DownloadM EventOutcome
  | .updateNotAvailable => do
    Prog.modify resetState
    pure .none
  | .starting metadata => handleStarting replies now metadata
  | .downloading => pure .none
  | .chunk chunk => handleChunk replies now chunk
  | .error message => Prog.throw (.envoyError message)

/-- After a failed download every event is stale until the next one starts. -/
def isStale : DownloadState → FwEvent → Bool
  | .failed _, .starting _ => false
  | .failed _, .updateNotAvailable => false
  | .failed _, _ => true
  | _, _ => false

def handleEvent (replies : FsReplies) (now : Nat) (event : FwEvent) :
    DownloadM EventOutcome := do
  let d ← Prog.get
  if isStale d.state event then do
    Prog.modify fun d => { d with state := .failed true }
    pure .none
  else do
    let result ← Prog.attempt (respond replies now event)
    match result with
    | .ok outcome => pure outcome
    | .error e => do
      Prog.modify markFailed
      Prog.throw e

/-- The request for a resume has been sent, or could not be. -/
def handleResumeResult (result : Option String) : DownloadM Unit := do
  let d ← Prog.get
  match d.state, result with
  | .inProgress { resync := some _, .. }, some message => do
    Prog.modify markFailed
    Prog.throw (.retryFailed message)
  | _, _ => pure ()

def handleStallMonitor (now : Nat) (d : Downloader) : Downloader :=
  match d.state with
  | .inProgress dl => if now - dl.lastProgressAt < stallTimeout then d else d.markFailed
  | _ => d

end Downloader

end Update
