import KeyOS.Update.Downloader

/-!
# Downloading a backup

The peer sends a backup in chunks, which are appended to one file. The peer chooses every number
and the order of the events. The file server does not remove a file that is open, opens a file for
writing only once, and leaves what a file holds when it is opened.
-/

namespace Backup.Download

open Exec
open Update (Bytes FsError overwrite)

/-! ## 1. Events -/

structure BackupChunk where
  chunkIndex : UInt32
  totalChunks : UInt32
  data : Bytes
  deriving DecidableEq, Repr

structure BackupMetadata where
  totalChunks : UInt32
  deriving DecidableEq, Repr

/-- `RestoreMagicBackupEvent` -/
inductive RestoreEvent where
  | notFound
  | starting (metadata : BackupMetadata)
  | chunk (chunk : BackupChunk)
  | error (error : String)
  deriving DecidableEq, Repr

structure Complete where
  filePath : String
  deriving DecidableEq, Repr

inductive Error where
  | noBackupFound
  | io (message : String)
  | fs (e : FsError)
  | envoyError
  | invalidState
  | invalidChunk
  deriving DecidableEq, Repr

/-- An addition or a subtraction of two `u32` that has no result -/
inductive Overflow where
  | add
  | sub
  deriving DecidableEq, Repr

/-- What the file server replies to the calls of one event, apart from the refusals that the open
file of the downloader causes -/
structure Replies where
  /-- The file is still there after `remove`, as another process has it open or the disk failed. -/
  kept : Bool
  openFile : Option FsError
  /-- The failure of `write_all`, after so many bytes -/
  writeAll : Option (Nat × String)
  flush : Option String

/-! ## 2. The downloader -/

/-- A download, with the position in its open file -/
structure InProgress where
  position : Nat
  filePath : String
  metadata : BackupMetadata
  chunksReceived : UInt32
  deriving DecidableEq, Repr

inductive State where
  | idle
  | inProgress (download : InProgress)
  deriving DecidableEq, Repr

/-- The downloader, and the file at the path that it writes to -/
structure Downloader where
  file : Option Bytes
  state : State
  deriving DecidableEq, Repr

abbrev DownloadM := Prog Downloader Overflow Error

def restorePath : String := "backup/restore.tar"

namespace Downloader

def new (file : Option Bytes) : Downloader := { file, state := .idle }

def resetState (d : Downloader) : Downloader := { d with state := .idle }

/-- `remove` of the file, whose result is not looked at -/
def remove (replies : Replies) (d : Downloader) : Downloader :=
  match d.state with
  | .inProgress _ => d
  | .idle => if replies.kept then d else { d with file := none }

/-- `open_file` with `CREATE`. A file that is there is opened as it is. -/
def openFile (replies : Replies) : DownloadM Unit := do
  let d ← Prog.get
  match d.state, replies.openFile with
  | .inProgress _, _ => Prog.throw (.fs .fileInUse)
  | .idle, some e => Prog.throw (.fs e)
  | .idle, none => Prog.modify fun d => { d with file := some (d.file.getD []) }

def handleStarting (replies : Replies) (metadata : BackupMetadata) : DownloadM (Option Complete) := do
  Prog.modify (remove replies)
  openFile replies
  Prog.modify fun d =>
    { d with
      state := .inProgress { position := 0, filePath := restorePath, metadata, chunksReceived := 0 } }
  pure none

def writeAll (replies : Replies) (position : Nat) (data : Bytes) : DownloadM Unit := do
  let write (data : Bytes) : DownloadM Unit := Prog.modify fun d =>
    { d with file := d.file.map fun content => overwrite content position data }
  match replies.writeAll with
  | none => write data
  | some (written, e) => do
    write (data.take written)
    Prog.throw (.io e)

def handleChunk (replies : Replies) (chunk : BackupChunk) : DownloadM (Option Complete) := do
  let d ← Prog.get
  match d.state with
  | .idle => Prog.throw .invalidState
  | .inProgress dl => do
    Prog.onlyIf (chunk.chunkIndex ≠ dl.chunksReceived) (Prog.throw .invalidChunk)
    writeAll replies dl.position chunk.data
    Prog.onlyIf (dl.chunksReceived = 0xFFFFFFFF) (Prog.panic .add)
    let dl := { dl with
      position := dl.position + chunk.data.length
      chunksReceived := dl.chunksReceived + 1 }
    Prog.modify fun d => { d with state := .inProgress dl }
    Prog.onlyIf (chunk.totalChunks = 0) (Prog.panic .sub)
    if chunk.chunkIndex = chunk.totalChunks - 1 then do
      Prog.onlyIf (dl.chunksReceived ≠ dl.metadata.totalChunks) (Prog.throw .invalidChunk)
      Prog.modify resetState
      match replies.flush with
      | some e => Prog.throw (.io e)
      | none => pure (some { filePath := dl.filePath })
    else pure none

def respond (replies : Replies) : RestoreEvent → DownloadM (Option Complete)
  | .notFound => Prog.throw .noBackupFound
  | .starting metadata => handleStarting replies metadata
  | .chunk chunk => handleChunk replies chunk
  | .error _ => do
    Prog.modify resetState
    Prog.throw .envoyError

/-- An error resets the downloader. -/
def handleEvent (replies : Replies) (event : RestoreEvent) : DownloadM (Option Complete) := do
  let result ← Prog.attempt (respond replies event)
  match result with
  | .ok outcome => pure outcome
  | .error e => do
    Prog.modify resetState
    Prog.throw e

/-! ## 3. Runs -/

/-- An event, and what the file server does meanwhile -/
structure Input where
  event : RestoreEvent
  replies : Replies

/-- What happened at an event, with the chunks received since the download was started -/
structure Entry where
  before : Downloader
  input : Input
  received : List BackupChunk
  outcome : Outcome Overflow Error (Option Complete)
  after : Downloader

def receive (received : List BackupChunk) : RestoreEvent → List BackupChunk
  | .starting _ => []
  | .chunk chunk => received ++ [chunk]
  | _ => received

def entry (received : List BackupChunk) (d : Downloader) (input : Input) : Entry where
  before := d
  input := input
  received := receive received input.event
  outcome := (handleEvent input.replies input.event d).1
  after := (handleEvent input.replies input.event d).2

/-- A run, which ends early where the arithmetic overflows -/
def run : List BackupChunk → Downloader → List Input → List Entry
  | _, _, [] => []
  | received, d, input :: inputs =>
    let e := entry received d input
    match e.outcome with
    | .panic _ => [e]
    | _ => e :: run e.received e.after inputs

/-- The download of a state is this one. -/
def downloads (d : Downloader) (dl : InProgress) : Prop := d.state = .inProgress dl

/-- The file is the data of the chunks, numbered in order from 0 up to the number announced. -/
structure Reassembled (e : Entry) : Prop where
  numbers : e.received.map (·.chunkIndex.toNat) = List.range e.received.length
  announced : ∃ dl, e.before.downloads dl ∧ e.received.length = dl.metadata.totalChunks.toNat
  file : e.after.file = some (e.received.flatMap BackupChunk.data)

/-- A download that was started is in progress with an empty file, no arithmetic overflows, and a
download that completes has its whole file. -/
structure Exact (e : Entry) : Prop where
  started : ∀ metadata, e.input.event = .starting metadata →
    ∃ dl, e.after.downloads dl ∧ dl.chunksReceived = 0 ∧ dl.position = 0 ∧
      dl.metadata = metadata ∧ e.after.file = some []
  computes : ∀ overflow, e.outcome ≠ .panic overflow
  completes : ∀ result, e.outcome = .ok (some result) → Reassembled e

/-- The download can be started: none is in progress, no other process has the file open for
writing, and nothing is left in the file. -/
def CanStart (replies : Replies) (d : Downloader) : Prop :=
  d.state = .idle ∧ replies.openFile = none ∧ (replies.kept = true → d.file.getD [] = [])

/-- The chunk is the next one. -/
def IsNext (replies : Replies) (chunk : BackupChunk) (d : Downloader) (dl : InProgress) : Prop :=
  d.downloads dl ∧ chunk.chunkIndex = dl.chunksReceived ∧ replies.writeAll = none

/-- A download is started only when it can be, a chunk that is written announces some chunks, and
fewer than `u32::MAX` chunks come before it. -/
def Orderly (input : Input) (d : Downloader) : Prop :=
  match input.event with
  | .starting _ => CanStart input.replies d
  | .chunk chunk => ∀ dl, IsNext input.replies chunk d dl →
      chunk.totalChunks ≠ 0 ∧ dl.chunksReceived ≠ 0xFFFFFFFF
  | _ => True

end Downloader

end Backup.Download
