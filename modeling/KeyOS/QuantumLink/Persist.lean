import KeyOS.QuantumLink.Server

/-!
# The file of the link identity

The identity and the pairing are kept in one file, in AppData when it is mounted and in the system
partition until then. Every primitive of the file system can fail, or lose power; a write that is
cut short has written some prefix.

Errors of `create_dir` and `ensure_parent_dir_exists` in AppData are ignored by the code; a file
that cannot be created there fails to open.
-/

namespace QuantumLink.Persist

/-! ## 1. Values and files -/

structure Persister (T : Type) where
  fromBytes : Bytes → Option T
  toBytes : T → Bytes

/-- A value is read back as it was written, and zeroes are not a value. -/
structure Persister.Lawful {T : Type} (P : Persister T) : Prop where
  roundTrip : ∀ value, P.fromBytes (P.toBytes value) = some value
  zeroes : ∀ n, P.fromBytes (List.replicate n 0) = none

inductive PersistenceState where
  | dirty
  | savedToSystem
  | savedToAppdata
deriving DecidableEq

/-- The file in both partitions, and whether AppData is mounted. -/
structure Disk where
  mounted : Bool
  appData : Option Bytes
  system : Option Bytes

structure FileBacked (T : Type) where
  value : T
  state : PersistenceState

/-- How a primitive is cut short. -/
inductive Cut where
  | fails
  | powerLoss
deriving DecidableEq

inductive Outcome where
  | ok
  | failed
  | powerLost
deriving DecidableEq

def Cut.outcome : Cut → Outcome
  | .fails => .failed
  | .powerLoss => .powerLost

/-- What cuts a file's opening, its writing after so many bytes, and its truncation. -/
structure WriteFates where
  opens : Option Cut
  writes : Option (Nat × Cut)
  truncates : Option Cut

/-- `write_value_to_file` of a file that is open. -/
def writeValueToFile (fates : WriteFates) (file : Option Bytes) (data : Bytes) :
    Outcome × Option Bytes :=
  let old := file.getD []
  match fates.writes with
  | some (n, cut) => (cut.outcome, some (data.take n ++ old.drop (data.take n).length))
  | none =>
    match fates.truncates with
    | some cut => (cut.outcome, some (data ++ old.drop data.length))
    | none => (.ok, some data)

structure WipeFates where
  metadata : Option Cut
  opens : Option Cut
  writes : Option (Nat × Cut)
  removes : Option Cut

/-- The size of a cluster. -/
def clusterSize : Nat := 64 * 1024

def nextMultipleOf (n m : Nat) : Nat := (n + (m - 1)) / m * m

/-- Without metadata there is nothing to wipe. -/
def wipeFileInSystem (fates : WipeFates) (system : Option Bytes) : Outcome × Option Bytes :=
  match system with
  | none => if fates.metadata = some .powerLoss then (.powerLost, none) else (.ok, none)
  | some content =>
    match fates.metadata with
    | some .powerLoss => (.powerLost, system)
    | some .fails => (.ok, system)
    | none =>
      match fates.opens with
      | some cut => (cut.outcome, system)
      | none =>
        let zeroes := List.replicate (nextMultipleOf content.length clusterSize) 0
        match fates.writes with
        | some (n, cut) => (cut.outcome, some (zeroes.take n ++ content.drop (zeroes.take n).length))
        | none =>
          match fates.removes with
          | some .powerLoss => (.powerLost, some zeroes)
          | some .fails => (.ok, some zeroes)
          | none => (.ok, none)

/-! ## 2. Saving and loading -/

structure SaveFates where
  app : WriteFates
  wipe : WipeFates
  systemParent : Option Cut
  system : WriteFates

section Operations

variable {T : Type}

/-- A file in AppData can be opened only while it is mounted. -/
def Disk.opensAppData (disk : Disk) (fates : SaveFates) : Option Cut :=
  if disk.mounted then fates.app.opens else some .fails

/-- A failing wipe is only logged. -/
def saveToAppData (P : Persister T) (fates : SaveFates) (f : FileBacked T) (disk : Disk) :
    Outcome × FileBacked T × Disk :=
  match writeValueToFile fates.app disk.appData (P.toBytes f.value) with
  | (.ok, file) =>
    let wiped := wipeFileInSystem fates.wipe disk.system
    (if wiped.1 = .powerLost then .powerLost else .ok, { f with state := .savedToAppdata },
      { disk with appData := file, system := wiped.2 })
  | (outcome, file) => (outcome, f, { disk with appData := file })

def saveToSystem (P : Persister T) (fates : SaveFates) (f : FileBacked T) (disk : Disk) :
    Outcome × FileBacked T × Disk :=
  match fates.systemParent.or fates.system.opens with
  | some cut => (cut.outcome, f, disk)
  | none =>
    match writeValueToFile fates.system disk.system (P.toBytes f.value) with
    | (.ok, file) => (.ok, { f with state := .savedToSystem }, { disk with system := file })
    | (outcome, file) => (outcome, f, { disk with system := file })

def save (P : Persister T) (fates : SaveFates) (f : FileBacked T) (disk : Disk) :
    Outcome × FileBacked T × Disk :=
  if f.state = .savedToAppdata then (.ok, f, disk)
  else
    match disk.opensAppData fates with
    | some .powerLoss => (.powerLost, f, disk)
    | none => saveToAppData P fates f disk
    | some .fails =>
      if f.state = .savedToSystem then (.ok, f, disk) else saveToSystem P fates f disk

/-- Whether the file can be opened and read, in each partition. -/
structure ReadFates where
  app : Bool
  system : Bool

/-- `get_or_init` before its `save`. Any error is taken for a file that is not there. -/
def load (P : Persister T) (fates : ReadFates) (generated : T) (disk : Disk) : FileBacked T × Bool :=
  match (if disk.mounted && fates.app then disk.appData.bind P.fromBytes else none) with
  | some value => (⟨value, .savedToAppdata⟩, false)
  | none =>
    match (if fates.system then disk.system.bind P.fromBytes else none) with
    | some value => (⟨value, .savedToSystem⟩, false)
    | none => (⟨generated, .dirty⟩, true)

end Operations

/-! ## 3. Runs -/

/-- What a start has loaded, and what had been saved by then: the last value for which a save
returned `Ok`, and the values of the saves since. -/
structure Started (T : Type) where
  value : T
  generated : Bool
  lastOk : Option T
  later : List T

/-- The disk and the server, with a record of what was saved. -/
structure World (T : Type) where
  disk : Disk
  server : Option (FileBacked T)
  lastOk : Option T
  later : List T
  /-- AppData was wiped with the value in it, which was not saved since. -/
  wiped : Bool
  starts : List (Started T)

inductive Act (T : Type) where
  | start (mounted : Bool) (reads : ReadFates) (generated : T) (fates : SaveFates)
  /-- A guard is taken and dropped, with the value it has assigned. -/
  | guard (value : Option T) (fates : SaveFates)
  | markDirty
  | save (fates : SaveFates)
  | mount (fates : SaveFates)
  | onboardingComplete (fates : SaveFates)
  | restoreBackup

namespace World

variable {T : Type}

/-- The server's copy is saved. -/
def saveServer (P : Persister T) (fates : SaveFates) (f : FileBacked T) (w : World T) : World T :=
  let saved := Persist.save P fates f w.disk
  match saved.1 with
  | .ok =>
    { w with
      disk := saved.2.2
      server := some saved.2.1
      lastOk := some f.value
      later := []
      wiped := w.wiped && decide (f.state = .savedToAppdata) }
  | .failed =>
    { w with disk := saved.2.2, server := some saved.2.1, later := w.later ++ [f.value] }
  | .powerLost => { w with disk := saved.2.2, server := none, later := w.later ++ [f.value] }

/-- A request to a server that runs. -/
def request (w : World T) (f : FileBacked T → World T) : World T :=
  match w.server with
  | none => w
  | some fileBacked => f fileBacked

/-- A start whose save fails ends in a panic. -/
def startServer (P : Persister T) (reads : ReadFates) (generated : T) (fates : SaveFates)
    (w : World T) : World T :=
  let loaded := load P reads generated w.disk
  let w := { w with
    server := none
    starts := w.starts ++ [Started.mk loaded.1.value loaded.2 w.lastOk w.later] }
  let saved := w.saveServer P fates loaded.1
  if (Persist.save P fates loaded.1 w.disk).1 = .ok then saved else { saved with server := none }

def step (P : Persister T) (w : World T) : Act T → World T
  | .start mounted reads generated fates =>
    { w with disk := { w.disk with mounted := mounted } }.startServer P reads generated fates
  | .guard value fates =>
    w.request fun f => w.saveServer P fates (match value with
      | some value => { f with value := value, state := .dirty }
      | none => f)
  | .markDirty => w.request fun f => { w with server := some { f with state := .dirty } }
  | .save fates => w.request fun f => w.saveServer P fates f
  | .mount fates =>
    let w := { w with disk := { w.disk with mounted := true } }
    w.request fun f => w.saveServer P fates f
  | .onboardingComplete fates =>
    w.request fun f => w.saveServer P fates { f with state := .dirty }
  | .restoreBackup =>
    { w with
      disk := { w.disk with appData := none }
      wiped := w.wiped || (w.disk.appData.bind P.fromBytes).isSome }

def run (P : Persister T) (w : World T) (acts : List (Act T)) : World T := acts.foldl (step P) w

/-- Nothing was ever saved. -/
def blank : World T where
  disk := ⟨false, none, none⟩
  server := none
  lastOk := none
  later := []
  wiped := false
  starts := []

end World

end QuantumLink.Persist
