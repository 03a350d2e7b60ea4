import KeyOS.Lib.FatTree

/-!
# Recovery archives

How the recovery worker reads the names of a tar archive: `tar_verify` sorts the entries, other
functions give them a place in the file system, and the files of the archive are found again by
name. Names are kept as their components, which a `/` separates in the source.
-/

namespace Recovery

open FatTree

/-! ## 1. What is not of the worker -/

abbrev Hash := Vector UInt8 32

/-- An entry of a tar archive, and whether it is a regular file. -/
structure Entry where
  name : List Char
  isFile : Bool
  data : Bytes

structure FileEntry where
  name : List Char
  hash : Bytes
deriving DecidableEq

structure RecoveryManifest where
  files : List FileEntry
deriving DecidableEq

inductive Trust where
  | untrusted
  | partiallyTrusted
  | fullyTrusted
deriving DecidableEq, Repr

/-- A cosign2 header whose signatures are genuine. -/
structure Header where
  binaryHash : Hash
  version : List Char
  timestamp : Nat
  trust : Trust

/-- Tar, JSON, SHA-256 and cosign2, and the case that the file system folds names to. -/
structure Platform where
  production : Bool
  fold : List Char → Name
  fold_ascii : ∀ n, (∀ c ∈ n, c.toNat < 128) → fold n = n.map Char.toUpper
  entries : Bytes → List Entry
  parseManifest : Bytes → Option RecoveryManifest
  sha256 : Bytes → Hash
  /-- `cosign2::Header::parse`, for the known signers -/
  parse : Bytes → Option Header
  /-- `cosign2::Header::DEFAULT_SIZE` -/
  headerSize : Nat

/-! ## 2. Names -/

abbrev TarPath := List (List Char)

/-- `file_path.split('/')` -/
def pathParts (name : List Char) : TarPath := name.splitOn '/'

inductive Location where
  | system
  | boot
deriving DecidableEq, Repr

/-- The names of the binaries: `app.bin`, `recovery.bin`, `boot.bin` and `boot.cip`. -/
inductive Binary where
  | app
  | recovery
  | bootBin
  | bootCip
deriving DecidableEq, Repr

def Binary.fileName : Binary → List Char
  | .app => "app.bin".toList
  | .recovery => "recovery.bin".toList
  | .bootBin => "boot.bin".toList
  | .bootCip => "boot.cip".toList

/-- What `tar_verify` takes an entry for. -/
inductive Kind where
  | app
  | asset (location : Location)
  | bootloader (binary : Binary)
  | os (binary : Binary)
  | manifest
  | other
deriving DecidableEq, Repr

def isAppDir (parts : TarPath) : Bool :=
  parts[1]? = some "keyos".toList && parts[2]? = some "apps".toList

def classify (parts : TarPath) : Kind :=
  if isAppDir parts && ".elf".toList.isSuffixOf (parts.getLastD []) then .app
  else if isAppDir parts && parts[4]? = some "resources".toList then .asset .system
  else if parts[1]? = some "keyos".toList && parts[2]? = some "common".toList then .asset .system
  else if parts[1]? = some "blassets".toList || parts[1]? = some "common-boot".toList then
    .asset .boot
  else if parts.getLastD [] = Binary.bootBin.fileName then .bootloader .bootBin
  else if parts.getLastD [] = Binary.bootCip.fileName then .bootloader .bootCip
  else if parts.getLastD [] = Binary.recovery.fileName then .os .recovery
  else if parts.getLastD [] = Binary.app.fileName then .os .app
  else if parts[1]? = some "manifest.json".toList then .manifest
  else .other

def isVersionNumber (version : List Char) : Bool := version.count '.' = 2

/-! ## 3. Archives -/

structure ValidArchive where
  version : List Char
  apps : List TarPath
  assets : List (TarPath × Location)
  osBinary : Binary
  bootloader : Option Binary
  manifest : RecoveryManifest
deriving DecidableEq

/-- What `tar_verify` has found so far. -/
structure Scan where
  version : Option (List Char)
  apps : List TarPath
  assets : List (TarPath × Location)
  osBinary : Option Binary
  bootloader : Option Binary
  manifest : Option RecoveryManifest

variable (P : Platform)

def verifyManifestFile (version : Option (List Char)) (data : Bytes) : Option RecoveryManifest :=
  if data.length < P.headerSize then none
  else
    match P.parse data with
    | none => none
    | some header =>
      if P.production && header.trust = .untrusted then none
      else if version ≠ some header.version then none
      else P.parseManifest (data.drop P.headerSize)

/-- The first name that looks like a version is the version. -/
def Scan.noteVersion (scan : Scan) (parts : TarPath) : Scan :=
  match scan.version with
  | some _ => scan
  | none => if isVersionNumber (parts.headD []) then { scan with version := parts.head? } else scan

def scanEntry (scan : Scan) (entry : Entry) : Option Scan :=
  if entry.isFile = false then some scan
  else
    let parts := pathParts entry.name
    let scan := scan.noteVersion parts
    match classify parts with
    | .app => some { scan with apps := scan.apps ++ [parts.dropLast] }
    | .asset location => some { scan with assets := scan.assets ++ [(parts, location)] }
    | .bootloader binary => some { scan with bootloader := some binary }
    | .os binary => some { scan with osBinary := some binary }
    | .manifest =>
      match verifyManifestFile P scan.version entry.data with
      | none => none
      | some manifest => some { scan with manifest := some manifest }
    | .other => some scan

def emptyScan : Scan := ⟨none, [], [], none, none, none⟩

/-- An archive that cannot be read to its end is refused. -/
def tarVerify (fault : Bool) (archive : Bytes) : Option ValidArchive :=
  if fault then none
  else
    match (P.entries archive).foldlM (scanEntry P) emptyScan with
    | none => none
    | some scan =>
      match scan.manifest, scan.version, scan.osBinary with
      | some manifest, some version, some osBinary =>
        some ⟨version, scan.apps, scan.assets, osBinary, scan.bootloader, manifest⟩
      | _, _, _ => none

/-- The first entry of this name, whatever it is. -/
def tarFind (archive : Bytes) (path : TarPath) : Option Bytes :=
  ((P.entries archive).find? fun entry => pathParts entry.name = path).map Entry.data

def verifyManifestHash (manifest : RecoveryManifest) (path : TarPath) (hash : Hash) : Bool :=
  match manifest.files.find? fun file => pathParts file.name = path with
  | none => false
  | some file => file.hash = hash.toList

/-- `verify_cosign2` and `convert_cosign2_header` -/
def verifyCosign2 (data : Bytes) : Option Header :=
  match P.parse data with
  | none => none
  | some header => if P.production && header.trust ≠ .fullyTrusted then none else some header

/-! ## 4. Places -/

/-- `!s.is_empty() && *s != "." && *s != ".."` -/
def isPathPart (part : List Char) : Bool := part ≠ [] && part ≠ ['.'] && part ≠ ['.', '.']

/-- `path_of`: empty components and dots are dropped. -/
def fsPath (parts : TarPath) : Path := (parts.filter isPathPart).map P.fold

/-- The path of a binary in the archive -/
def binaryTarPath (version : List Char) : Binary → TarPath
  | .app => [version, "keyos".toList, Binary.app.fileName]
  | binary => [version, binary.fileName]

def appTarPathToFsDir (app : TarPath) : Option TarPath :=
  match app.drop 1 with
  | keyos :: apps :: part :: parts =>
    if keyos = "keyos".toList && apps = "apps".toList then some (keyos :: apps :: part :: parts)
    else none
  | _ => none

def assetTarPathToFsPath (asset : TarPath) (location : Location) : TarPath :=
  match location with
  | .boot =>
    match asset.drop 1 with
    | [] => []
    | part :: parts =>
      if part = "common-boot".toList then "common".toList :: parts else part :: parts
  | .system =>
    if "keyos".toList ∈ asset.drop 1 then asset.drop 1 else "keyos".toList :: asset.drop 1

def rootDepth (parts : TarPath) (location : Location) : Nat :=
  match location with
  | .boot => 1
  | .system =>
    if parts[0]? = some "keyos".toList && parts[1]? = some "apps".toList &&
        parts[3]? = some "resources".toList then 4
    else 2

def assetFsPathToWipeRoot (parts : TarPath) (location : Location) : Option TarPath :=
  let root := parts.take (rootDepth parts location)
  if root = [] || root = [[]] then none else some root

end Recovery
