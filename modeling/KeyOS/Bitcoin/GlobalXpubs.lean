import KeyOS.Lib.Exec
import KeyOS.Lib.ByteStream
import KeyOS.Lib.Slices

/-!
# The versions of the global xpubs of a PSBT

A PSBT begins with a map, of keys and values that each follow their length. A key of the first type
is an extended public key, and its version may be one of SLIP-132, which the library for PSBTs does
not know. Before parsing these versions are replaced in the bytes by the standard ones, and after
signing they are put back, by way of a list of what was replaced.

Sizes are 32 bits wide on the device. What the library does with a PSBT is a parameter.
-/

namespace Bitcoin.Xpubs

open Exec Slices

/-! ## 1. Sizes -/

def PSBT_MAGIC : List UInt8 := [0x70, 0x73, 0x62, 0x74, 0xff]

def GLOBAL_XPUB_KEY_TYPE : UInt8 := 1

def SERIALIZED_XPUB_LEN : Nat := 78

def SERIALIZED_XPUB_DATA_LEN : Nat := 74

/-- An array of bytes -/
abbrev Bytes (n : Nat) := { bytes : List UInt8 // bytes.length = n }

abbrev Version := Bytes 4

abbrev KeyData := Bytes SERIALIZED_XPUB_DATA_LEN

def XPUB_VERSION : Version := ⟨[0x04, 0x88, 0xb2, 0x1e], rfl⟩
def TPUB_VERSION : Version := ⟨[0x04, 0x35, 0x87, 0xcf], rfl⟩
def MULTISIG_YPUB_VERSION : Version := ⟨[0x02, 0x95, 0xb4, 0x3f], rfl⟩
def MULTISIG_ZPUB_VERSION : Version := ⟨[0x02, 0xaa, 0x7e, 0xd3], rfl⟩
def MULTISIG_UPUB_VERSION : Version := ⟨[0x02, 0x42, 0x89, 0xef], rfl⟩
def MULTISIG_VPUB_VERSION : Version := ⟨[0x02, 0x57, 0x54, 0x83], rfl⟩

inductive Error where
  | missingCompactSize
  | compactSizeOverflow
  | truncatedCompactSize
  | nonCanonicalCompactSize
  | compactSizeDoesNotFit
  | keyLengthOverflow
  | truncatedKey
  | valueLengthOverflow
  | truncatedValue
  deriving DecidableEq, Repr

inductive Panic where
  | overflow
  | index
  | tryInto
  /-- More rounds than there are bytes -/
  | rounds
  deriving DecidableEq, Repr

/-- A PSBT that is rewritten, and what the replacement has collected -/
structure Rewriting (σ : Type) where
  psbt : List UInt8
  cursor : Nat
  acc : σ

variable {σ : Type}

abbrev RewriteM (σ : Type) := Prog (Rewriting σ) Panic Error

/-- A number that is a `usize` -/
def asUsize (x : Nat) : Option Nat := if x < 2 ^ 32 then some x else none

def getRange (bytes : List UInt8) (first last : Nat) : Option (List UInt8) :=
  if first ≤ last ∧ last ≤ bytes.length then some (slice bytes first (last - first)) else none

def tryInto (n : Nat) (bytes : List UInt8) : Option (Bytes n) :=
  if h : bytes.length = n then some ⟨bytes, h⟩ else none

def setCursor (cursor : Nat) : RewriteM σ Unit := Prog.modify fun s => { s with cursor }

/-- The bytes after a marker, and the least number they are for -/
def widths (marker : UInt8) : Nat × Nat :=
  if marker = 0xfd then (2, 0xfd) else if marker = 0xfe then (4, 0x10000) else (8, 0x100000000)

def readCompactSize : RewriteM σ Nat := do
  let s ← Prog.get
  let marker ← Prog.okOr .missingCompactSize s.psbt[s.cursor]?
  let cursor ← Prog.expect .overflow (asUsize (s.cursor + 1))
  setCursor cursor
  if marker ≤ 0xfc then pure marker.toNat
  else do
    let last ← Prog.okOr .compactSizeOverflow (asUsize (cursor + (widths marker).1))
    let encoded ← Prog.okOr .truncatedCompactSize (getRange s.psbt cursor last)
    setCursor last
    let value := ByteStream.ofLe encoded
    Prog.onlyIf (value < (widths marker).2) (Prog.throw .nonCanonicalCompactSize)
    Prog.okOr .compactSizeDoesNotFit (asUsize value)

/-! ## 2. Rewriting -/

abbrev Replacement (σ : Type) := Version → KeyData → σ → Option Version × σ

def rewriteKey (replacement : Replacement σ) (keyStart keyEnd : Nat) : RewriteM σ Unit := do
  let s ← Prog.get
  let version ← Prog.expect .index (getRange s.psbt (keyStart + 1) (keyStart + 5))
  let version ← Prog.expect .tryInto (tryInto 4 version)
  let keyData ← Prog.expect .index (getRange s.psbt (keyStart + 5) keyEnd)
  let keyData ← Prog.expect .tryInto (tryInto SERIALIZED_XPUB_DATA_LEN keyData)
  match replacement version keyData s.acc with
  | (some version, acc) =>
    Prog.modify fun s => { s with psbt := splice s.psbt (keyStart + 1) version.1, acc }
  | (none, acc) => Prog.modify fun s => { s with acc }

def rewriteIfXpub (replacement : Replacement σ) (keyStart keyLen keyEnd : Nat) : RewriteM σ Unit := do
  let s ← Prog.get
  if keyLen = SERIALIZED_XPUB_LEN + 1 then do
    let kind ← Prog.expect .index s.psbt[keyStart]?
    Prog.onlyIf (kind = GLOBAL_XPUB_KEY_TYPE) (rewriteKey replacement keyStart keyEnd)
  else pure ()

def rewriteLoop (replacement : Replacement σ) : Nat → RewriteM σ Unit
  | 0 => Prog.panic .rounds
  | rounds + 1 => do
    let keyLen ← readCompactSize
    if keyLen = 0 then pure ()
    else do
      let s ← Prog.get
      let keyStart := s.cursor
      let keyEnd ← Prog.okOr .keyLengthOverflow (asUsize (keyStart + keyLen))
      Prog.onlyIf (s.psbt.length < keyEnd) (Prog.throw .truncatedKey)
      rewriteIfXpub replacement keyStart keyLen keyEnd
      setCursor keyEnd
      let valueLen ← readCompactSize
      let s ← Prog.get
      let cursor ← Prog.okOr .valueLengthOverflow (asUsize (s.cursor + valueLen))
      setCursor cursor
      Prog.onlyIf (s.psbt.length < cursor) (Prog.throw .truncatedValue)
      rewriteLoop replacement rounds

/-- There are no more rounds than bytes. -/
def rewriteGlobalXpubVersions (replacement : Replacement σ) : RewriteM σ Unit := do
  let s ← Prog.get
  if PSBT_MAGIC.isPrefixOf s.psbt then do
    setCursor PSBT_MAGIC.length
    rewriteLoop replacement (s.psbt.length + 1)
  else pure ()

/-! ## 3. Normalizing and restoring -/

structure OriginalGlobalXpubVersion where
  keyData : KeyData
  version : Version
  deriving DecidableEq

def canonical (version : Version) : Option Version :=
  if version = MULTISIG_YPUB_VERSION ∨ version = MULTISIG_ZPUB_VERSION then some XPUB_VERSION
  else if version = MULTISIG_UPUB_VERSION ∨ version = MULTISIG_VPUB_VERSION then some TPUB_VERSION
  else none

def normalizing : Replacement (List OriginalGlobalXpubVersion) := fun version keyData originals =>
  match canonical version with
  | some canonical => (some canonical, originals ++ [{ keyData, version }])
  | none => (none, originals)

def restoring (originals : List OriginalGlobalXpubVersion) : Replacement Unit := fun _ keyData acc =>
  ((originals.find? fun original => original.keyData = keyData).map (·.version), acc)

def normalizeGlobalXpubVersions (psbt : List UInt8) :
    Outcome Panic Error Unit × Rewriting (List OriginalGlobalXpubVersion) :=
  rewriteGlobalXpubVersions normalizing { psbt, cursor := 0, acc := [] }

def restoreGlobalXpubVersions (psbt : List UInt8) (originals : List OriginalGlobalXpubVersion) :
    Outcome Panic Error Unit × Rewriting Unit :=
  rewriteGlobalXpubVersions (restoring originals) { psbt, cursor := 0, acc := () }

/-- The library for PSBTs, and what is done to the outputs of one that has been parsed -/
structure PsbtLibrary where
  Psbt : Type
  deserialize : List UInt8 → Option Psbt
  serialize : Psbt → List UInt8
  restoreNestedOutputRedeemScripts : Psbt → Psbt

inductive PsbtError where
  | normalizeGlobalXpubs (e : Error)
  | deserializePsbt
  | restoreGlobalXpubVersions (e : Error)
  deriving DecidableEq, Repr

def deserializePsbt (library : PsbtLibrary) (bytes : List UInt8) :
    Outcome Panic PsbtError (library.Psbt × List OriginalGlobalXpubVersion) :=
  match normalizeGlobalXpubVersions bytes with
  | (.ok (), s) =>
    match library.deserialize s.psbt with
    | some psbt => .ok (library.restoreNestedOutputRedeemScripts psbt, s.acc)
    | none => .err .deserializePsbt
  | (.err e, _) => .err (.normalizeGlobalXpubs e)
  | (.panic p, _) => .panic p

/-- `PsbtOrigin::serialize` -/
def serializePsbt (library : PsbtLibrary) (originals : List OriginalGlobalXpubVersion)
    (psbt : library.Psbt) : Outcome Panic PsbtError (List UInt8) :=
  match restoreGlobalXpubVersions (library.serialize psbt) originals with
  | (.ok (), s) => .ok s.psbt
  | (.err e, _) => .err (.restoreGlobalXpubVersions e)
  | (.panic p, _) => .panic p

end Bitcoin.Xpubs
