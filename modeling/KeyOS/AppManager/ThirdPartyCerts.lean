import KeyOS.Lib.SortedMap

/-!
# Publisher certificates

The certificate files are the allow list. The store keeps in memory what `load_certificates` made
of the files, and changes both when a certificate is imported or removed. Opening a file for
writing does not truncate it; opening, writing, truncating, flushing and removing can each fail,
and a write that fails has written some prefix.

The directory holds files only, and nobody but the store changes it. The time of addition is left
out.
-/

namespace AppManager

abbrev Bytes := List UInt8

/-! ## 1. Certificates -/

structure ThirdPartyCertificateInfo where
  name : String
  company : String
  contactEmail : String
  supportUrl : String
  publicKey : String
  fingerprint : String
  shortFingerprint : String
  notBeforeUnixSeconds : Nat
  notAfterUnixSeconds : Nat
  serialNumber : String
  issuer : String
  subject : String
  basicConstraints : String
  keyUsage : String
  extendedKeyUsage : String
deriving DecidableEq

namespace ThirdPartyCertificateInfo

def hasExpired (now : Nat) (cert : ThirdPartyCertificateInfo) : Bool :=
  cert.notAfterUnixSeconds < now

def isNotYetValid (now : Nat) (cert : ThirdPartyCertificateInfo) : Bool :=
  now < cert.notBeforeUnixSeconds

end ThirdPartyCertificateInfo

inductive GeneralName where
  | rfc822Name (email : String)
  | uniformResourceIdentifier (uri : String)
  | other
deriving DecidableEq

structure Extension where
  extnId : String
  critical : Bool
deriving DecidableEq

inductive Version where
  | v1
  | v2
  | v3
deriving DecidableEq

/-- A decoded certificate. An extension that is looked up may be missing or fail to decode, which
is `none` outside. -/
structure Certificate where
  version : Version
  serialNumber : String
  issuer : String
  notBefore : Nat
  notAfter : Nat
  subject : String
  /-- The attributes of the subject, with their values where these are strings. -/
  subjectAttributes : List (String × Option String)
  algorithm : String
  /-- The parameters of the algorithm, when they are an object identifier. -/
  curve : Option String
  subjectPublicKey : Option Bytes
  extensions : List Extension
  subjectAltName : Option (Option (List GeneralName))
  basicConstraints : Option (Option Bool)
  keyUsage : Option (Option (List String))
  extendedKeyUsage : Option (Option (List String))
deriving DecidableEq

/-- The X.509 and the secp256k1 library, and the fingerprint of a compressed key. -/
structure X509 where
  /-- `from_pem`, else `from_der` -/
  decode : Bytes → Option Certificate
  toDer : Certificate → Option Bytes
  compressedPublicKey : Bytes → Option Bytes
  publisherFingerprints : Bytes → Option (String × String)

/-- DER is canonical, so that what was decoded encodes to a certificate that is the same and no
longer. -/
def X509.Lawful (x : X509) : Prop :=
  ∀ bytes certificate der, x.decode bytes = some certificate → x.toDer certificate = some der →
    x.decode der = some certificate ∧ der.length ≤ bytes.length

def hexDigit (n : Nat) : Char := "0123456789abcdef".toList.getD n '0'

def hexEncode (bytes : Bytes) : String :=
  String.ofList (bytes.flatMap fun b => [hexDigit (b.toNat / 16), hexDigit (b.toNat % 16)])

def subjectAttribute (c : Certificate) (oid : String) : Option String :=
  (c.subjectAttributes.find? fun a => a.1 = oid).bind Prod.snd

/-- The first of each kind counts, and an address in the subject before any here. -/
def contactOf (email url : String) : List GeneralName → String × String
  | [] => (email, url)
  | .rfc822Name e :: names => contactOf (if email = "" then e else email) url names
  | .uniformResourceIdentifier u :: names => contactOf email (if url = "" then u else url) names
  | .other :: names => contactOf email url names

def commonName : String := "2.5.4.3"

def organizationName : String := "2.5.4.10"

def emailAddress : String := "1.2.840.113549.1.9.1"

def idKpCodeSigning : String := "1.3.6.1.5.5.7.3.3"

def idEcPublicKey : String := "1.2.840.10045.2.1"

def secp256k1 : String := "1.3.132.0.10"

/-- Basic constraints, key usage, extended key usage and alternative names. -/
def understood : List String := ["2.5.29.19", "2.5.29.15", "2.5.29.37", "2.5.29.17"]

def rejectUnknownCriticalExtensions (c : Certificate) : Option Unit :=
  if c.extensions.any fun e => e.critical && !understood.contains e.extnId then none else some ()

def basicConstraintsText (ca : Bool) : String := if ca then "CA:TRUE" else "CA:FALSE"

def extendedKeyUsageText (oids : List String) : String :=
  ", ".intercalate (oids.map fun oid => if oid = idKpCodeSigning then "Code Signing" else oid)

def maxCertificateBytes : Nat := 16 * 1024

/-- The checks and the texts of a decoded certificate. -/
def certificateInfo (x : X509) (c : Certificate) : Option ThirdPartyCertificateInfo := do
  if c.version ≠ .v3 then none
  rejectUnknownCriticalExtensions c
  if c.notAfter < c.notBefore then none
  let name ← subjectAttribute c commonName
  let company ← subjectAttribute c organizationName
  let email := (subjectAttribute c emailAddress).getD ""
  let alternatives ← c.subjectAltName
  let (contactEmail, supportUrl) := contactOf email "" (alternatives.getD [])
  if c.algorithm ≠ idEcPublicKey then none
  let curve ← c.curve
  if curve ≠ secp256k1 then none
  let compressed ← x.compressedPublicKey (← c.subjectPublicKey)
  let (fingerprint, shortFingerprint) ← x.publisherFingerprints compressed
  let ca ← (← c.basicConstraints)
  if ca then none
  let keyUsage ← (← c.keyUsage)
  if !keyUsage.contains "Digital Signature" then none
  let extendedKeyUsage ← (← c.extendedKeyUsage)
  if !extendedKeyUsage.contains idKpCodeSigning then none
  some
    { name, company, contactEmail, supportUrl
      publicKey := hexEncode compressed
      fingerprint, shortFingerprint
      notBeforeUnixSeconds := c.notBefore
      notAfterUnixSeconds := c.notAfter
      serialNumber := c.serialNumber
      issuer := c.issuer
      subject := c.subject
      basicConstraints := basicConstraintsText ca
      keyUsage := ", ".intercalate keyUsage
      extendedKeyUsage := extendedKeyUsageText extendedKeyUsage }

def parseThirdPartyCertificate (x : X509) (certificateBytes : Bytes) :
    Option ThirdPartyCertificateInfo :=
  if maxCertificateBytes < certificateBytes.length then none
  else (x.decode certificateBytes).bind (certificateInfo x)

/-- Re-encode an accepted certificate as DER. -/
def certificateDer (x : X509) (certificateBytes : Bytes) : Option Bytes :=
  (x.decode certificateBytes).bind x.toDer

/-! ## 2. The directory -/

/-- The files of the certificate directory by name. -/
abbrev Dir := SortedMap String Bytes

def certificateSuffix : String := ".der"

def certificateFileName (fingerprint : String) : String := fingerprint ++ certificateSuffix

/-- Creating does not truncate. -/
def createFile (dir : Dir) (name : String) : Dir := dir.insert name ((dir.get? name).getD [])

/-- The bytes are written at the start of the file. -/
def overwriteFile (dir : Dir) (name : String) (data : Bytes) : Dir :=
  dir.insert name (data ++ ((dir.get? name).getD []).drop data.length)

def truncateFile (dir : Dir) (name : String) (length : Nat) : Dir :=
  dir.insert name (((dir.get? name).getD []).take length)

/-- What becomes of the steps that write a file. -/
structure WriteFates where
  opens : Bool
  /-- How many bytes a `write_all` that fails has written. -/
  failsAfter : Option Nat
  truncates : Bool

inductive CandidateWriteError where
  | unmodified
  | modified
deriving DecidableEq

/-- Open with `CREATE`, write, truncate, with the error of the first step and of the others. -/
def writeFile {ε : Type} (unmodified modified : ε) (fates : WriteFates) (dir : Dir)
    (name : String) (data : Bytes) : Except ε Unit × Dir :=
  if fates.opens then
    let dir := createFile dir name
    match fates.failsAfter with
    | some n => (.error modified, overwriteFile dir name (data.take n))
    | none =>
      let dir := overwriteFile dir name data
      if fates.truncates then (.ok (), truncateFile dir name data.length)
      else (.error modified, dir)
  else (.error unmodified, dir)

def writeCertificate (fates : WriteFates) (dir : Dir) (name : String) (certificateDer : Bytes) :
    Except Unit Unit × Dir :=
  writeFile () () fates dir name certificateDer

def writeCandidateCertificate (fates : WriteFates) (dir : Dir) (name : String)
    (certificateDer : Bytes) : Except CandidateWriteError Unit × Dir :=
  writeFile .unmodified .modified fates dir name certificateDer

/-! ## 3. Loading -/

def endsWith (s suffix : String) : Bool := suffix.toList.isSuffixOf s.toList

/-- A file is loaded only under the name of the key that it holds. -/
def loadCertificate (x : X509) (name : String) (bytes : Bytes) :
    Option ThirdPartyCertificateInfo :=
  if maxCertificateBytes < bytes.length then none
  else
    match parseThirdPartyCertificate x bytes with
    | none => none
    | some cert => if name ≠ certificateFileName cert.fingerprint then none else some cert

/-- One entry of the directory. -/
def loadEntry (x : X509) (certs : SortedMap String ThirdPartyCertificateInfo)
    (entry : String × Bytes) : SortedMap String ThirdPartyCertificateInfo :=
  if endsWith entry.1 certificateSuffix then
    match loadCertificate x entry.1 entry.2 with
    | some cert => certs.insert cert.fingerprint cert
    | none => certs
  else certs

def loadCertificates (x : X509) (dir : Dir) : SortedMap String ThirdPartyCertificateInfo :=
  dir.entries.foldl (loadEntry x) .empty

/-! ## 4. Storing -/

/-- What becomes of the steps of an import. -/
structure ImportFates where
  readsPrevious : Bool
  candidate : WriteFates
  flushes : Bool
  removes : Bool
  restore : WriteFates
  restoreFlushes : Bool

/-- Whether the previous certificate is lost. -/
def recoverFailedCertificateWrite (fates : ImportFates) (dir : Dir) (name : String)
    (previousCertificate : Option Bytes) (hadPreviousCertificate : Bool) : Bool × Dir :=
  if fates.removes then
    let dir := dir.erase name
    match previousCertificate with
    | none => (hadPreviousCertificate, dir)
    | some previousCertificate =>
      match writeCertificate fates.restore dir name previousCertificate with
      | (.error (), dir) => (true, dir)
      | (.ok (), dir) => (!fates.restoreFlushes, dir)
  else (false, dir)

/-- The error says whether the previous certificate is lost. -/
def storeCertificate (x : X509) (fates : ImportFates) (dir : Dir) (fingerprint : String)
    (certificateBytes : Bytes) (previousCertificate : Option Bytes)
    (hadPreviousCertificate : Bool) : Except Bool Unit × Dir :=
  let name := certificateFileName fingerprint
  match certificateDer x certificateBytes with
  | none => (.error false, dir)
  | some der =>
    match writeCandidateCertificate fates.candidate dir name der with
    | (.error .unmodified, dir) => (.error false, dir)
    | (.error .modified, dir) =>
      let recovered :=
        recoverFailedCertificateWrite fates dir name previousCertificate hadPreviousCertificate
      (.error recovered.1, recovered.2)
    | (.ok (), dir) =>
      if fates.flushes then (.ok (), dir)
      else
        let recovered :=
          recoverFailedCertificateWrite fates dir name previousCertificate hadPreviousCertificate
        (.error recovered.1, recovered.2)

inductive ThirdPartyCertificateError where
  | invalid
  | expired (notAfterUnixSeconds : Nat)
  | notYetValid (notBeforeUnixSeconds : Nat)
  | fingerprintMismatch
  | internal
deriving DecidableEq

structure ImportError where
  error : ThirdPartyCertificateError
  publisherSetChanged : Bool
deriving DecidableEq

def ImportError.unchanged (error : ThirdPartyCertificateError) : ImportError := ⟨error, false⟩

/-- The certificates in memory, and the directory. -/
structure ThirdPartyCertificateStore where
  dir : Dir
  certs : SortedMap String ThirdPartyCertificateInfo

def preview (x : X509) (now : Nat) (certificateBytes : Bytes) :
    Except ThirdPartyCertificateError ThirdPartyCertificateInfo :=
  match parseThirdPartyCertificate x certificateBytes with
  | none => .error .invalid
  | some cert =>
    if cert.hasExpired now then .error (.expired cert.notAfterUnixSeconds)
    else if cert.isNotYetValid now then .error (.notYetValid cert.notBeforeUnixSeconds)
    else .ok cert

namespace ThirdPartyCertificateStore

/-- A rollback copy of the file of a certificate that is listed. -/
def readPrevious (fates : ImportFates) (s : ThirdPartyCertificateStore) (fingerprint : String) :
    Option Bytes :=
  if (s.certs.get? fingerprint).isSome && fates.readsPrevious then
    s.dir.get? (certificateFileName fingerprint)
  else none

/-- `import` -/
def importCertificate (x : X509) (now : Nat) (fates : ImportFates) (certificateBytes : Bytes)
    (expectedFingerprint : String) (s : ThirdPartyCertificateStore) :
    Except ImportError ThirdPartyCertificateInfo × ThirdPartyCertificateStore :=
  match preview x now certificateBytes with
  | .error e => (.error (.unchanged e), s)
  | .ok cert =>
    if cert.fingerprint ≠ expectedFingerprint then (.error (.unchanged .fingerprintMismatch), s)
    else
      match storeCertificate x fates s.dir cert.fingerprint certificateBytes
          (s.readPrevious fates cert.fingerprint) (s.certs.get? cert.fingerprint).isSome with
      | (.error previousCertificateLost, dir) =>
        let changed := previousCertificateLost && (s.certs.get? cert.fingerprint).isSome
        (.error ⟨.internal, changed⟩,
          ⟨dir, if previousCertificateLost then s.certs.erase cert.fingerprint else s.certs⟩)
      | (.ok (), dir) => (.ok cert, ⟨dir, s.certs.insert cert.fingerprint cert⟩)

/-- That the file is missing already is no error. -/
def remove (removes : Bool) (fingerprint : String) (s : ThirdPartyCertificateStore) :
    Except Unit Bool × ThirdPartyCertificateStore :=
  if (s.certs.get? fingerprint).isNone then (.ok false, s)
  else if removes then
    (.ok true, ⟨s.dir.erase (certificateFileName fingerprint), s.certs.erase fingerprint⟩)
  else (.error (), s)

/-- `new` -/
def load (x : X509) (dir : Dir) : ThirdPartyCertificateStore := ⟨dir, loadCertificates x dir⟩

end ThirdPartyCertificateStore

/-! ## 5. Calls -/

inductive Call where
  | importCertificate (now : Nat) (fates : ImportFates) (certificateBytes : Bytes)
      (expectedFingerprint : String)
  | remove (removes : Bool) (fingerprint : String)

namespace ThirdPartyCertificateStore

def step (x : X509) (s : ThirdPartyCertificateStore) : Call → ThirdPartyCertificateStore
  | .importCertificate now fates bytes expected =>
    (s.importCertificate x now fates bytes expected).2
  | .remove removes fingerprint => (s.remove removes fingerprint).2

def run (x : X509) (s : ThirdPartyCertificateStore) (calls : List Call) :
    ThirdPartyCertificateStore :=
  calls.foldl (step x) s

end ThirdPartyCertificateStore

end AppManager
