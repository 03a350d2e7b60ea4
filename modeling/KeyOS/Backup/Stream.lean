import KeyOS.Lib.ByteStream

/-!
# The v2 backup stream

A backup is written in chunks of at most 64 KiB, each encrypted and authenticated together
with its header. The header holds a sequence number, which is also part of the nonce, and a
length; a chunk of length 0 is the end of the stream.
-/

namespace Backup.V2

open ByteStream

/-! ## 1. Chunks -/

def chunkSize : Nat := 64 * 1024

def tagSize : Nat := 16

/-- `b"KEYOSBK2"` -/
def streamPrefix : List UInt8 := [0x4b, 0x45, 0x59, 0x4f, 0x53, 0x42, 0x4b, 0x32]

abbrev Nonce := Fin 12 → UInt8

structure ChunkHeader where
  seq : Nat
  len : Nat
deriving DecidableEq, Repr

namespace ChunkHeader

def size : Nat := 8

def toBytes (h : ChunkHeader) : List UInt8 := le 4 h.seq ++ le 4 h.len

def fromBytes (bytes : List UInt8) : ChunkHeader := ⟨ofLe (bytes.take 4), ofLe (bytes.drop 4)⟩

def newEof (seq : Nat) : ChunkHeader := ⟨seq, 0⟩

def isEof (h : ChunkHeader) : Bool := h.len = 0

/-- The sequence number goes into the last four bytes of the nonce. -/
def iv (h : ChunkHeader) (ivBase : Nonce) : Nonce := fun i =>
  if i.val < 8 then ivBase i else ivBase i ^^^ (be 4 h.seq).getD (i.val - 8) 0

end ChunkHeader

/-- An authenticated cipher under the key of the backup. -/
structure CryptoAdapter where
  /-- Nonce, header and chunk give the encrypted chunk and the tag. -/
  encryptChunk : Nonce → List UInt8 → List UInt8 → List UInt8 × List UInt8
  /-- Nonce, header, encrypted chunk and tag give the chunk, if the tag is right. -/
  decryptChunk : Nonce → List UInt8 → List UInt8 → List UInt8 → Option (List UInt8)
  length_encrypt : ∀ iv aad chunk, (encryptChunk iv aad chunk).1.length = chunk.length
  length_tag : ∀ iv aad chunk, (encryptChunk iv aad chunk).2.length = tagSize
  length_decrypt : ∀ iv aad chunk tag plain,
    decryptChunk iv aad chunk tag = some plain → plain.length = chunk.length

/-- One call of `encrypt_chunk` and what it gives. -/
structure Sealed where
  iv : Nonce
  aad : List UInt8
  plain : List UInt8
  chunk : List UInt8
  tag : List UInt8

/-- The bytes of the chunk in the stream. -/
def Sealed.bytes (s : Sealed) : List UInt8 := s.aad ++ s.chunk ++ s.tag

variable (c : CryptoAdapter)

def sealChunk (ivBase : Nonce) (header : ChunkHeader) (plain : List UInt8) : Sealed :=
  let r := c.encryptChunk (header.iv ivBase) header.toBytes plain
  ⟨header.iv ivBase, header.toBytes, plain, r.1, r.2⟩

/-! ## 2. The writer -/

structure EncryptingWriter where
  /-- What has been written to the inner writer. -/
  inner : List UInt8
  ivBase : Nonce
  counter : Nat
  buffer : List UInt8
  /-- What has been encrypted, in order. -/
  encrypted : List Sealed

namespace EncryptingWriter

/-- The nonce base is a draw of the random number generator. -/
def new (ivBase : Nonce) : EncryptingWriter :=
  ⟨streamPrefix ++ List.ofFn ivBase, ivBase, 0, [], []⟩

/-- Encrypt and write the buffer. The counter is a `u32`. -/
def writeChunk (w : EncryptingWriter) : EncryptingWriter :=
  let s := sealChunk c w.ivBase ⟨w.counter, w.buffer.length⟩ w.buffer
  { w with
    inner := w.inner ++ s.aad ++ s.chunk ++ s.tag
    counter := (w.counter + 1) % 2 ^ 32
    buffer := []
    encrypted := w.encrypted ++ [s] }

/-- How many bytes were taken, and the writer after that. -/
def write (w : EncryptingWriter) (buf : List UInt8) : Nat × EncryptingWriter :=
  if w.buffer.length + buf.length < chunkSize then
    (buf.length, { w with buffer := w.buffer ++ buf })
  else
    let toFill := chunkSize - w.buffer.length
    (toFill, writeChunk c { w with buffer := w.buffer ++ buf.take toFill })

def flush (w : EncryptingWriter) : EncryptingWriter :=
  if w.buffer.length ≠ 0 then writeChunk c w else w

/-- The rest of the buffer, and the chunk that ends the stream. -/
def finish (w : EncryptingWriter) : EncryptingWriter :=
  let w := if w.buffer.length ≠ 0 then writeChunk c w else w
  let s := sealChunk c w.ivBase (.newEof w.counter) []
  { w with inner := w.inner ++ s.aad ++ s.tag, encrypted := w.encrypted ++ [s] }

end EncryptingWriter

/-- A call on the writer. -/
inductive Op where
  | write (buf : List UInt8)
  | flush

/-- The calls on the writer, and the bytes that they have taken. -/
def EncryptingWriter.run : List Op → EncryptingWriter → EncryptingWriter × List UInt8
  | [], w => (w, [])
  | .write buf :: ops, w =>
    let (n, w) := w.write c buf
    let (w, written) := EncryptingWriter.run ops w
    (w, buf.take n ++ written)
  | .flush :: ops, w => EncryptingWriter.run ops (w.flush c)

/-- The finished stream of the calls. -/
def finished (ivBase : Nonce) (ops : List Op) : EncryptingWriter :=
  ((EncryptingWriter.run c ops (.new ivBase)).1).finish c

def written (ivBase : Nonce) (ops : List Op) : List UInt8 :=
  (EncryptingWriter.run c ops (.new ivBase)).2

/-! ## 3. The reader -/

inductive IoError where
  | unexpectedEof
  | invalidData
  | other
deriving DecidableEq, Repr

structure DecryptingReader where
  inner : List UInt8
  ivBase : Nonce
  counter : Nat
  /-- The valid part of the buffer. -/
  buffer : List UInt8
  bufferPos : Nat
  finished : Bool

namespace DecryptingReader

def new (inner : List UInt8) : Except IoError DecryptingReader :=
  match readExact streamPrefix.length inner with
  | none => .error .unexpectedEof
  | some (bytes, inner) =>
    if bytes ≠ streamPrefix then .error .invalidData
    else match readExact 12 inner with
      | none => .error .unexpectedEof
      | some (ivBase, inner) => .ok ⟨inner, fun i => ivBase.getD i 0, 0, [], 0, false⟩

/-- As many buffered bytes as `n` and the buffer allow. -/
def copyBuffered (r : DecryptingReader) (n : Nat) : List UInt8 × DecryptingReader :=
  let toCopy := min (r.buffer.length - r.bufferPos) n
  ((r.buffer.drop r.bufferPos).take toCopy, { r with bufferPos := r.bufferPos + toCopy })

/-- A read into a buffer of `n` bytes. -/
def read (r : DecryptingReader) (n : Nat) : Except IoError (List UInt8) × DecryptingReader :=
  if n = 0 then (.ok [], r)
  else if r.bufferPos < r.buffer.length then
    let (bytes, r) := r.copyBuffered n
    (.ok bytes, r)
  else if r.finished then (.ok [], r)
  else match readExact ChunkHeader.size r.inner with
    | none => (.error .unexpectedEof, { r with inner := [] })
    | some (headerBytes, inner) =>
      let header := ChunkHeader.fromBytes headerBytes
      if header.seq ≠ r.counter then (.error .invalidData, { r with inner := inner })
      else if chunkSize < header.len then (.error .invalidData, { r with inner := inner })
      else if header.isEof then
        match readExact tagSize inner with
        | none => (.error .unexpectedEof, { r with inner := [] })
        | some (tag, inner) =>
          match c.decryptChunk (header.iv r.ivBase) headerBytes [] tag with
          | none => (.error .other, { r with inner := inner })
          | some _ => (.ok [], { r with inner := inner, finished := true })
      else match readExact header.len inner with
        | none => (.error .unexpectedEof, { r with inner := [] })
        | some (chunk, inner) =>
          match readExact tagSize inner with
          | none => (.error .unexpectedEof, { r with inner := [] })
          | some (tag, inner) =>
            match c.decryptChunk (header.iv r.ivBase) headerBytes chunk tag with
            | none => (.error .other, { r with inner := inner })
            | some plain =>
              let (bytes, r) := copyBuffered { r with
                inner := inner
                counter := (r.counter + 1) % 2 ^ 32
                buffer := plain
                bufferPos := 0 } n
              (.ok bytes, r)

/-- Reads with buffers of the given sizes, up to the first error: what they deliver, the error,
and the reader after them. -/
def reads : List Nat → DecryptingReader →
    List (List UInt8) × Option IoError × DecryptingReader
  | [], r => ([], none, r)
  | n :: sizes, r =>
    match r.read c n with
    | (.error e, r) => ([], some e, r)
    | (.ok bytes, r) =>
      let (pieces, e, r) := reads sizes r
      (bytes :: pieces, e, r)

/-- An upper bound on how much is left to read. -/
def left (r : DecryptingReader) : Nat := r.inner.length + (r.buffer.length - r.bufferPos)

/-- The buffer of `std::io::copy`. -/
def copyBufLen : Nat := 8 * 1024

def drainFor : Nat → DecryptingReader → Except IoError DecryptingReader
  | 0, r => .ok r
  | rounds + 1, r =>
    match r.read c copyBufLen with
    | (.error e, _) => .error e
    | (.ok bytes, r) => if bytes = [] then .ok r else drainFor rounds r

/-- `std::io::copy` to a sink: read until nothing comes. -/
def drain (r : DecryptingReader) : Except IoError DecryptingReader := drainFor c (r.left + 1) r

end DecryptingReader

/-! ## 4. Restoring -/

/-- `extract_backup`, as far as the stream goes: it reads in an order of its own, depending on what
it has read, returns the errors of the reads, and ends with a value or an error. -/
inductive Extract (α : Type) where
  | done (result : Option α)
  | read (n : Nat) (next : List UInt8 → Extract α)

inductive Error where
  | io (e : IoError)
  | extract
deriving DecidableEq, Repr

def Extract.run {α : Type} : Extract α → DecryptingReader → Except Error (α × DecryptingReader)
  | .done none, _ => .error .extract
  | .done (some a), r => .ok (a, r)
  | .read n next, r =>
    match r.read c n with
    | (.error e, _) => .error (.io e)
    | (.ok bytes, r) => Extract.run (next bytes) r

/-- The extraction, and then the rest of the stream, up to the end marker. -/
def restoreBackup {α : Type} (extract : Extract α) (backupFile : List UInt8) : Except Error α :=
  match DecryptingReader.new backupFile with
  | .error e => .error (.io e)
  | .ok reader =>
    match extract.run c reader with
    | .error e => .error e
    | .ok (metadata, reader) =>
      match reader.drain c with
      | .error e => .error (.io e)
      | .ok _ => .ok metadata

end Backup.V2
