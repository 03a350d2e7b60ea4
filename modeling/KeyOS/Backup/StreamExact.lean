import KeyOS.Backup.Stream

/-!
# The chunks of a v2 backup stream

However the bytes are cut into calls, the writer makes a list of chunks out of them. The reader
follows a stream as far as it agrees with the genuine one, chunk by chunk, and only the end marker
of that one ends it.
-/

namespace Backup.V2

open ByteStream

variable (c : CryptoAdapter)

/-! ## 1. Headers and nonces -/

section Headers

theorem ChunkHeader.length_toBytes (h : ChunkHeader) : h.toBytes.length = ChunkHeader.size := by
  rw [toBytes, List.length_append, length_le, length_le]
  rfl

theorem ChunkHeader.fromBytes_toBytes {h : ChunkHeader} (hseq : h.seq < 2 ^ 32)
    (hlen : h.len < 2 ^ 32) : fromBytes h.toBytes = h := by
  unfold fromBytes toBytes
  rw [List.take_left' (length_le 4 h.seq), List.drop_left' (length_le 4 h.seq),
    ofLe_le hseq, ofLe_le hlen]

/-- The nonces of one stream tell the sequence numbers apart. -/
theorem ChunkHeader.iv_inj {h h' : ChunkHeader} {ivBase : Nonce} (hseq : h.seq < 2 ^ 32)
    (hseq' : h'.seq < 2 ^ 32) (heq : h.iv ivBase = h'.iv ivBase) : h.seq = h'.seq := by
  refine be_inj (k := 4) hseq hseq' (List.ext_getElem (by rw [length_be, length_be])
    fun j hj hj' => ?_)
  rw [length_be] at hj
  have hbyte := congrFun heq ⟨j + 8, by omega⟩
  unfold ChunkHeader.iv at hbyte
  rw [if_neg (by show ¬ j + 8 < 8; omega), if_neg (by show ¬ j + 8 < 8; omega)] at hbyte
  have hxor := UInt8.xor_right_inj _ |>.mp hbyte
  change (be 4 h.seq).getD (j + 8 - 8) 0 = (be 4 h'.seq).getD (j + 8 - 8) 0 at hxor
  rw [Nat.add_sub_cancel, List.getD_eq_getElem?_getD, List.getD_eq_getElem?_getD,
    List.getElem?_eq_getElem (by rw [length_be]; exact hj), List.getElem?_eq_getElem hj'] at hxor
  exact hxor

end Headers

/-! ## 2. What the writer makes -/

/-- The chunk with number `i`. The number is a `u32`. -/
def sealAt (ivBase : Nonce) (i : Nat) (plain : List UInt8) : Sealed :=
  sealChunk c ivBase ⟨i % 2 ^ 32, plain.length⟩ plain

/-- The chunks, numbered from `i`. -/
def sealFrom (ivBase : Nonce) : Nat → List (List UInt8) → List Sealed
  | _, [] => []
  | i, plain :: chunks => sealAt c ivBase i plain :: sealFrom ivBase (i + 1) chunks

def encode (ivBase : Nonce) (i : Nat) (chunks : List (List UInt8)) : List UInt8 :=
  (sealFrom c ivBase i chunks).flatMap Sealed.bytes

section Writer

variable {c} {ivBase : Nonce}

theorem chunkSize_pos : 0 < chunkSize := by decide

theorem sealFrom_append (i : Nat) (chunks chunks' : List (List UInt8)) :
    sealFrom c ivBase i (chunks ++ chunks')
      = sealFrom c ivBase i chunks ++ sealFrom c ivBase (i + chunks.length) chunks' := by
  induction chunks generalizing i with
  | nil => rfl
  | cons plain chunks ih =>
    rw [List.cons_append, sealFrom, ih, sealFrom, List.length_cons, List.cons_append,
      Nat.add_right_comm, Nat.add_assoc]

theorem length_sealFrom (i : Nat) (chunks : List (List UInt8)) :
    (sealFrom c ivBase i chunks).length = chunks.length := by
  induction chunks generalizing i with
  | nil => rfl
  | cons plain chunks ih => rw [sealFrom, List.length_cons, ih, List.length_cons]

theorem mem_sealFrom {i : Nat} {chunks : List (List UInt8)} {s : Sealed}
    (h : s ∈ sealFrom c ivBase i chunks) :
    ∃ j plain, chunks[j]? = some plain ∧ s = sealAt c ivBase (i + j) plain := by
  induction chunks generalizing i with
  | nil => cases h
  | cons plain chunks ih =>
    rcases List.mem_cons.mp h with rfl | h
    · exact ⟨0, plain, rfl, rfl⟩
    · obtain ⟨j, plain', hj, rfl⟩ := ih h
      exact ⟨j + 1, plain', hj, by rw [Nat.add_assoc, Nat.add_comm 1 j]⟩

theorem sealAt_mem {i j : Nat} {chunks : List (List UInt8)} {plain : List UInt8}
    (h : chunks[j]? = some plain) :
    sealAt c ivBase (i + j) plain ∈ sealFrom c ivBase i chunks := by
  induction chunks generalizing i j with
  | nil => cases h
  | cons first chunks ih =>
    cases j with
    | zero =>
      cases h
      exact List.mem_cons_self
    | succ j =>
      refine List.mem_cons_of_mem _ ?_
      have := ih (i := i + 1) (j := j) h
      rwa [Nat.add_assoc, Nat.add_comm 1 j] at this

/-- The writer has encrypted `chunks`, and `written` is in them and in its buffer. -/
structure Writes (ivBase : Nonce) (w : EncryptingWriter) (chunks : List (List UInt8))
    (written : List UInt8) : Prop where
  base : w.ivBase = ivBase
  counter : w.counter = chunks.length % 2 ^ 32
  encrypted : w.encrypted = sealFrom c ivBase 0 chunks
  inner : w.inner = streamPrefix ++ List.ofFn ivBase ++ encode c ivBase 0 chunks
  written : written = chunks.flatten ++ w.buffer
  sizes : ∀ plain ∈ chunks, plain ≠ [] ∧ plain.length ≤ chunkSize

theorem Writes.writeChunk {w : EncryptingWriter} {chunks : List (List UInt8)}
    {written : List UInt8} (h : Writes (c := c) ivBase w chunks written) (hne : w.buffer ≠ [])
    (hle : w.buffer.length ≤ chunkSize) :
    Writes (c := c) ivBase (w.writeChunk c) (chunks ++ [w.buffer]) written := by
  have hseal : sealChunk c w.ivBase ⟨w.counter, w.buffer.length⟩ w.buffer
      = sealAt c ivBase (0 + chunks.length) w.buffer := by
    rw [h.base, h.counter, Nat.zero_add]
    rfl
  have hall : sealFrom c ivBase 0 (chunks ++ [w.buffer])
      = sealFrom c ivBase 0 chunks ++ [sealAt c ivBase (0 + chunks.length) w.buffer] :=
    sealFrom_append 0 chunks [w.buffer]
  refine ⟨h.base, ?_, ?_, ?_, ?_, ?_⟩
  · show (w.counter + 1) % 2 ^ 32 = _
    rw [h.counter, List.length_append]
    exact Nat.mod_add_mod _ _ _
  · show w.encrypted ++ [_] = _
    rw [hseal, h.encrypted, hall]
  · show w.inner ++ _ ++ _ ++ _ = _
    rw [hseal, h.inner]
    unfold encode
    rw [hall, List.flatMap_append, List.flatMap_singleton]
    simp only [Sealed.bytes, List.append_assoc]
  · rw [h.written, List.flatten_append, List.flatten_singleton]
    exact (List.append_nil _).symm
  · intro plain hplain
    rcases List.mem_append.mp hplain with hold | hnew
    · exact h.sizes plain hold
    · rw [List.mem_singleton.mp hnew]
      exact ⟨hne, hle⟩

theorem Writes.write {w : EncryptingWriter} {chunks : List (List UInt8)} {written : List UInt8}
    (h : Writes (c := c) ivBase w chunks written) (hroom : w.buffer.length < chunkSize)
    (buf : List UInt8) :
    ∃ chunks', Writes (c := c) ivBase (w.write c buf).2 chunks'
        (written ++ buf.take (w.write c buf).1) ∧
      (w.write c buf).2.buffer.length < chunkSize := by
  unfold EncryptingWriter.write
  split
  · next hfits =>
    refine ⟨chunks, ⟨h.base, h.counter, h.encrypted, h.inner, ?_, h.sizes⟩, ?_⟩
    · show written ++ buf.take buf.length = chunks.flatten ++ (w.buffer ++ buf)
      rw [List.take_length, h.written, List.append_assoc]
    · show (w.buffer ++ buf).length < chunkSize
      rw [List.length_append]
      exact hfits
  · next hfull =>
    have hlen : (w.buffer ++ buf.take (chunkSize - w.buffer.length)).length = chunkSize := by
      rw [List.length_append, List.length_take]
      omega
    have hfilled : Writes (c := c) ivBase
        { w with buffer := w.buffer ++ buf.take (chunkSize - w.buffer.length) } chunks
        (written ++ buf.take (chunkSize - w.buffer.length)) := by
      refine ⟨h.base, h.counter, h.encrypted, h.inner, ?_, h.sizes⟩
      rw [h.written, List.append_assoc]
    refine ⟨_, hfilled.writeChunk ?_ (Nat.le_of_eq hlen), chunkSize_pos⟩
    intro hnil
    rw [show w.buffer ++ buf.take (chunkSize - w.buffer.length) = [] from hnil] at hlen
    exact absurd hlen (by decide)

theorem Writes.flush {w : EncryptingWriter} {chunks : List (List UInt8)} {written : List UInt8}
    (h : Writes (c := c) ivBase w chunks written) (hroom : w.buffer.length < chunkSize) :
    ∃ chunks', Writes (c := c) ivBase (w.flush c) chunks' written ∧
      (w.flush c).buffer.length < chunkSize := by
  unfold EncryptingWriter.flush
  split
  · next hne =>
    exact ⟨_, h.writeChunk (fun hnil => hne (by rw [hnil]; rfl)) (Nat.le_of_lt hroom), chunkSize_pos⟩
  · exact ⟨chunks, h, hroom⟩

theorem Writes.run (ops : List Op) {w : EncryptingWriter} {chunks : List (List UInt8)}
    {written : List UInt8} (h : Writes (c := c) ivBase w chunks written)
    (hroom : w.buffer.length < chunkSize) :
    ∃ chunks', Writes (c := c) ivBase (w.run c ops).1 chunks' (written ++ (w.run c ops).2) ∧
      (w.run c ops).1.buffer.length < chunkSize := by
  induction ops generalizing w chunks written with
  | nil => exact ⟨chunks, by rw [show (w.run c []).2 = [] from rfl, List.append_nil]; exact h, hroom⟩
  | cons op ops ih =>
    cases op with
    | write buf =>
      obtain ⟨chunks₁, h₁, hroom₁⟩ := h.write hroom buf
      obtain ⟨chunks₂, h₂, hroom₂⟩ := ih h₁ hroom₁
      refine ⟨chunks₂, ?_, hroom₂⟩
      rw [List.append_assoc] at h₂
      exact h₂
    | flush =>
      obtain ⟨chunks₁, h₁, hroom₁⟩ := h.flush hroom
      exact ih h₁ hroom₁

/-- The stream is a list of chunks that hold what was written, and an empty chunk. -/
def Finished (c : CryptoAdapter) (ivBase : Nonce) (w : EncryptingWriter)
    (chunks : List (List UInt8)) (written : List UInt8) : Prop :=
  chunks.flatten = written ∧ (∀ plain ∈ chunks, plain ≠ [] ∧ plain.length ≤ chunkSize) ∧
    w.encrypted = sealFrom c ivBase 0 (chunks ++ [[]]) ∧
    w.inner = streamPrefix ++ List.ofFn ivBase ++ encode c ivBase 0 (chunks ++ [[]])

theorem Writes.finished {w : EncryptingWriter} {chunks : List (List UInt8)}
    {written : List UInt8} (h : Writes (c := c) ivBase w chunks written) (hbuf : w.buffer = []) :
    Finished c ivBase { w with
      inner := w.inner ++ (sealChunk c w.ivBase (.newEof w.counter) []).aad ++
        (sealChunk c w.ivBase (.newEof w.counter) []).tag
      encrypted := w.encrypted ++ [sealChunk c w.ivBase (.newEof w.counter) []] } chunks
      written := by
  have hseal : sealChunk c w.ivBase (.newEof w.counter) []
      = sealAt c ivBase (0 + chunks.length) [] := by
    rw [h.base, h.counter, Nat.zero_add]
    rfl
  have hall : sealFrom c ivBase 0 (chunks ++ [[]])
      = sealFrom c ivBase 0 chunks ++ [sealAt c ivBase (0 + chunks.length) []] :=
    sealFrom_append 0 chunks [[]]
  have hchunk : (sealAt c ivBase (0 + chunks.length) []).chunk = [] :=
    List.eq_nil_of_length_eq_zero (c.length_encrypt _ _ _)
  rw [hseal]
  refine ⟨?_, h.sizes, ?_, ?_⟩
  · rw [h.written, hbuf, List.append_nil]
  · show w.encrypted ++ [_] = _
    rw [h.encrypted, hall]
  · show w.inner ++ _ ++ _ = _
    rw [h.inner]
    unfold encode
    rw [hall, List.flatMap_append, List.flatMap_singleton, Sealed.bytes, hchunk, List.append_nil]
    simp only [List.append_assoc]

theorem finished_spec (c : CryptoAdapter) (ivBase : Nonce) (ops : List Op) :
    ∃ chunks, Finished c ivBase (finished c ivBase ops) chunks (written c ivBase ops) := by
  have hnew : Writes (c := c) ivBase (.new ivBase) [] [] :=
    ⟨rfl, rfl, rfl, (List.append_nil _).symm, rfl, nofun⟩
  obtain ⟨chunks, h, hroom⟩ := hnew.run ops chunkSize_pos
  unfold V2.finished EncryptingWriter.finish
  split
  · next hne =>
    exact ⟨_, (h.writeChunk (fun hnil => hne (by rw [hnil]; rfl)) (Nat.le_of_lt hroom)).finished rfl⟩
  · next hnil => exact ⟨chunks, h.finished (List.eq_nil_of_length_eq_zero (not_not.mp hnil))⟩

end Writer

/-! ## 3. One read -/

/-- Under the nonces of a stream the cipher accepts the chunks of the stream, and nothing else. -/
structure Genuine (ivBase : Nonce) (encrypted : List Sealed) : Prop where
  accepts : ∀ s ∈ encrypted, c.decryptChunk s.iv s.aad s.chunk s.tag = some s.plain
  only : ∀ headerBytes chunk tag plain,
    c.decryptChunk ((ChunkHeader.fromBytes headerBytes).iv ivBase) headerBytes chunk tag
      = some plain → ∃ s ∈ encrypted, s.iv = (ChunkHeader.fromBytes headerBytes).iv ivBase ∧
        s.aad = headerBytes ∧ s.chunk = chunk ∧ s.tag = tag

/-- The reader after a chunk. -/
def DecryptingReader.next (r : DecryptingReader) (plain rest : List UInt8) : DecryptingReader :=
  { r with inner := rest, counter := (r.counter + 1) % 2 ^ 32, buffer := plain, bufferPos := 0 }

/-- The reader after the end marker. -/
def DecryptingReader.ended (r : DecryptingReader) (rest : List UInt8) : DecryptingReader :=
  { r with inner := rest, finished := true }

/-- What a read that finds its buffer empty does. -/
inductive Fetched (c : CryptoAdapter) (r : DecryptingReader) (n : Nat) :
    Except IoError (List UInt8) × DecryptingReader → Prop where
  | failed (e : IoError) (r' : DecryptingReader) : Fetched c r n (.error e, r')
  | eof {headerBytes tag rest plain : List UInt8}
      (hinner : r.inner = headerBytes ++ tag ++ rest)
      (hseq : (ChunkHeader.fromBytes headerBytes).seq = r.counter)
      (hlen : (ChunkHeader.fromBytes headerBytes).len = 0)
      (hplain : c.decryptChunk ((ChunkHeader.fromBytes headerBytes).iv r.ivBase) headerBytes [] tag
        = some plain) :
      Fetched c r n (.ok [], r.ended rest)
  | chunk {headerBytes chunk tag rest plain : List UInt8}
      (hinner : r.inner = headerBytes ++ chunk ++ tag ++ rest)
      (hseq : (ChunkHeader.fromBytes headerBytes).seq = r.counter)
      (hlen : (ChunkHeader.fromBytes headerBytes).len ≠ 0)
      (hplain : c.decryptChunk ((ChunkHeader.fromBytes headerBytes).iv r.ivBase) headerBytes chunk
        tag = some plain) :
      Fetched c r n (.ok ((r.next plain rest).copyBuffered n).1,
        ((r.next plain rest).copyBuffered n).2)

section Read

variable {c} {ivBase : Nonce} {r : DecryptingReader} {n : Nat}

theorem read_fetched (hn : n ≠ 0) (hempty : r.buffer.length ≤ r.bufferPos)
    (hopen : r.finished = false) : Fetched c r n (r.read c n) := by
  unfold DecryptingReader.read
  rw [if_neg hn, if_neg (Nat.not_lt_of_le hempty), if_neg (by rw [hopen]; decide)]
  split
  · exact .failed _ _
  · next headerBytes inner hheader =>
    obtain ⟨hinner, -⟩ := of_readExact hheader
    dsimp only
    split_ifs with hseq hlong heof
    · exact .failed _ _
    · exact .failed _ _
    · split
      · exact .failed _ _
      · next tag rest htag =>
        obtain ⟨hrest, -⟩ := of_readExact htag
        split
        · exact .failed _ _
        · next plain hplain =>
          refine .eof ?_ (not_not.mp hseq) (of_decide_eq_true heof) hplain
          rw [hinner, hrest, List.append_assoc]
    · split
      · exact .failed _ _
      · next chunk inner' hchunk =>
        obtain ⟨hinner', -⟩ := of_readExact hchunk
        split
        · exact .failed _ _
        · next tag rest htag =>
          obtain ⟨hrest, -⟩ := of_readExact htag
          split
          · exact .failed _ _
          · next plain hplain =>
            refine .chunk ?_ (not_not.mp hseq) (fun h => heof (decide_eq_true h)) hplain
            rw [hinner, hinner', hrest]
            simp only [List.append_assoc]

/-- A chunk that is not changed is accepted. -/
theorem read_sealAt {k : Nat} {plain rest : List UInt8} (hn : n ≠ 0)
    (hempty : r.buffer.length ≤ r.bufferPos) (hopen : r.finished = false)
    (hcounter : r.counter = k % 2 ^ 32) (hsize : plain.length ≤ chunkSize)
    (hinner : r.inner = (sealAt c r.ivBase k plain).bytes ++ rest)
    (haccepts : c.decryptChunk (sealAt c r.ivBase k plain).iv (sealAt c r.ivBase k plain).aad
      (sealAt c r.ivBase k plain).chunk (sealAt c r.ivBase k plain).tag = some plain) :
    r.read c n = if plain = [] then (.ok [], r.ended rest)
      else (.ok ((r.next plain rest).copyBuffered n).1,
        ((r.next plain rest).copyBuffered n).2) := by
  have hheader : ChunkHeader.fromBytes (sealAt c r.ivBase k plain).aad
      = ⟨k % 2 ^ 32, plain.length⟩ := by
    refine ChunkHeader.fromBytes_toBytes (Nat.mod_lt _ (by decide)) ?_
    exact Nat.lt_of_le_of_lt hsize (by decide)
  have hchunk : (sealAt c r.ivBase k plain).chunk.length = plain.length := c.length_encrypt _ _ _
  have htag : (sealAt c r.ivBase k plain).tag.length = tagSize := c.length_tag _ _ _
  have haad : (sealAt c r.ivBase k plain).aad.length = ChunkHeader.size :=
    ChunkHeader.length_toBytes _
  have hiv : (sealAt c r.ivBase k plain).iv
      = (⟨k % 2 ^ 32, plain.length⟩ : ChunkHeader).iv r.ivBase := rfl
  have heof : (⟨k % 2 ^ 32, plain.length⟩ : ChunkHeader).isEof = true ↔ plain = [] :=
    decide_eq_true_iff.trans List.length_eq_zero_iff
  rw [hiv] at haccepts
  unfold DecryptingReader.read
  rw [if_neg hn, if_neg (Nat.not_lt_of_le hempty), if_neg (by rw [hopen]; decide), hinner,
    Sealed.bytes, List.append_assoc, List.append_assoc,
    readExact_append haad]
  dsimp only
  rw [hheader, if_neg (not_not_intro hcounter.symm), if_neg (Nat.not_lt_of_le hsize)]
  by_cases hnil : plain = []
  · have hempty : (sealAt c r.ivBase k plain).chunk = [] :=
      List.eq_nil_of_length_eq_zero (by rw [hchunk, hnil]; rfl)
    rw [hempty] at haccepts
    rw [if_pos (heof.mpr hnil), hempty, List.nil_append,
      readExact_append htag, if_pos hnil]
    dsimp only
    rw [haccepts]
    rfl
  · rw [if_neg (fun h => hnil (heof.mp h)), readExact_append hchunk, if_neg hnil]
    dsimp only
    rw [readExact_append htag]
    dsimp only
    rw [haccepts]
    rfl

end Read

/-! ## 4. Following a stream -/

/-- The reader of `s` has consumed the first `k` chunks (and the end marker, where it has
finished), and all that it has delivered is in them. -/
structure Follows (c : CryptoAdapter) (ivBase : Nonce) (chunks : List (List UInt8))
    (s delivered : List UInt8) (r : DecryptingReader) (k : Nat) : Prop where
  base : r.ivBase = ivBase
  counter : r.counter = k % 2 ^ 32
  bound : k ≤ chunks.length
  pos : r.bufferPos ≤ r.buffer.length
  delivered : delivered ++ r.buffer.drop r.bufferPos = (chunks.take k).flatten
  stream : s = encode c ivBase 0 ((chunks ++ [[]]).take (if r.finished then k + 1 else k)) ++ r.inner
  last : r.finished = true → k = chunks.length

section Follow

variable {c} {ivBase : Nonce} {chunks : List (List UInt8)} {s delivered : List UInt8}
  {r : DecryptingReader} {k n : Nat}

theorem encode_take_succ {all : List (List UInt8)} {plain : List UInt8}
    (h : all[k]? = some plain) :
    encode c ivBase 0 (all.take (k + 1))
      = encode c ivBase 0 (all.take k) ++ (sealAt c ivBase k plain).bytes := by
  have hk : k ≤ all.length := Nat.le_of_lt (List.getElem?_eq_some_iff.mp h).1
  unfold encode
  rw [List.take_add_one, h, sealFrom_append, List.length_take_of_le hk, List.flatMap_append,
    Nat.zero_add]
  show _ ++ [sealAt c ivBase k plain].flatMap Sealed.bytes = _
  rw [List.flatMap_singleton]

/-- What is in the buffer is delivered. -/
theorem Follows.copyBuffered (h : Follows c ivBase chunks s delivered r k) (n : Nat) :
    Follows c ivBase chunks s (delivered ++ (r.copyBuffered n).1) (r.copyBuffered n).2 k := by
  have hpos := h.pos
  refine ⟨h.base, h.counter, h.bound, ?_, ?_, h.stream, h.last⟩
  · show r.bufferPos + min (r.buffer.length - r.bufferPos) n ≤ r.buffer.length
    omega
  · show delivered ++ (r.buffer.drop r.bufferPos).take _ ++ r.buffer.drop (r.bufferPos + _) = _
    rw [← List.drop_drop, List.append_assoc, List.take_append_drop]
    exact h.delivered

theorem copyBuffered_ne_nil (hn : n ≠ 0) (hpos : r.bufferPos < r.buffer.length) :
    (r.copyBuffered n).1 ≠ [] := by
  intro hnil
  have hlen := congrArg List.length hnil
  change ((r.buffer.drop r.bufferPos).take (min (r.buffer.length - r.bufferPos) n)).length = 0 at hlen
  rw [List.length_take, List.length_drop] at hlen
  omega

/-- The next chunk of the genuine stream. -/
theorem Follows.next (h : Follows c ivBase chunks s delivered r k) {plain rest : List UInt8}
    (hempty : r.buffer.length ≤ r.bufferPos) (hopen : r.finished = false)
    (hplain : chunks[k]? = some plain) (hinner : r.inner = (sealAt c ivBase k plain).bytes ++ rest) :
    Follows c ivBase chunks s delivered (r.next plain rest) (k + 1) := by
  have hlt : k < chunks.length := (List.getElem?_eq_some_iff.mp hplain).1
  have hall : (chunks ++ [[]])[k]? = some plain := by
    rw [List.getElem?_append_left hlt]
    exact hplain
  have hstream := h.stream
  rw [hopen, hinner, ← List.append_assoc] at hstream
  refine ⟨h.base, ?_, hlt, Nat.zero_le _, ?_, ?_, fun hfin => ?_⟩
  · show (r.counter + 1) % 2 ^ 32 = _
    rw [h.counter]
    exact Nat.mod_add_mod _ _ _
  · have hdone := h.delivered
    rw [List.drop_of_length_le hempty, List.append_nil] at hdone
    show delivered ++ plain.drop 0 = _
    rw [List.drop_zero, List.take_add_one, hplain, hdone, List.flatten_append]
    exact congrArg _ (List.append_nil plain).symm
  · show s = encode c ivBase 0 ((chunks ++ [[]]).take (if r.finished then k + 1 + 1 else k + 1)) ++ rest
    rw [hopen, if_neg Bool.false_ne_true, encode_take_succ hall]
    exact hstream
  · rw [show (r.next plain rest).finished = r.finished from rfl, hopen] at hfin
    cases hfin

/-- The end marker of the genuine stream. -/
theorem Follows.ended (h : Follows c ivBase chunks s delivered r k) {rest : List UInt8}
    (hopen : r.finished = false) (hk : k = chunks.length)
    (hinner : r.inner = (sealAt c ivBase k []).bytes ++ rest) :
    Follows c ivBase chunks s delivered (r.ended rest) k := by
  have hall : (chunks ++ [[]])[k]? = some [] := by
    rw [List.getElem?_append_right (Nat.le_of_eq hk.symm), hk, Nat.sub_self]
    rfl
  have hstream := h.stream
  rw [hopen, hinner, ← List.append_assoc] at hstream
  refine ⟨h.base, h.counter, h.bound, h.pos, h.delivered, ?_, fun _ => hk⟩
  show s = encode c ivBase 0 ((chunks ++ [[]]).take (if true then k + 1 else k)) ++ rest
  rw [if_pos rfl, encode_take_succ hall]
  exact hstream

/-- Where a read gives nothing, the whole stream has been delivered. -/
def AtEnd (chunks : List (List UInt8)) (r : DecryptingReader) (delivered : List UInt8) : Prop :=
  r.finished = true ∧ delivered = chunks.flatten

theorem Follows.atEnd (h : Follows c ivBase chunks s delivered r k)
    (hempty : r.buffer.length ≤ r.bufferPos) (hfin : r.finished = true) :
    AtEnd chunks r delivered := by
  refine ⟨hfin, ?_⟩
  have hdone := h.delivered
  rw [List.drop_of_length_le hempty, List.append_nil, h.last hfin, List.take_length] at hdone
  exact hdone

theorem Follows.isPrefix (h : Follows c ivBase chunks s delivered r k) :
    delivered <+: chunks.flatten := by
  have hall : (chunks.take k).flatten ++ (chunks.drop k).flatten = chunks.flatten := by
    rw [← List.flatten_append, List.take_append_drop]
  rw [← h.delivered, List.append_assoc] at hall
  exact ⟨_, hall⟩

/-- After the read the reader follows the stream still, and where nothing comes it is at the end. -/
def Advances (c : CryptoAdapter) (ivBase : Nonce) (chunks : List (List UInt8))
    (s delivered : List UInt8) (n : Nat) (bytes : List UInt8) (r' : DecryptingReader) : Prop :=
  ∃ k, Follows c ivBase chunks s (delivered ++ bytes) r' k ∧
    (n ≠ 0 → bytes = [] → AtEnd chunks r' (delivered ++ bytes))

/-- A read that does not need another chunk. -/
theorem Follows.read_ready (h : Follows c ivBase chunks s delivered r k)
    (hready : n = 0 ∨ r.bufferPos < r.buffer.length ∨ r.finished = true) :
    ∃ bytes r', r.read c n = (.ok bytes, r') ∧ Advances c ivBase chunks s delivered n bytes r' := by
  unfold DecryptingReader.read
  by_cases hn : n = 0
  · refine ⟨[], r, if_pos hn, k, ?_, fun hne => absurd hn hne⟩
    rw [List.append_nil]
    exact h
  by_cases hpos : r.bufferPos < r.buffer.length
  · refine ⟨_, _, by rw [if_neg hn, if_pos hpos], k, h.copyBuffered n, fun _ hnil => ?_⟩
    exact absurd hnil (copyBuffered_ne_nil hn hpos)
  · have hfin : r.finished = true := (hready.resolve_left hn).resolve_left hpos
    refine ⟨[], r, by rw [if_neg hn, if_neg hpos, if_pos hfin], k, ?_, fun _ _ => ?_⟩
    · rw [List.append_nil]
      exact h
    · rw [List.append_nil]
      exact h.atEnd (Nat.le_of_not_lt hpos) hfin

/-- A chunk that has come gives some of its bytes. -/
theorem Follows.advances_next {plain rest : List UInt8} (hn : n ≠ 0) (hne : plain ≠ [])
    (h : Follows c ivBase chunks s delivered (r.next plain rest) (k + 1)) :
    Advances c ivBase chunks s delivered n ((r.next plain rest).copyBuffered n).1
      ((r.next plain rest).copyBuffered n).2 :=
  ⟨k + 1, h.copyBuffered n, fun _ hnil => absurd hnil
    (copyBuffered_ne_nil hn (List.length_pos_of_ne_nil hne))⟩

theorem Follows.advances_ended {rest : List UInt8} (hempty : r.buffer.length ≤ r.bufferPos)
    (h : Follows c ivBase chunks s delivered (r.ended rest) k) :
    Advances c ivBase chunks s delivered n [] (r.ended rest) := by
  refine ⟨k, ?_, fun _ _ => ?_⟩
  · rw [List.append_nil]
    exact h
  · rw [List.append_nil]
    exact h.atEnd hempty rfl

/-- The genuine stream is read without an error. -/
theorem Follows.read_genuine {behind : List UInt8}
    (h : Follows c ivBase chunks (encode c ivBase 0 (chunks ++ [[]]) ++ behind) delivered r k)
    (hsizes : ∀ plain ∈ chunks, plain ≠ [] ∧ plain.length ≤ chunkSize)
    (haccepts : ∀ x ∈ sealFrom c ivBase 0 (chunks ++ [[]]),
      c.decryptChunk x.iv x.aad x.chunk x.tag = some x.plain) (n : Nat) :
    ∃ bytes r', r.read c n = (.ok bytes, r') ∧
      Advances c ivBase chunks (encode c ivBase 0 (chunks ++ [[]]) ++ behind) delivered n bytes
        r' := by
  by_cases hready : n = 0 ∨ r.bufferPos < r.buffer.length ∨ r.finished = true
  · exact h.read_ready hready
  obtain ⟨hn, hpos, hfin⟩ : n ≠ 0 ∧ ¬ r.bufferPos < r.buffer.length ∧ ¬ r.finished = true :=
    ⟨fun h => hready (.inl h), fun h => hready (.inr (.inl h)), fun h => hready (.inr (.inr h))⟩
  have hempty : r.buffer.length ≤ r.bufferPos := Nat.le_of_not_lt hpos
  have hopen : r.finished = false := Bool.eq_false_iff.mpr hfin
  have hkall : k < (chunks ++ [[]]).length := by
    rw [List.length_append]
    exact Nat.lt_succ_of_le h.bound
  obtain ⟨plain, hplain⟩ : ∃ plain, (chunks ++ [[]])[k]? = some plain :=
    ⟨_, List.getElem?_eq_getElem hkall⟩
  -- What is left of the stream starts with the next chunk.
  have hinner : ∃ rest, r.inner = (sealAt c ivBase k plain).bytes ++ rest := by
    have hstream := h.stream
    rw [hopen, if_neg Bool.false_ne_true] at hstream
    have hsplit : encode c ivBase 0 (chunks ++ [[]])
        = encode c ivBase 0 ((chunks ++ [[]]).take (k + 1)) ++
          encode c ivBase (k + 1) ((chunks ++ [[]]).drop (k + 1)) := by
      have happ : sealFrom c ivBase 0 _ = _ := sealFrom_append 0 ((chunks ++ [[]]).take (k + 1))
        ((chunks ++ [[]]).drop (k + 1))
      rw [List.take_append_drop, List.length_take_of_le hkall, Nat.zero_add] at happ
      unfold encode
      rw [happ, List.flatMap_append]
    rw [hsplit, encode_take_succ hplain, List.append_assoc, List.append_assoc] at hstream
    exact ⟨_, (List.append_cancel_left hstream).symm⟩
  obtain ⟨rest, hinner⟩ := hinner
  have hmem : sealAt c ivBase (0 + k) plain ∈ sealFrom c ivBase 0 (chunks ++ [[]]) :=
    sealAt_mem hplain
  rw [Nat.zero_add] at hmem
  have hdecrypt := haccepts _ hmem
  have hsize : plain.length ≤ chunkSize := by
    rcases List.mem_append.mp (List.mem_of_getElem? hplain) with hold | hlast
    · exact (hsizes plain hold).2
    · rw [List.mem_singleton.mp hlast]
      exact Nat.zero_le _
  have hrun := read_sealAt (c := c) (r := r) hn hempty hopen h.counter hsize
    (by rw [h.base]; exact hinner) (by rw [h.base]; exact hdecrypt)
  rcases Nat.lt_or_ge k chunks.length with hlt | hge
  · have hchunk : chunks[k]? = some plain := by
      rw [← hplain, List.getElem?_append_left hlt]
    have hne : plain ≠ [] := (hsizes plain (List.mem_of_getElem? hchunk)).1
    rw [if_neg hne] at hrun
    exact ⟨_, _, hrun, (h.next hempty hopen hchunk hinner).advances_next hn hne⟩
  · have hk : k = chunks.length := Nat.le_antisymm h.bound hge
    obtain rfl : plain = [] := by
      rw [List.getElem?_append_right hge, hk, Nat.sub_self] at hplain
      exact (Option.some.inj hplain).symm
    rw [if_pos rfl] at hrun
    exact ⟨_, _, hrun, (h.ended hopen hk hinner).advances_ended hempty⟩

/-- In any stream a read that is no error reads what the genuine stream has there. -/
theorem Follows.read_any (h : Follows c ivBase chunks s delivered r k)
    (hsizes : ∀ plain ∈ chunks, plain ≠ [] ∧ plain.length ≤ chunkSize)
    (hideal : Genuine c ivBase (sealFrom c ivBase 0 (chunks ++ [[]])))
    (hlen : chunks.length < 2 ^ 32) {bytes : List UInt8} {r' : DecryptingReader}
    (hrun : r.read c n = (.ok bytes, r')) : Advances c ivBase chunks s delivered n bytes r' := by
  by_cases hready : n = 0 ∨ r.bufferPos < r.buffer.length ∨ r.finished = true
  · obtain ⟨bytes', r'', hrun', hadv⟩ := h.read_ready hready
    rw [hrun] at hrun'
    cases hrun'
    exact hadv
  obtain ⟨hn, hpos, hfin⟩ : n ≠ 0 ∧ ¬ r.bufferPos < r.buffer.length ∧ ¬ r.finished = true :=
    ⟨fun h => hready (.inl h), fun h => hready (.inr (.inl h)), fun h => hready (.inr (.inr h))⟩
  have hempty : r.buffer.length ≤ r.bufferPos := Nat.le_of_not_lt hpos
  have hopen : r.finished = false := Bool.eq_false_iff.mpr hfin
  -- What the cipher accepts is the chunk with the number of the counter.
  have hgenuine {headerBytes chunk tag plain : List UInt8}
      (hseq : (ChunkHeader.fromBytes headerBytes).seq = r.counter)
      (hplain : c.decryptChunk ((ChunkHeader.fromBytes headerBytes).iv r.ivBase) headerBytes chunk tag
        = some plain) :
      (chunks ++ [[]])[k]? = some plain ∧
        (sealAt c ivBase k plain).bytes = headerBytes ++ chunk ++ tag ∧
        (ChunkHeader.fromBytes headerBytes).len = plain.length := by
    rw [h.base] at hplain
    obtain ⟨x, hx, hiv, haad, hchunk, htag⟩ := hideal.only _ _ _ _ hplain
    obtain ⟨j, plain', hj, hxj⟩ := mem_sealFrom hx
    rw [Nat.zero_add] at hxj
    have hjlen : j ≤ chunks.length := by
      have := (List.getElem?_eq_some_iff.mp hj).1
      rw [List.length_append] at this
      exact Nat.le_of_lt_succ this
    have hjk : j = k := by
      rw [hxj] at hiv
      have hsame := ChunkHeader.iv_inj (h := ⟨j % 2 ^ 32, plain'.length⟩)
        (Nat.mod_lt _ (by decide)) (by rw [hseq, h.counter]; exact Nat.mod_lt _ (by decide)) hiv
      rw [hseq, h.counter] at hsame
      have hbound := h.bound
      change j % 2 ^ 32 = k % 2 ^ 32 at hsame
      rw [Nat.mod_eq_of_lt (by omega), Nat.mod_eq_of_lt (by omega)] at hsame
      exact hsame
    have hdecrypt := hideal.accepts x hx
    rw [hiv, haad, hchunk, htag, hplain] at hdecrypt
    have hsame : plain = plain' := (Option.some.inj hdecrypt).trans (by rw [hxj]; rfl)
    rw [hjk, ← hsame] at hxj hj
    have hsize : plain.length ≤ chunkSize := by
      rcases List.mem_append.mp (List.mem_of_getElem? hj) with hold | hlast
      · exact (hsizes plain hold).2
      · rw [List.mem_singleton.mp hlast]
        exact Nat.zero_le _
    refine ⟨hj, ?_, ?_⟩
    · rw [← hxj, Sealed.bytes, haad, hchunk, htag]
    · rw [← haad, hxj]
      exact congrArg ChunkHeader.len (ChunkHeader.fromBytes_toBytes (Nat.mod_lt _ (by decide))
        (Nat.lt_of_le_of_lt hsize (by decide)))
  have hfetched := read_fetched (c := c) hn hempty hopen
  rw [hrun] at hfetched
  cases hfetched with
  | eof hinner hseq hzero hplain =>
    obtain ⟨hk, hbytes, hlen⟩ := hgenuine hseq hplain
    rw [hzero] at hlen
    have hnil := List.eq_nil_of_length_eq_zero hlen.symm
    rw [hnil] at hk hbytes
    rw [List.append_nil] at hbytes
    rw [← hbytes] at hinner
    have hlast : k = chunks.length := by
      refine Nat.le_antisymm h.bound (Nat.le_of_not_lt fun hlt => ?_)
      rw [List.getElem?_append_left hlt] at hk
      exact (hsizes [] (List.mem_of_getElem? hk)).1 rfl
    exact (h.ended hopen hlast hinner).advances_ended hempty
  | @chunk headerBytes chunk tag rest plain hinner hseq hzero hplain =>
    obtain ⟨hk, hbytes, hlen⟩ := hgenuine hseq hplain
    have hne : plain ≠ [] := by
      rintro rfl
      exact hzero hlen
    have hlt : k < chunks.length := by
      refine Nat.lt_of_le_of_ne h.bound fun hlast => ?_
      rw [List.getElem?_append_right (Nat.le_of_eq hlast.symm), hlast, Nat.sub_self] at hk
      exact hne (Option.some.inj hk).symm
    rw [List.getElem?_append_left hlt] at hk
    rw [← hbytes] at hinner
    exact (h.next hempty hopen hk hinner).advances_next hn hne

end Follow

end Backup.V2
