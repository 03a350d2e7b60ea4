import KeyOS.Backup.StreamExact

/-!
# The v2 backup stream is exact

The reader of a finished stream delivers what was written and then the end of file, whatever
the sizes of its reads. On any other bytes behind the same prefix it delivers a part of it from the
front, and the restore ends with an error, unless the whole stream is there: what comes behind the
end marker is not read.

Result: `stream_exact`.
-/

namespace Backup.V2

open ByteStream

variable {c : CryptoAdapter}

/-! ## 1. Reads -/

/-- What reads of the given sizes deliver of `written`, when none fails: a part from the front, and
nothing only behind the last byte. -/
structure Yields (written : List UInt8) (sizes : List Nat) (pieces : List (List UInt8)) :
    Prop where
  all : pieces.length = sizes.length
  isPrefix : pieces.flatten <+: written
  eof : ∀ (i n : Nat), sizes[i]? = some n → n ≠ 0 → pieces[i]? = some [] →
    (pieces.take i).flatten = written

section Reads

variable {ivBase : Nonce} {chunks : List (List UInt8)} {s delivered : List UInt8}
  {r : DecryptingReader} {k : Nat}

theorem Follows.reads_genuine {behind : List UInt8} (sizes : List Nat)
    (h : Follows c ivBase chunks (encode c ivBase 0 (chunks ++ [[]]) ++ behind) delivered r k)
    (hsizes : ∀ plain ∈ chunks, plain ≠ [] ∧ plain.length ≤ chunkSize)
    (haccepts : ∀ x ∈ sealFrom c ivBase 0 (chunks ++ [[]]),
      c.decryptChunk x.iv x.aad x.chunk x.tag = some x.plain) :
    ∃ pieces r', r.reads c sizes = (pieces, none, r') ∧ pieces.length = sizes.length ∧
      delivered ++ pieces.flatten <+: chunks.flatten ∧
      ∀ (i n : Nat), sizes[i]? = some n → n ≠ 0 → pieces[i]? = some [] →
        delivered ++ (pieces.take i).flatten = chunks.flatten := by
  induction sizes generalizing delivered r k with
  | nil =>
    refine ⟨[], r, rfl, rfl, ?_, nofun⟩
    rw [List.flatten_nil, List.append_nil]
    exact h.isPrefix
  | cons n sizes ih =>
    obtain ⟨bytes, r₁, hrun, k₁, h₁, hend⟩ := h.read_genuine hsizes haccepts n
    obtain ⟨pieces, r', hruns, hall, hprefix, heof⟩ := ih h₁
    refine ⟨bytes :: pieces, r', ?_, congrArg Nat.succ hall, ?_, ?_⟩
    · rw [DecryptingReader.reads, hrun]
      dsimp only
      rw [hruns]
    · rw [List.flatten_cons, ← List.append_assoc]
      exact hprefix
    · intro i m hm hne hnil
      cases i with
      | zero =>
        cases hm
        cases hnil
        rw [List.take_zero, List.flatten_nil]
        exact (hend hne rfl).2
      | succ i =>
        rw [List.take_succ_cons, List.flatten_cons, ← List.append_assoc]
        exact heof i m hm hne hnil

theorem Follows.reads_any (sizes : List Nat) (h : Follows c ivBase chunks s delivered r k)
    (hsizes : ∀ plain ∈ chunks, plain ≠ [] ∧ plain.length ≤ chunkSize)
    (hgenuine : Genuine c ivBase (sealFrom c ivBase 0 (chunks ++ [[]])))
    (hlen : chunks.length < 2 ^ 32) :
    delivered ++ (r.reads c sizes).1.flatten <+: chunks.flatten := by
  induction sizes generalizing delivered r k with
  | nil =>
    show delivered ++ [].flatten <+: _
    rw [List.flatten_nil, List.append_nil]
    exact h.isPrefix
  | cons n sizes ih =>
    rw [DecryptingReader.reads]
    split
    · show delivered ++ [].flatten <+: _
      rw [List.flatten_nil, List.append_nil]
      exact h.isPrefix
    · next bytes r₁ hrun =>
      obtain ⟨k₁, h₁, -⟩ := h.read_any hsizes hgenuine hlen hrun
      show delivered ++ (bytes :: (r₁.reads c sizes).1).flatten <+: _
      rw [List.flatten_cons, ← List.append_assoc]
      exact ih h₁

theorem length_le_flatten {pieces : List (List UInt8)} (h : [] ∉ pieces) :
    pieces.length ≤ pieces.flatten.length := by
  induction pieces with
  | nil => exact Nat.zero_le _
  | cons piece pieces ih =>
    have hpos : 0 < piece.length :=
      List.length_pos_of_ne_nil fun hnil => h (hnil ▸ List.mem_cons_self)
    have hrest := ih fun hmem => h (List.mem_cons_of_mem _ hmem)
    rw [List.length_cons, List.flatten_cons, List.length_append]
    omega

/-- More reads than bytes reach the end. -/
theorem Yields.complete {written : List UInt8} {sizes : List Nat} {pieces : List (List UInt8)}
    (h : Yields written sizes pieces) (hmany : written.length < sizes.length)
    (hsizes : ∀ n ∈ sizes, n ≠ 0) : pieces.flatten = written := by
  by_cases hnil : [] ∈ pieces
  · obtain ⟨i, hi, hpiece⟩ := List.getElem_of_mem hnil
    have hsize : i < sizes.length := h.all ▸ hi
    have hfront : (pieces.take i).flatten = written :=
      h.eof i sizes[i] (List.getElem?_eq_getElem hsize) (hsizes _ (List.getElem_mem hsize))
        (by rw [List.getElem?_eq_getElem hi, hpiece])
    have hparts : (pieces.take i).flatten ++ (pieces.drop i).flatten = pieces.flatten := by
      rw [← List.flatten_append, List.take_append_drop]
    refine h.isPrefix.eq_of_length_le ?_
    rw [← hparts, hfront, List.length_append]
    exact Nat.le_add_right _ _
  · have hlong := Nat.le_trans (length_le_flatten hnil) h.isPrefix.length_le
    rw [h.all] at hlong
    exact absurd hmany (Nat.not_lt_of_le hlong)

end Reads

/-! ## 2. The end of the stream -/

section Drain

variable {ivBase : Nonce} {chunks : List (List UInt8)} {s delivered : List UInt8}
  {r : DecryptingReader} {k : Nat}

theorem left_copyBuffered (r : DecryptingReader) (n : Nat) :
    (r.copyBuffered n).2.left + (r.copyBuffered n).1.length = r.left := by
  show r.inner.length + (r.buffer.length - (r.bufferPos + min (r.buffer.length - r.bufferPos) n))
    + ((r.buffer.drop r.bufferPos).take (min (r.buffer.length - r.bufferPos) n)).length
    = r.inner.length + (r.buffer.length - r.bufferPos)
  rw [List.length_take, List.length_drop]
  omega

/-- A read leaves less by what it delivers. -/
theorem left_read {n : Nat} {bytes : List UInt8} {r' : DecryptingReader}
    (hrun : r.read c n = (.ok bytes, r')) : r'.left + bytes.length ≤ r.left := by
  by_cases hn : n = 0
  · rw [DecryptingReader.read, if_pos hn] at hrun
    cases hrun
    exact Nat.le_refl _
  by_cases hpos : r.bufferPos < r.buffer.length
  · rw [DecryptingReader.read, if_neg hn, if_pos hpos] at hrun
    cases hrun
    exact Nat.le_of_eq (left_copyBuffered r n)
  by_cases hfin : r.finished = true
  · rw [DecryptingReader.read, if_neg hn, if_neg hpos, if_pos hfin] at hrun
    cases hrun
    exact Nat.le_refl _
  have hfetched := read_fetched (c := c) hn (Nat.le_of_not_lt hpos) (Bool.eq_false_iff.mpr hfin)
  rw [hrun] at hfetched
  cases hfetched with
  | @eof headerBytes tag rest plain hinner hseq hzero hplain =>
    show rest.length + (r.buffer.length - r.bufferPos) + 0 ≤ r.left
    unfold DecryptingReader.left
    rw [hinner, List.length_append]
    omega
  | @chunk headerBytes chunk tag rest plain hinner hseq hzero hplain =>
    have hlen : plain.length = chunk.length := c.length_decrypt _ _ _ _ _ hplain
    refine Nat.le_trans (Nat.le_of_eq (left_copyBuffered _ n)) ?_
    show rest.length + (plain.length - 0) ≤ r.left
    unfold DecryptingReader.left
    rw [hinner, List.length_append, List.length_append, List.length_append]
    omega

/-- A drained reader has come to the end marker. -/
theorem Follows.drainFor {rounds : Nat} (h : Follows c ivBase chunks s delivered r k)
    (hsizes : ∀ plain ∈ chunks, plain ≠ [] ∧ plain.length ≤ chunkSize)
    (hgenuine : Genuine c ivBase (sealFrom c ivBase 0 (chunks ++ [[]])))
    (hlen : chunks.length < 2 ^ 32) (henough : r.left < rounds) {r' : DecryptingReader}
    (hrun : r.drainFor c rounds = .ok r') :
    ∃ delivered' k', Follows c ivBase chunks s delivered' r' k' ∧ r'.finished = true := by
  induction rounds generalizing r delivered k with
  | zero => exact absurd henough (Nat.not_lt_zero _)
  | succ rounds ih =>
    rw [DecryptingReader.drainFor] at hrun
    split at hrun
    · cases hrun
    · next bytes r₁ hread =>
      obtain ⟨k₁, h₁, hend⟩ := h.read_any hsizes hgenuine hlen hread
      split at hrun
      · next hnil =>
        cases hrun
        exact ⟨_, k₁, h₁, (hend (by decide) hnil).1⟩
      · next hne =>
        have hleft := left_read hread
        have hpos := List.length_pos_of_ne_nil hne
        exact ih h₁ (by omega) hrun

theorem Follows.extract {α : Type} (extract : Extract α)
    (h : Follows c ivBase chunks s delivered r k)
    (hsizes : ∀ plain ∈ chunks, plain ≠ [] ∧ plain.length ≤ chunkSize)
    (hgenuine : Genuine c ivBase (sealFrom c ivBase 0 (chunks ++ [[]])))
    (hlen : chunks.length < 2 ^ 32) {a : α} {r' : DecryptingReader}
    (hrun : extract.run c r = .ok (a, r')) :
    ∃ delivered' k', Follows c ivBase chunks s delivered' r' k' := by
  induction extract generalizing r delivered k with
  | done result =>
    cases result with
    | none => cases hrun
    | some a =>
      cases hrun
      exact ⟨delivered, k, h⟩
  | read n next ih =>
    rw [Extract.run] at hrun
    split at hrun
    · cases hrun
    · next bytes r₁ hread =>
      obtain ⟨k₁, h₁, -⟩ := h.read_any hsizes hgenuine hlen hread
      exact ih bytes h₁ hrun

end Drain

/-! ## 3. The cipher -/

/-- What the writers of the streams have encrypted. -/
def encryptedBy (c : CryptoAdapter) (streams : List (Nonce × List Op)) : List Sealed :=
  streams.flatMap fun stream => (finished c stream.1 stream.2).encrypted

/-- An ideal cipher: it accepts what was encrypted under the key, and nothing else. -/
structure Ideal (c : CryptoAdapter) (log : List Sealed) : Prop where
  accepts : ∀ s ∈ log, c.decryptChunk s.iv s.aad s.chunk s.tag = some s.plain
  only : ∀ iv aad chunk tag plain, c.decryptChunk iv aad chunk tag = some plain →
    ∃ s ∈ log, s.iv = iv ∧ s.aad = aad ∧ s.chunk = chunk ∧ s.tag = tag

section Cipher

variable {ivBase : Nonce} {ops : List Op} {streams : List (Nonce × List Op)}

theorem iv_base_inj {h : ChunkHeader} {a b : Nonce} (heq : h.iv a = h.iv b) : a = b := by
  funext i
  have hbyte := congrFun heq i
  unfold ChunkHeader.iv at hbyte
  split at hbyte
  · exact hbyte
  · exact UInt8.xor_left_inj _ |>.mp hbyte

/-- Chunks of the other streams of the key are not accepted: the header is authenticated, and with
it the nonce tells the nonce base. -/
theorem Ideal.genuine (h : Ideal c (encryptedBy c streams))
    (hbases : (streams.map Prod.fst).Nodup) (hmem : (ivBase, ops) ∈ streams) :
    Genuine c ivBase (finished c ivBase ops).encrypted := by
  refine ⟨fun s hs => h.accepts s (List.mem_flatMap.mpr ⟨_, hmem, hs⟩), ?_⟩
  intro headerBytes chunk tag plain hplain
  obtain ⟨s, hs, hiv, haad, hchunk, htag⟩ := h.only _ _ _ _ _ hplain
  obtain ⟨stream, hstream, hin⟩ := List.mem_flatMap.mp hs
  obtain ⟨chunks, -, hsizes, hencrypted, -⟩ := finished_spec c stream.1 stream.2
  have hseal := hin
  rw [hencrypted] at hseal
  obtain ⟨j, plain', hj, rfl⟩ := mem_sealFrom hseal
  have hsize : plain'.length ≤ chunkSize := by
    rcases List.mem_append.mp (List.mem_of_getElem? hj) with hold | hlast
    · exact (hsizes plain' hold).2
    · rw [List.mem_singleton.mp hlast]
      exact Nat.zero_le _
  have hheader : ChunkHeader.fromBytes headerBytes = ⟨(0 + j) % 2 ^ 32, plain'.length⟩ := by
    rw [← haad]
    exact ChunkHeader.fromBytes_toBytes (Nat.mod_lt _ (by decide))
      (Nat.lt_of_le_of_lt hsize (by decide))
  have hsame : stream.1 = ivBase := by
    rw [hheader] at hiv
    exact iv_base_inj hiv
  obtain rfl : stream = (ivBase, ops) := List.inj_on_of_nodup_map hbases hstream hmem hsame
  exact ⟨_, hin, hiv, haad, hchunk, htag⟩

/-- As long as the counter does not wrap, no nonce is used twice. -/
theorem nodup_iv {i : Nat} {chunks : List (List UInt8)} (h : i + chunks.length ≤ 2 ^ 32) :
    ((sealFrom c ivBase i chunks).map Sealed.iv).Nodup := by
  induction chunks generalizing i with
  | nil => exact List.nodup_nil
  | cons plain chunks ih =>
    rw [List.length_cons] at h
    rw [sealFrom, List.map_cons, List.nodup_cons]
    refine ⟨fun hmem => ?_, ih (by omega)⟩
    obtain ⟨s, hs, hiv⟩ := List.mem_map.mp hmem
    obtain ⟨j, plain', hj, rfl⟩ := mem_sealFrom hs
    have hlt := (List.getElem?_eq_some_iff.mp hj).1
    have hseq : (i + 1 + j) % 2 ^ 32 = i % 2 ^ 32 :=
      ChunkHeader.iv_inj (Nat.mod_lt _ (by decide)) (Nat.mod_lt _ (by decide)) hiv
    rw [Nat.mod_eq_of_lt (by omega), Nat.mod_eq_of_lt (by omega)] at hseq
    omega

end Cipher

/-! ## 4. The whole -/

section Whole

variable {ivBase : Nonce} {ops : List Op} {streams : List (Nonce × List Op)}

/-- The reader of `s`, behind the prefix and the nonce base. -/
def readerOf (ivBase : Nonce) (s : List UInt8) : DecryptingReader := ⟨s, ivBase, 0, [], 0, false⟩

theorem new_readerOf (ivBase : Nonce) (s : List UInt8) :
    DecryptingReader.new (streamPrefix ++ List.ofFn ivBase ++ s) = .ok (readerOf ivBase s) := by
  have hbase : (fun i : Fin 12 => (List.ofFn ivBase).getD i 0) = ivBase := by
    funext i
    rw [List.getD_eq_getElem?_getD, List.getElem?_ofFn, dif_pos i.isLt]
    rfl
  unfold DecryptingReader.new
  rw [List.append_assoc, readExact_append rfl]
  dsimp only
  rw [if_neg (not_not_intro rfl), readExact_append List.length_ofFn]
  dsimp only
  rw [hbase, readerOf]

theorem readerOf_follows (chunks : List (List UInt8)) (s : List UInt8) :
    Follows c ivBase chunks s [] (readerOf ivBase s) 0 :=
  ⟨rfl, rfl, Nat.zero_le _, Nat.le_refl _, rfl, rfl, nofun⟩

/-- A restore that succeeds has had the whole stream. -/
theorem restoreBackup_genuine {chunks : List (List UInt8)} {s : List UInt8} {α : Type}
    {extract : Extract α} {a : α}
    (hsizes : ∀ plain ∈ chunks, plain ≠ [] ∧ plain.length ≤ chunkSize)
    (hgenuine : Genuine c ivBase (sealFrom c ivBase 0 (chunks ++ [[]])))
    (hlen : chunks.length < 2 ^ 32)
    (hrun : restoreBackup c extract (streamPrefix ++ List.ofFn ivBase ++ s) = .ok a) :
    encode c ivBase 0 (chunks ++ [[]]) <+: s := by
  unfold restoreBackup at hrun
  rw [new_readerOf] at hrun
  dsimp only at hrun
  split at hrun
  · cases hrun
  · next metadata r hextract =>
    obtain ⟨delivered, k, h⟩ :=
      (readerOf_follows chunks s).extract extract hsizes hgenuine hlen hextract
    split at hrun
    · cases hrun
    · next r' hdrain =>
      obtain ⟨delivered', k', h', hfin⟩ :=
        h.drainFor hsizes hgenuine hlen (Nat.lt_succ_self _) hdrain
      have hstream := h'.stream
      rw [if_pos hfin, h'.last hfin, List.take_of_length_le] at hstream
      · exact ⟨_, hstream.symm⟩
      · rw [List.length_append]
        exact Nat.le_refl _

/-- The streams `streams` are all that was encrypted under the key, with nonce bases that differ.
The reader of one of them delivers what was written and then the end of file. Where the counter of
chunks does not wrap, the nonces differ, and bytes that do not start with the whole stream give a
part of it from the front and a restore that fails. -/
theorem stream_exact (hideal : Ideal c (encryptedBy c streams))
    (hbases : (streams.map Prod.fst).Nodup) (hmem : (ivBase, ops) ∈ streams) :
    (∀ behind, ∃ r, DecryptingReader.new ((finished c ivBase ops).inner ++ behind) = .ok r ∧
      ∀ sizes, ∃ pieces r', r.reads c sizes = (pieces, none, r') ∧
        Yields (written c ivBase ops) sizes pieces ∧
        ((written c ivBase ops).length < sizes.length → (∀ n ∈ sizes, n ≠ 0) →
          pieces.flatten = written c ivBase ops)) ∧
    ((finished c ivBase ops).encrypted.length ≤ 2 ^ 32 →
      ((finished c ivBase ops).encrypted.map Sealed.iv).Nodup ∧
      ∀ s, ¬ (finished c ivBase ops).inner <+: streamPrefix ++ List.ofFn ivBase ++ s →
        (∀ (α : Type) (extract : Extract α), ∃ e,
          restoreBackup c extract (streamPrefix ++ List.ofFn ivBase ++ s) = .error e) ∧
        ∃ r, DecryptingReader.new (streamPrefix ++ List.ofFn ivBase ++ s) = .ok r ∧
          ∀ sizes, (r.reads c sizes).1.flatten <+: written c ivBase ops) := by
  have hgenuine := hideal.genuine hbases hmem
  obtain ⟨chunks, hflatten, hsizes, hencrypted, hinner⟩ := finished_spec c ivBase ops
  rw [hencrypted] at hgenuine
  rw [← hflatten]
  refine ⟨fun behind => ⟨readerOf ivBase (encode c ivBase 0 (chunks ++ [[]]) ++ behind), ?_, ?_⟩,
    fun hfew => ?_⟩
  · rw [hinner, List.append_assoc]
    exact new_readerOf _ _
  · intro sizes
    obtain ⟨pieces, r', hruns, hall, hprefix, heof⟩ :=
      (readerOf_follows chunks _).reads_genuine sizes hsizes hgenuine.accepts
    have hyields : Yields chunks.flatten sizes pieces := ⟨hall, hprefix, heof⟩
    exact ⟨pieces, r', hruns, hyields, hyields.complete⟩
  · rw [hencrypted] at hfew ⊢
    have hlen : chunks.length < 2 ^ 32 := by
      rw [length_sealFrom, List.length_append] at hfew
      exact hfew
    rw [length_sealFrom] at hfew
    refine ⟨nodup_iv (by rw [Nat.zero_add]; exact hfew), fun s hother => ?_⟩
    refine ⟨fun α extract => ?_, _, new_readerOf ivBase s, fun sizes => ?_⟩
    · rcases hrun : restoreBackup c extract (streamPrefix ++ List.ofFn ivBase ++ s) with e | a
      · exact ⟨e, rfl⟩
      · refine absurd ?_ hother
        rw [hinner, List.prefix_append_right_inj]
        exact restoreBackup_genuine hsizes hgenuine hlen hrun
    · exact (readerOf_follows chunks s).reads_any sizes hsizes hgenuine hlen

/-- A cipher under whose key one stream was made, of the byte `7`. -/
def sevenCipher : CryptoAdapter where
  encryptChunk _ _ chunk := (chunk, List.replicate 16 0)
  decryptChunk iv aad chunk tag :=
    if tag = List.replicate 16 0 ∧
      (List.ofFn iv = [0, 0, 0, 0, 0, 0, 0, 0, 0, 0, 0, 0] ∧ aad = [0, 0, 0, 0, 1, 0, 0, 0] ∧
          chunk = [7] ∨
        List.ofFn iv = [0, 0, 0, 0, 0, 0, 0, 0, 0, 0, 0, 1] ∧ aad = [1, 0, 0, 0, 0, 0, 0, 0] ∧
          chunk = [])
    then some chunk else none
  length_encrypt _ _ _ := rfl
  length_tag _ _ _ := rfl
  length_decrypt iv aad chunk tag plain h := by
    split at h
    · cases h
      rfl
    · cases h

def sevenStream : Nonce × List Op := (fun _ => 0, [.write [7]])

theorem encryptedBy_seven : encryptedBy sevenCipher [sevenStream]
    = [sealAt sevenCipher sevenStream.1 0 [7], sealAt sevenCipher sevenStream.1 1 []] := rfl

theorem sevenCipher_ideal : Ideal sevenCipher (encryptedBy sevenCipher [sevenStream]) := by
  rw [encryptedBy_seven]
  refine ⟨fun s hs => ?_, fun iv aad chunk tag plain h => ?_⟩
  · rcases List.mem_cons.mp hs with rfl | hs
    · decide +kernel
    · rw [List.mem_singleton.mp hs]
      decide +kernel
  · change (if _ then _ else _) = some plain at h
    split at h
    · next hmatch =>
      obtain ⟨rfl, ⟨hiv, rfl, rfl⟩ | ⟨hiv, rfl, rfl⟩⟩ := hmatch
      · refine ⟨_, List.mem_cons_self, List.ofFn_injective (Eq.trans ?_ hiv.symm), ?_, rfl, rfl⟩ <;>
          decide +kernel
      · refine ⟨_, List.mem_cons_of_mem _ List.mem_cons_self,
          List.ofFn_injective (Eq.trans ?_ hiv.symm), ?_, rfl, rfl⟩ <;> decide +kernel
    · cases h

/-- One read, and its bytes. -/
def readOnce (n : Nat) : Extract (List UInt8) := .read n fun bytes => .done (some bytes)

/-- The stream of the byte `7`, and the same with its last byte cut off. -/
theorem stream_exact_seven :
    (∀ sizes, ∃ pieces r', (readerOf sevenStream.1
        (encode sevenCipher sevenStream.1 0 [[7], []])).reads sevenCipher sizes
          = (pieces, none, r') ∧ Yields [7] sizes pieces) ∧
      ∃ e, restoreBackup sevenCipher (readOnce 1)
        (streamPrefix ++ List.ofFn sevenStream.1 ++
          (encode sevenCipher sevenStream.1 0 [[7], []]).dropLast) = .error e := by
  obtain ⟨hgenuine, hother⟩ := stream_exact sevenCipher_ideal (List.nodup_singleton _)
    (List.mem_singleton.mpr (rfl : (sevenStream.1, sevenStream.2) = sevenStream))
  refine ⟨fun sizes => ?_, ?_⟩
  · obtain ⟨r, hnew, hreads⟩ := hgenuine []
    obtain rfl : readerOf sevenStream.1 (encode sevenCipher sevenStream.1 0 [[7], []]) = r :=
      Except.ok.inj (((new_readerOf _ _).symm.trans (by rfl)).trans hnew)
    obtain ⟨pieces, r', hruns, hyields, -⟩ := hreads sizes
    exact ⟨pieces, r', hruns, hyields⟩
  · exact ((hother (by decide)).2 _ (by decide +kernel)).1 _ _

/-- Flushed byte by byte, every byte is a chunk. -/
theorem Writes.run_flushed (n : Nat) {w : EncryptingWriter} {chunks : List (List UInt8)}
    {written : List UInt8} (h : Writes (c := c) ivBase w chunks written) (hbuf : w.buffer = []) :
    ∃ written', Writes (c := c) ivBase
        (w.run c (List.replicate n [Op.write [0], Op.flush]).flatten).1
        (chunks ++ List.replicate n [0]) written' ∧
      (w.run c (List.replicate n [Op.write [0], Op.flush]).flatten).1.buffer = [] := by
  induction n generalizing w chunks written with
  | zero =>
    refine ⟨written, ?_, hbuf⟩
    show Writes (c := c) ivBase w (chunks ++ []) written
    rw [List.append_nil]
    exact h
  | succ n ih =>
    have hone : (w.write c [0]).2 = { w with buffer := [0] } := by
      unfold EncryptingWriter.write
      rw [hbuf]
      rfl
    have hheld : Writes (c := c) ivBase { w with buffer := [0] } chunks (written ++ [0]) := by
      refine ⟨h.base, h.counter, h.encrypted, h.inner, ?_, h.sizes⟩
      rw [h.written, hbuf, List.append_nil]
    have hfits : [(0 : UInt8)].length ≤ chunkSize := by decide
    obtain ⟨written', hwrites, hempty⟩ := ih (hheld.writeChunk (List.cons_ne_nil 0 []) hfits) rfl
    rw [List.append_assoc] at hwrites
    refine ⟨written', ?_, ?_⟩
    · show Writes (c := c) ivBase ((((w.write c [0]).2.flush c).run c _).1) _ _
      rw [hone]
      exact hwrites
    · show ((((w.write c [0]).2.flush c).run c _).1).buffer = []
      rw [hone]
      exact hempty

/-- After `2 ^ 32` chunks the nonces start over. -/
theorem nonce_reused (c : CryptoAdapter) (ivBase : Nonce) {n : Nat} (hpos : 0 < n)
    (hwrap : n % 2 ^ 32 = 0) : ¬ ((finished c ivBase
      (List.replicate n [Op.write [0], Op.flush]).flatten).encrypted.map Sealed.iv).Nodup := by
  intro hnodup
  have hnew : Writes (c := c) ivBase (.new ivBase) [] [] :=
    ⟨rfl, rfl, rfl, (List.append_nil _).symm, rfl, nofun⟩
  obtain ⟨written, hwrites, hempty⟩ := hnew.run_flushed n rfl
  have hencrypted := (hwrites.finished hempty).2.2.1
  have hfinished : (finished c ivBase
      (List.replicate n [Op.write [0], Op.flush]).flatten).encrypted
        = sealFrom c ivBase 0 ([] ++ List.replicate n [0] ++ [[]]) := by
    unfold finished EncryptingWriter.finish
    rw [if_neg (by rw [hempty]; decide)]
    exact hencrypted
  have happ : sealFrom c ivBase 0 (List.replicate n [0] ++ [[]]) = _ := sealFrom_append 0 _ _
  rw [hfinished, List.nil_append, happ, List.map_append, List.nodup_append] at hnodup
  have hfirst : sealAt c ivBase (0 + 0) [0] ∈ sealFrom c ivBase 0 (List.replicate n [0]) :=
    sealAt_mem (by rw [List.getElem?_replicate, if_pos hpos])
  refine hnodup.2.2 _ (List.mem_map_of_mem hfirst) _ (List.mem_singleton.mpr rfl) ?_
  show ChunkHeader.iv ⟨(0 + 0) % 2 ^ 32, 1⟩ ivBase
    = ChunkHeader.iv ⟨(0 + (List.replicate n [(0 : UInt8)]).length) % 2 ^ 32, 0⟩ ivBase
  rw [List.length_replicate, Nat.zero_add n, hwrap]
  rfl

/-- A byte behind the end marker is not noticed, and a long stream reuses its nonces. -/
theorem stream_extended :
    Ideal sevenCipher (encryptedBy sevenCipher [sevenStream]) ∧
    restoreBackup sevenCipher (readOnce 1)
        ((finished sevenCipher sevenStream.1 sevenStream.2).inner ++ [0]) = .ok [7] ∧
    ∀ c ivBase, ∃ ops, ¬ ((finished c ivBase ops).encrypted.map Sealed.iv).Nodup :=
  ⟨sevenCipher_ideal, by decide +kernel,
    fun c ivBase => ⟨_, nonce_reused c ivBase (Nat.two_pow_pos 32) (Nat.mod_self _)⟩⟩

end Whole

end Backup.V2
