import KeyOS.Emmc.PipelineRuns

/-!
# The encrypted disk

The crypt engine is given a cluster in parts, as the requests cut it. Each block still gets
the key stream of its own place, so that the disk holds plain blocks to those who read and write it
through the pipeline, whichever requests they come in.
-/

namespace Emmc

open SerialStore

/-! ## 1. Blocks -/

section Blocks

variable {buf buf' : List UInt8} {flash flash' : Flash} {range : BlockRange} {b i k n : Nat}

/-- Block `k` of a buffer. -/
def blockAt (buf : List UInt8) (k : Nat) : List UInt8 :=
  (buf.drop (k * BLOCK_SIZE)).take BLOCK_SIZE

theorem getElem?_blockAt (hi : i < BLOCK_SIZE) :
    (blockAt buf k)[i]? = buf[k * BLOCK_SIZE + i]? := by
  rw [blockAt, List.getElem?_take_of_lt hi, List.getElem?_drop]

theorem length_blockAt (h : (k + 1) * BLOCK_SIZE ≤ buf.length) :
    (blockAt buf k).length = BLOCK_SIZE := by
  rw [Nat.add_mul, Nat.one_mul] at h
  rw [blockAt, List.length_take, List.length_drop]
  omega

theorem index_lt (hk : k < n) (hi : i < BLOCK_SIZE) : k * BLOCK_SIZE + i < n * BLOCK_SIZE :=
  calc k * BLOCK_SIZE + i < (k + 1) * BLOCK_SIZE := by rw [Nat.add_mul, Nat.one_mul]; omega
    _ ≤ n * BLOCK_SIZE := Nat.mul_le_mul_right _ hk

/-- The block of a byte, and its index there. -/
theorem exists_index (a : Nat) : ∃ b, ∃ i < BLOCK_SIZE, a = b * BLOCK_SIZE + i :=
  ⟨a / BLOCK_SIZE, a % BLOCK_SIZE, Nat.mod_lt _ (by decide), (Nat.div_add_mod' _ _).symm⟩

theorem eq_of_blocks (h : buf.length = n * BLOCK_SIZE) (h' : buf'.length = n * BLOCK_SIZE)
    (hblocks : ∀ k < n, blockAt buf k = blockAt buf' k) : buf = buf' := by
  refine List.ext_getElem? fun a => ?_
  obtain ⟨k, i, hi, rfl⟩ := exists_index a
  by_cases hk : k < n
  · rw [← getElem?_blockAt hi, ← getElem?_blockAt hi, hblocks k hk]
  · have hle : n * BLOCK_SIZE ≤ k * BLOCK_SIZE + i :=
      (Nat.mul_le_mul_right _ (Nat.not_lt.1 hk)).trans (Nat.le_add_right _ _)
    rw [List.getElem?_eq_none (h.le.trans hle), List.getElem?_eq_none (h'.le.trans hle)]

theorem blockAt_append_left (h : (k + 1) * BLOCK_SIZE ≤ buf.length) :
    blockAt (buf ++ buf') k = blockAt buf k := by
  rw [Nat.add_mul, Nat.one_mul] at h
  rw [blockAt, blockAt, List.drop_append_of_le_length (by omega), List.take_append_of_le_length]
  rw [List.length_drop]
  omega

theorem blockAt_append_right (h : buf.length = n * BLOCK_SIZE) :
    blockAt (buf ++ buf') (n + k) = blockAt buf' k := by
  rw [blockAt, Nat.add_mul, ← h, List.drop_append, List.drop_eq_nil_of_le (Nat.le_add_right _ _),
    List.nil_append, Nat.add_sub_cancel_left, blockAt]

theorem blockAt_part {o : Nat} (hk : k < n) :
    blockAt ((buf.drop (o * BLOCK_SIZE)).take (n * BLOCK_SIZE)) k = blockAt buf (o + k) := by
  have hlt : k * BLOCK_SIZE + BLOCK_SIZE ≤ n * BLOCK_SIZE := by
    rw [← Nat.succ_mul]
    exact Nat.mul_le_mul_right _ hk
  rw [blockAt, blockAt, List.drop_take, List.take_take, List.drop_drop, ← Nat.add_mul,
    min_eq_left (Nat.le_sub_of_add_le' hlt)]

/-- A block of the flash. -/
def flashBlock (flash : Flash) (b : Nat) : List UInt8 :=
  (List.range BLOCK_SIZE).map fun i => flash (b * BLOCK_SIZE + i)

theorem length_flashBlock : (flashBlock flash b).length = BLOCK_SIZE := by
  simp [flashBlock]

theorem getElem?_flashBlock (hi : i < BLOCK_SIZE) :
    (flashBlock flash b)[i]? = some (flash (b * BLOCK_SIZE + i)) := by
  simp [flashBlock, hi]

theorem flash_ext (h : ∀ b, flashBlock flash b = flashBlock flash' b) : flash = flash' := by
  funext a
  obtain ⟨b, i, hi, rfl⟩ := exists_index a
  exact Option.some_inj.1 (by rw [← getElem?_flashBlock hi, h b, getElem?_flashBlock hi])

theorem block_ext (h : buf.length = BLOCK_SIZE) (h' : buf'.length = BLOCK_SIZE)
    (hi : ∀ i < BLOCK_SIZE, buf[i]? = buf'[i]?) : buf = buf' := by
  refine List.ext_getElem? fun i => ?_
  by_cases hlt : i < BLOCK_SIZE
  · exact hi i hlt
  · rw [List.getElem?_eq_none (by omega), List.getElem?_eq_none (by omega)]

theorem blockAt_readFlash (hk : k < range.count) :
    blockAt (readFlash flash range) k = flashBlock flash (range.start + k) := by
  have hlength : (k + 1) * BLOCK_SIZE ≤ (readFlash flash range).length := by
    rw [length_readFlash]
    exact Nat.mul_le_mul_right _ hk
  refine block_ext (length_blockAt hlength) length_flashBlock fun i hi => ?_
  have hlt : k * BLOCK_SIZE + i < range.bytes := index_lt hk hi
  rw [getElem?_blockAt hi, getElem?_flashBlock hi, Nat.add_mul]
  simp [readFlash, hlt, Nat.add_assoc]

theorem flashBlock_write (hbuf : range.bytes ≤ buf.length) (hk : k < range.count) :
    flashBlock ((writeUpdate range buf).apply flash) (range.start + k) = blockAt buf k := by
  have hlength : (k + 1) * BLOCK_SIZE ≤ buf.length := (Nat.mul_le_mul_right _ hk).trans hbuf
  refine block_ext length_flashBlock (length_blockAt hlength) fun i hi => ?_
  have hlt : k * BLOCK_SIZE + i < range.bytes := index_lt hk hi
  have haddr : (range.start + k) * BLOCK_SIZE + i = range.start * BLOCK_SIZE + (k * BLOCK_SIZE + i) := by
    rw [Nat.add_mul, Nat.add_assoc]
  have hin : range.Contains (range.start * BLOCK_SIZE + (k * BLOCK_SIZE + i)) :=
    BlockRange.contains_iff.2 ⟨_, hlt, rfl⟩
  rw [getElem?_flashBlock hi, getElem?_blockAt hi, haddr, Update.apply, writeUpdate, if_pos hin,
    Nat.add_sub_cancel_left, List.getElem?_eq_getElem (hlt.trans_le hbuf), Option.getD_some]

theorem flashBlock_write_of_not (hb : ¬ (range.start ≤ b ∧ b < range.start + range.count)) :
    flashBlock ((writeUpdate range buf).apply flash) b = flashBlock flash b := by
  refine List.map_congr_left fun i hi => ?_
  have hi := List.mem_range.1 hi
  refine Update.apply_of_none (a := b * BLOCK_SIZE + i) (if_neg fun hin => hb ?_) flash
  obtain ⟨hle, hlt⟩ := hin
  constructor
  · by_contra hno
    exact absurd hle (Nat.not_le.2 (index_lt (Nat.not_le.1 hno) hi))
  · exact Nat.lt_of_mul_lt_mul_right ((Nat.le_add_right _ i).trans_lt hlt)

end Blocks

/-! ## 2. The cipher -/

/-- A cipher for the disk: AES blocks are done one by one, each by its place, and decryption
undoes encryption. -/
structure XtsEngine extends CryptEngine where
  diskEncrypt_append : ∀ (tweak j : Nat) (dir : CryptDirection) (src src' : List UInt8),
    AES_BLOCK_SIZE ∣ src.length → diskEncrypt tweak j dir (src ++ src') =
      diskEncrypt tweak j dir src ++ diskEncrypt tweak (j + src.length / AES_BLOCK_SIZE) dir src'
  decrypt_encrypt : ∀ (tweak j : Nat) (src : List UInt8), AES_BLOCK_SIZE ∣ src.length →
    diskEncrypt tweak j .decrypt (diskEncrypt tweak j .encrypt src) = src

namespace XtsEngine

variable (E : XtsEngine) {dir : CryptDirection} {range : BlockRange} {src : List UInt8}
  {b k n o : Nat}

/-- A block of the disk, at its place. -/
def cryptBlock (dir : CryptDirection) (b : Nat) (block : List UInt8) : List UInt8 :=
  E.diskEncrypt (b / XTS_CLUSTER_BLOCKS % 2 ^ 32)
    (b % XTS_CLUSTER_BLOCKS * BLOCK_SIZE / AES_BLOCK_SIZE) dir block

theorem length_cryptBlock (block : List UInt8) : (E.cryptBlock dir b block).length = block.length :=
  E.length_diskEncrypt ..

theorem cryptBlock_cryptBlock (hsrc : src.length = BLOCK_SIZE) :
    E.cryptBlock .decrypt b (E.cryptBlock .encrypt b src) = src :=
  E.decrypt_encrypt _ _ _ (hsrc ▸ (by decide))

/-- A block in the middle of what the engine is given. -/
theorem blockAt_diskEncrypt (tweak j : Nat) (h : (k + 1) * BLOCK_SIZE ≤ src.length) :
    blockAt (E.diskEncrypt tweak j dir src) k =
      E.diskEncrypt tweak (j + k * BLOCK_SIZE / AES_BLOCK_SIZE) dir (blockAt src k) := by
  have hle : k * BLOCK_SIZE + BLOCK_SIZE ≤ src.length := by rwa [Nat.add_mul, Nat.one_mul] at h
  have hbefore : (src.take (k * BLOCK_SIZE)).length = k * BLOCK_SIZE :=
    List.length_take_of_le ((Nat.le_add_right _ _).trans hle)
  have hblock := length_blockAt h
  have hcut : src = src.take (k * BLOCK_SIZE) ++
      (blockAt src k ++ (src.drop (k * BLOCK_SIZE)).drop BLOCK_SIZE) := by
    rw [blockAt, List.take_append_drop, List.take_append_drop]
  have hdvd : AES_BLOCK_SIZE ∣ k * BLOCK_SIZE := Dvd.dvd.mul_left (by decide) k
  have hright (l l' : List UInt8) (hl : l.length = k * BLOCK_SIZE) :
      blockAt (l ++ l') k = blockAt l' 0 := blockAt_append_right (k := 0) hl
  conv_lhs => rw [hcut]
  rw [E.diskEncrypt_append _ _ _ _ _ (hbefore.symm ▸ hdvd),
    E.diskEncrypt_append _ _ _ _ _ (hblock.symm ▸ (by decide)), hbefore,
    hright _ _ ((E.length_diskEncrypt ..).trans hbefore), blockAt_append_left]
  · rw [blockAt, Nat.zero_mul, List.drop_zero, List.take_of_length_le]
    exact ((E.length_diskEncrypt ..).trans hblock).le
  · rw [E.length_diskEncrypt, hblock, Nat.zero_add, Nat.one_mul]

/-- Blocks of one cluster. -/
theorem place_add (h : b % XTS_CLUSTER_BLOCKS + k < XTS_CLUSTER_BLOCKS) :
    (b + k) / XTS_CLUSTER_BLOCKS = b / XTS_CLUSTER_BLOCKS ∧
      (b + k) % XTS_CLUSTER_BLOCKS = b % XTS_CLUSTER_BLOCKS + k := by
  simp only [XTS_CLUSTER_BLOCKS] at h ⊢
  omega

/-- However the request lies in its clusters, each block is done at its place. -/
theorem cryptFrom_blocks (hsrc : range.bytes ≤ src.length) (ho : o ≤ range.count) :
    (cryptFrom E.toCryptEngine dir range src (o * BLOCK_SIZE)).length =
        (range.count - o) * BLOCK_SIZE ∧
      ∀ k < range.count - o,
        blockAt (cryptFrom E.toCryptEngine dir range src (o * BLOCK_SIZE)) k =
          E.cryptBlock dir (range.start + (o + k)) (blockAt src (o + k)) := by
  induction hleft : range.count - o using Nat.strong_induction_on generalizing o with
  | h left ih => ?_
  by_cases hlt : o < range.count
  · have hoffset : o * BLOCK_SIZE < range.bytes := Nat.mul_lt_mul_of_pos_right hlt (by decide)
    obtain ⟨n, hn, hwithin, hcount, hsub⟩ : ∃ n, 0 < n ∧
        (range.start + o) % XTS_CLUSTER_BLOCKS + n ≤ XTS_CLUSTER_BLOCKS ∧ o + n ≤ range.count ∧
          cryptSubOp range (o * BLOCK_SIZE) =
            ⟨range.start + o, (range.start + o) % XTS_CLUSTER_BLOCKS, n * BLOCK_SIZE⟩ := by
      have hmod := Nat.mod_lt (range.start + o) (show 0 < XTS_CLUSTER_BLOCKS by decide)
      refine ⟨min (XTS_CLUSTER_BLOCKS - (range.start + o) % XTS_CLUSTER_BLOCKS) (range.count - o),
        by omega, by omega, by omega, ?_⟩
      rw [cryptSubOp, Nat.mul_div_cancel o (by decide)]
    rw [cryptFrom_of_lt hoffset, hsub]
    dsimp only [CryptSubOp.tweak, CryptSubOp.j]
    rw [← Nat.add_mul]
    obtain ⟨hlength, hblocks⟩ := ih (range.count - (o + n)) (by omega) hcount rfl
    have hpart : ((src.drop (o * BLOCK_SIZE)).take (n * BLOCK_SIZE)).length = n * BLOCK_SIZE := by
      have hle : (o + n) * BLOCK_SIZE ≤ src.length := (Nat.mul_le_mul_right _ hcount).trans hsrc
      rw [Nat.add_mul] at hle
      rw [List.length_take, List.length_drop]
      omega
    have hdone := (E.length_diskEncrypt ((range.start + o) / XTS_CLUSTER_BLOCKS % 2 ^ 32)
      ((range.start + o) % XTS_CLUSTER_BLOCKS * BLOCK_SIZE / AES_BLOCK_SIZE) dir _).trans hpart
    constructor
    · rw [List.length_append, hdone, hlength, ← Nat.add_mul]
      congr 1
      omega
    · intro k hk
      by_cases hkn : k < n
      · have hle : (k + 1) * BLOCK_SIZE ≤ n * BLOCK_SIZE := Nat.mul_le_mul_right _ hkn
        rw [blockAt_append_left (hle.trans hdone.ge),
          E.blockAt_diskEncrypt _ _ (hle.trans hpart.ge), blockAt_part hkn, cryptBlock,
          ← Nat.add_assoc]
        obtain ⟨hcluster, hplace⟩ := @place_add (range.start + o) k (by omega)
        have hdvd : AES_BLOCK_SIZE ∣ k * BLOCK_SIZE := Dvd.dvd.mul_left (by decide) k
        rw [hcluster, hplace, Nat.add_mul, Nat.add_div_of_dvd_left hdvd]
      · obtain ⟨k, rfl⟩ := Nat.exists_eq_add_of_le (Nat.not_lt.1 hkn)
        rw [blockAt_append_right hdone, hblocks k (by omega), Nat.add_assoc o n k]
  · obtain rfl : o = range.count := Nat.le_antisymm ho (Nat.not_lt.1 hlt)
    have hle : range.bytes ≤ range.count * BLOCK_SIZE := Nat.le_refl _
    rw [cryptFrom_of_le hle, ← hleft, Nat.sub_self, Nat.zero_mul]
    exact ⟨rfl, fun k hk => absurd hk (Nat.not_lt_zero k)⟩

/-! ## 3. The plain disk -/

/-- Block `b` in the clear, where `enc` says which blocks are encrypted. -/
def plainBlock (enc : Nat → Bool) (flash : Flash) (b : Nat) : List UInt8 :=
  if enc b then E.cryptBlock .decrypt b (flashBlock flash b) else flashBlock flash b

def plainView (enc : Nat → Bool) (flash : Flash) : Flash := fun addr =>
  (E.plainBlock enc flash (addr / BLOCK_SIZE)).getD (addr % BLOCK_SIZE) 0

variable {E} {enc : Nat → Bool} {flash base : Flash} {r : Request} {requests : List Request}

theorem flashBlock_plainView : flashBlock (E.plainView enc flash) b = E.plainBlock enc flash b := by
  have hlength : (E.plainBlock enc flash b).length = BLOCK_SIZE := by
    unfold plainBlock
    split
    · exact (E.length_cryptBlock _).trans length_flashBlock
    · exact length_flashBlock
  refine block_ext length_flashBlock hlength fun i hi => ?_
  have hdiv : (b * BLOCK_SIZE + i) / BLOCK_SIZE = b := by
    rw [Nat.mul_comm, Nat.mul_add_div (by decide), Nat.div_eq_of_lt hi, Nat.add_zero]
  have hmod : (b * BLOCK_SIZE + i) % BLOCK_SIZE = i := by
    rw [Nat.mul_comm, Nat.mul_add_mod, Nat.mod_eq_of_lt hi]
  rw [getElem?_flashBlock hi, plainView, hdiv, hmod,
    List.getD_eq_getElem _ _ (hlength.symm ▸ hi), ← List.getElem?_eq_getElem]

end XtsEngine

namespace Request

/-- What the request does to the plain disk. -/
def plainUpdate (r : Request) : Update Nat UInt8 :=
  match r.op with
  | .plainWriteSdmmc buf => writeUpdate r.range buf
  | .encWriteCrypt _ _ deferred => writeUpdate r.range deferred.buf
  | _ => .none

/-- What the request answers from the plain disk. -/
def plainAnswer (r : Request) (flash : Flash) : List UInt8 :=
  match r.op with
  | .plainReadSdmmc .. | .encReadSdmmc .. => readFlash flash r.range
  | _ => []

/-- The blocks of the request are all of the kind that it takes them for. -/
def Within (enc : Nat → Bool) (r : Request) : Prop :=
  ∀ k < r.range.count, match r.op with
    | .encReadSdmmc .. | .encWriteCrypt .. => enc (r.range.start + k) = true
    | .plainReadSdmmc .. | .plainWriteSdmmc .. => enc (r.range.start + k) = false
    | _ => True

end Request

/-- The plain disk after the first `n` requests, one at a time. -/
def plainFlash (requests : List Request) (base : Flash) (n : Nat) : Flash :=
  serial ((requests.map Request.plainUpdate).take n) base

namespace XtsEngine

variable {E : XtsEngine} {enc : Nat → Bool} {flash base : Flash} {r : Request}
  {requests : List Request} {range : BlockRange} {buf buf' : List UInt8} {n : Nat}

theorem readFlash_plainView (h : ∀ k < range.count, enc (range.start + k) = true) :
    cryptFrom E.toCryptEngine .decrypt range (readFlash flash range) 0 =
      readFlash (E.plainView enc flash) range := by
  obtain ⟨hlength, hblocks⟩ := @cryptFrom_blocks E .decrypt range (readFlash flash range) 0
    (length_readFlash _ _).ge (Nat.zero_le _)
  rw [Nat.zero_mul, Nat.sub_zero] at hlength hblocks
  refine eq_of_blocks hlength (length_readFlash _ _) fun k hk => ?_
  rw [hblocks k hk, blockAt_readFlash hk, Nat.zero_add, blockAt_readFlash hk, flashBlock_plainView,
    plainBlock, if_pos (h k hk)]

theorem answer_eq (h : r.Within enc) :
    r.answer E.toCryptEngine flash = r.plainAnswer (E.plainView enc flash) := by
  unfold Request.Within at h
  unfold Request.answer Request.plainAnswer
  cases hop : r.op with
  | encReadSdmmc ciphertext deferred =>
    rw [hop] at h
    exact readFlash_plainView h
  | plainReadSdmmc dmaBuf deferred =>
    rw [hop] at h
    refine eq_of_blocks (length_readFlash _ _) (length_readFlash _ _) fun k hk => ?_
    have hplain : ¬ enc (r.range.start + k) = true := Bool.not_eq_true _ ▸ h k hk
    rw [blockAt_readFlash hk, blockAt_readFlash hk, flashBlock_plainView, plainBlock, if_neg hplain]
  | _ => rfl

/-- A write of `buf` to the flash is one of `buf'` to the plain disk. -/
theorem plainView_write (hbuf : range.bytes ≤ buf.length) (hbuf' : range.bytes ≤ buf'.length)
    (h : ∀ k < range.count, (if enc (range.start + k) then
      E.cryptBlock .decrypt (range.start + k) (blockAt buf k) else blockAt buf k) = blockAt buf' k) :
    E.plainView enc ((writeUpdate range buf).apply flash) =
      (writeUpdate range buf').apply (E.plainView enc flash) := by
  refine flash_ext fun b => ?_
  rw [flashBlock_plainView, plainBlock]
  by_cases hb : range.start ≤ b ∧ b < range.start + range.count
  · obtain ⟨k, rfl⟩ := Nat.exists_eq_add_of_le hb.1
    have hk : k < range.count := Nat.lt_of_add_lt_add_left hb.2
    rw [flashBlock_write hbuf hk, flashBlock_write hbuf' hk]
    exact h k hk
  · rw [flashBlock_write_of_not hb, flashBlock_write_of_not hb, flashBlock_plainView, plainBlock]

theorem plainView_update (h : r.Within enc) :
    E.plainView enc ((r.update E.toCryptEngine).apply flash) =
      r.plainUpdate.apply (E.plainView enc flash) := by
  have hadmits := r.admits
  unfold Request.Within at h
  unfold Request.update Request.plainUpdate
  cases hop : r.op with
  | plainWriteSdmmc buf =>
    rw [hop] at h hadmits
    refine plainView_write hadmits.2 hadmits.2 fun k hk => if_neg ?_
    rw [h k hk]
    exact Bool.false_ne_true
  | encWriteCrypt ciphertext offset deferred =>
    rw [hop] at h hadmits
    obtain ⟨-, -, hsrc, -⟩ := hadmits
    obtain ⟨hlength, hblocks⟩ := @cryptFrom_blocks E .encrypt r.range deferred.buf 0 hsrc
      (Nat.zero_le _)
    rw [Nat.zero_mul, Nat.sub_zero] at hlength hblocks
    refine plainView_write hlength.ge hsrc fun k hk => ?_
    rw [if_pos (h k hk), hblocks k hk, Nat.zero_add, cryptBlock_cryptBlock]
    exact length_blockAt ((Nat.mul_le_mul_right _ hk).trans hsrc)
  | _ => rfl

theorem plainView_serial (h : ∀ r ∈ requests, r.Within enc) (n : Nat) :
    E.plainView enc (serialFlash E.toCryptEngine requests base n) =
      plainFlash requests (E.plainView enc base) n := by
  induction n with
  | zero => rfl
  | succ n ih =>
    unfold serialFlash plainFlash at ih ⊢
    cases hr : requests[n]? with
    | none =>
      rw [List.take_add_one, List.take_add_one, List.getElem?_map, List.getElem?_map, hr]
      simpa using ih
    | some r =>
      rw [serial_take_succ (by rw [List.getElem?_map, hr]; rfl :
        (requests.map (Request.update E.toCryptEngine))[n]? = some _),
        serial_take_succ (by rw [List.getElem?_map, hr]; rfl :
        (requests.map Request.plainUpdate)[n]? = some _), ← ih]
      exact plainView_update (h r (List.mem_of_getElem? hr))

/-- In every run, reads of encrypted and of plain blocks answer what a plain disk would that
does the requests one at a time, and nothing is left to do only if the disk holds what that disk
does. -/
theorem encrypted_serial (E : XtsEngine) (enc : Nat → Bool) (flash : Flash) (actions : List Action)
    (h : ∀ r ∈ requestsOf actions, r.Within enc) :
    ∃ m, run E.toCryptEngine actions (.new flash) = some m ∧
      (∀ i r, (requestsOf actions)[i]? = some r → answers m.pipeline.log i = [] ∨
        answers m.pipeline.log i =
          [r.plainAnswer (plainFlash (requestsOf actions) (E.plainView enc flash) i)]) ∧
      (m.pipeline.pending = [] →
        (∀ i r, (requestsOf actions)[i]? = some r → answers m.pipeline.log i =
          [r.plainAnswer (plainFlash (requestsOf actions) (E.plainView enc flash) i)]) ∧
        E.plainView enc m.flash = plainFlash (requestsOf actions) (E.plainView enc flash)
          (requestsOf actions).length) := by
  have hnew : (Machine.new flash).Sound E.toCryptEngine (requestsOf actions) flash 0 := .new _ _ flash
  obtain ⟨m, hrun, hsound, -⟩ := run_keeps hnew List.prefix_rfl
  rw [Nat.zero_add] at hsound
  have hinFlight := hsound.inFlight
  have hanswers (i : Nat) (r : Request) (hr : (requestsOf actions)[i]? = some r) :=
    hinFlight.justified.answers hr
  have hplain (i : Nat) (r : Request) (hr : (requestsOf actions)[i]? = some r) :
      r.answer E.toCryptEngine (serialFlash E.toCryptEngine (requestsOf actions) flash i) =
        r.plainAnswer (plainFlash (requestsOf actions) (E.plainView enc flash) i) := by
    rw [answer_eq (h r (List.mem_of_getElem? hr)), plainView_serial h]
  refine ⟨m, hrun, fun i r hr => hplain i r hr ▸ hanswers i r hr, fun hpending => ?_⟩
  have hreleased (i : Nat) (hi : i < (requestsOf actions).length) :
      .released i ∈ m.pipeline.log :=
    (hinFlight.released_iff i).2 ⟨hi, fun s hs => (by rw [hpending] at hs; cases hs)⟩
  refine ⟨fun i r hr => ?_, ?_⟩
  · rw [← hplain i r hr]
    refine (hanswers i r hr).resolve_left fun hnone => answers_eq_nil_iff.1 hnone ?_
    exact hinFlight.justified.answered_of_released
      (hreleased i (List.getElem?_eq_some_iff.1 hr).1)
  · rw [← plainView_serial h, serialFlash, List.take_of_length_le (Nat.le_of_eq (List.length_map _))]
    congr 1
    refine hinFlight.holds.final fun i hi => hreleased i ?_
    rwa [List.length_map] at hi

/-! ## 4. A cipher -/

/-- A key of one byte for each cluster. -/
def xorEngine : XtsEngine where
  diskEncrypt tweak _ _ src := src.map (· ^^^ UInt8.ofNat (7 * tweak + 1))
  length_diskEncrypt _ _ _ _ := List.length_map _
  diskEncrypt_append _ _ _ _ _ _ := List.map_append
  decrypt_encrypt tweak _ src _ := by simp [Function.comp_def]

def cipherWrite : Request :=
  ⟨.encWriteCrypt (List.replicate 1024 0) 0 ⟨List.replicate 1024 5⟩, ⟨63, 2⟩,
    ⟨by decide, by decide⟩, rfl, Nat.le_of_eq List.length_replicate.symm,
    Nat.le_of_eq List.length_replicate.symm⟩

/-- A write across the end of a cluster -/
theorem encrypted_serial_across :
    ∃ m, run xorEngine.toCryptEngine [.request cipherWrite, .cryptDone] (.new fun _ => 0) = some m ∧
      (m.pipeline.pending = [] →
        xorEngine.plainView (fun b => decide (32 ≤ b)) m.flash = plainFlash [cipherWrite]
          (xorEngine.plainView (fun b => decide (32 ≤ b)) fun _ => 0) 1) := by
  refine (encrypted_serial xorEngine (fun b => decide (32 ≤ b)) (fun _ => 0)
    [.request cipherWrite, .cryptDone] fun r hr => ?_).imp
      fun m h => ⟨h.1, fun hpending => (h.2.2 hpending).2⟩
  cases List.mem_singleton.1 hr
  intro k _
  exact decide_eq_true ((show 32 ≤ 63 by decide).trans (Nat.le_add_right 63 k))

end XtsEngine

end Emmc
