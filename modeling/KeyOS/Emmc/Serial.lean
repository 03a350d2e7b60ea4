import KeyOS.Emmc.Pipeline

/-!
# What the operations mean

`Request.update` and `Request.answer` say what a request does to the flash and what it
answers when it is the only one. `Phase` follows an operation through its steps: its
buffers hold what the steps done so far leave of that.
-/

namespace Emmc

open SerialStore

/-! ## 1. Buffers -/

theorem subrange_of_le {buf : List UInt8} {offset len : Nat} (h : offset + len ≤ buf.length)
    (hlen : 0 < len) : subrange buf offset len = some ((buf.drop offset).take len) :=
  if_neg fun hno => hno.elim (Nat.not_lt.2 h) (Nat.ne_of_gt hlen)

theorem length_splice {buf data : List UInt8} {offset : Nat}
    (h : offset + data.length ≤ buf.length) : (splice buf offset data).length = buf.length := by
  rw [splice, List.length_append, List.length_append, List.length_take, List.length_drop]
  omega

/-- Up to the end of the stored data, the old bytes are followed by the new ones. -/
theorem take_splice {buf data : List UInt8} {offset : Nat}
    (h : offset + data.length ≤ buf.length) :
    (splice buf offset data).take (offset + data.length) = buf.take offset ++ data := by
  have hlength : (buf.take offset ++ data).length = offset + data.length := by
    rw [List.length_append, List.length_take]
    omega
  rw [splice, ← hlength, List.take_left]

theorem take_splice_zero {buf data : List UInt8} (h : data.length ≤ buf.length) :
    (splice buf 0 data).take data.length = data := by
  have := take_splice (by rwa [Nat.zero_add] : 0 + data.length ≤ buf.length)
  rwa [Nat.zero_add, List.take_zero, List.nil_append] at this

theorem length_readFlash (flash : Flash) (range : BlockRange) :
    (readFlash flash range).length = range.bytes := by
  rw [readFlash, List.length_map, List.length_range]

theorem BlockRange.contains_iff {range : BlockRange} {addr : Nat} :
    range.Contains addr ↔
      ∃ k < range.bytes, addr = range.start * BLOCK_SIZE + k := by
  unfold Contains bytes
  rw [Nat.add_mul]
  constructor
  · intro h
    exact ⟨addr - range.start * BLOCK_SIZE, by omega, by omega⟩
  · rintro ⟨k, hk, rfl⟩
    exact ⟨Nat.le_add_right _ _, Nat.add_lt_add_left hk _⟩

/-- Reading a range depends on the bytes in it. -/
theorem readFlash_congr {flash flash' : Flash} {range : BlockRange}
    (h : ∀ addr, range.Contains addr → flash addr = flash' addr) :
    readFlash flash range = readFlash flash' range := by
  refine List.map_congr_left fun k hk => h _ ?_
  exact BlockRange.contains_iff.2 ⟨k, List.mem_range.1 hk, rfl⟩

theorem writeUpdate_congr {range : BlockRange} {buf buf' : List UInt8}
    (h : buf.take range.bytes = buf'.take range.bytes) :
    writeUpdate range buf = writeUpdate range buf' := by
  funext addr
  unfold writeUpdate
  split
  · next hin =>
    obtain ⟨k, hk, rfl⟩ := BlockRange.contains_iff.1 hin
    rw [Nat.add_sub_cancel_left, ← List.getElem?_take_of_lt hk, h, List.getElem?_take_of_lt hk]
  · rfl

theorem contains_of_writeUpdate {range : BlockRange} {buf : List UInt8} {addr : Nat} {v : UInt8}
    (h : writeUpdate range buf addr = some v) : range.Contains addr := by
  unfold writeUpdate at h
  split at h
  · next hin => exact hin
  · cases h

/-- Ranges with a byte in common overlap. -/
theorem overlap_of_contains {a b : BlockRange} {addr : Nat} (ha : a.Contains addr)
    (hb : b.Contains addr) : a.rangesOverlap b = true := by
  have hlt : a.start < b.start + b.count := Nat.lt_of_mul_lt_mul_right (ha.1.trans_lt hb.2)
  have hlt' : b.start < a.start + a.count := Nat.lt_of_mul_lt_mul_right (hb.1.trans_lt ha.2)
  rw [BlockRange.rangesOverlap, decide_eq_true hlt, decide_eq_true hlt']
  rfl

/-! ## 2. The sub-ops of an encryption -/

theorem cryptSubOp_len_pos {range : BlockRange} {offset : Nat} (h : offset < range.bytes) :
    0 < (cryptSubOp range offset).len := by
  have hlt : offset / BLOCK_SIZE < range.count := Nat.div_lt_of_lt_mul (Nat.mul_comm _ _ ▸ h)
  have hmod : (range.start + offset / BLOCK_SIZE) % XTS_CLUSTER_BLOCKS < XTS_CLUSTER_BLOCKS :=
    Nat.mod_lt _ (by decide)
  refine Nat.mul_pos (lt_min ?_ ?_) (by decide)
  · exact Nat.sub_pos_of_lt hmod
  · exact Nat.sub_pos_of_lt hlt

theorem cryptSubOp_len_mod (range : BlockRange) (offset : Nat) :
    (cryptSubOp range offset).len % BLOCK_SIZE = 0 := Nat.mul_mod_left _ _

theorem cryptSubOp_len_le {range : BlockRange} {offset : Nat} (hmod : offset % BLOCK_SIZE = 0)
    (h : offset < range.bytes) : offset + (cryptSubOp range offset).len ≤ range.bytes := by
  have hlt : offset / BLOCK_SIZE < range.count := Nat.div_lt_of_lt_mul (Nat.mul_comm _ _ ▸ h)
  have hlen : (cryptSubOp range offset).len ≤ (range.count - offset / BLOCK_SIZE) * BLOCK_SIZE :=
    Nat.mul_le_mul_right _ (min_le_right _ _)
  have hoffset : offset / BLOCK_SIZE * BLOCK_SIZE = offset :=
    Nat.div_mul_cancel (Nat.dvd_of_mod_eq_zero hmod)
  calc offset + (cryptSubOp range offset).len
      ≤ offset / BLOCK_SIZE * BLOCK_SIZE + (range.count - offset / BLOCK_SIZE) * BLOCK_SIZE := by
        rw [hoffset]
        exact Nat.add_le_add_left hlen offset
    _ = range.bytes := by
        rw [← Nat.add_mul, Nat.add_sub_cancel' hlt.le]
        rfl

/-- The rest of an encryption, from an offset on. -/
def cryptFrom (E : CryptEngine) (dir : CryptDirection) (range : BlockRange) (src : List UInt8)
    (offset : Nat) : List UInt8 :=
  if offset < range.bytes then
    let sub := cryptSubOp range offset
    E.diskEncrypt sub.tweak sub.j dir ((src.drop offset).take sub.len) ++
      cryptFrom E dir range src (offset + sub.len)
  else []
termination_by range.bytes - offset
decreasing_by
  have := cryptSubOp_len_pos (by assumption : offset < range.bytes)
  omega

variable {E : CryptEngine} {dir : CryptDirection} {range : BlockRange} {src src' dst : List UInt8}
  {offset : Nat}

theorem cryptFrom_of_lt (h : offset < range.bytes) :
    cryptFrom E dir range src offset =
      E.diskEncrypt (cryptSubOp range offset).tweak (cryptSubOp range offset).j dir
        ((src.drop offset).take (cryptSubOp range offset).len) ++
      cryptFrom E dir range src (offset + (cryptSubOp range offset).len) := by
  rw [cryptFrom, if_pos h]

theorem cryptFrom_of_le (h : range.bytes ≤ offset) : cryptFrom E dir range src offset = [] := by
  rw [cryptFrom, if_neg (Nat.not_lt.2 h)]

/-- An encryption reads the bytes of its range only. -/
theorem cryptFrom_congr (h : src.take range.bytes = src'.take range.bytes) (offset : Nat)
    (hmod : offset % BLOCK_SIZE = 0) :
    cryptFrom E dir range src offset = cryptFrom E dir range src' offset := by
  induction hleft : range.bytes - offset using Nat.strong_induction_on generalizing offset with
  | h left ih => ?_
  by_cases hlt : offset < range.bytes
  · have hpos := cryptSubOp_len_pos hlt
    have hle := cryptSubOp_len_le hmod hlt
    have hpart : ∀ l : List UInt8, (l.drop offset).take (cryptSubOp range offset).len =
        ((l.take range.bytes).drop offset).take (cryptSubOp range offset).len := by
      intro l
      rw [List.drop_take, List.take_take, min_eq_left (Nat.le_sub_of_add_le' hle)]
    rw [cryptFrom_of_lt hlt, cryptFrom_of_lt hlt, hpart src, hpart src', h]
    congr 1
    refine ih _ ?_ _ ?_ rfl
    · omega
    rw [Nat.add_mod, hmod, cryptSubOp_len_mod]
    rfl
  · rw [cryptFrom_of_le (Nat.not_lt.1 hlt), cryptFrom_of_le (Nat.not_lt.1 hlt)]

/-- The sub-ops before `offset` are done, and at least one is left. -/
structure Crypted (E : CryptEngine) (dir : CryptDirection) (range : BlockRange)
    (src dst : List UInt8) (offset : Nat) : Prop where
  aligned : offset % BLOCK_SIZE = 0
  lt : offset < range.bytes
  src_le : range.bytes ≤ src.length
  dst_le : range.bytes ≤ dst.length
  so_far : dst.take offset ++ cryptFrom E dir range src offset = cryptFrom E dir range src 0

theorem Crypted.start (hpos : 0 < range.count) (hsrc : range.bytes ≤ src.length)
    (hdst : range.bytes ≤ dst.length) : Crypted E dir range src dst 0 :=
  ⟨rfl, Nat.mul_pos hpos (by decide), hsrc, hdst, by rw [List.take_zero, List.nil_append]⟩

/-- The source of the next sub-op, and its destination. -/
theorem Crypted.subranges (h : Crypted E dir range src dst offset) :
    subrange src offset (cryptSubOp range offset).len =
        some ((src.drop offset).take (cryptSubOp range offset).len) ∧
      subrange dst offset (cryptSubOp range offset).len =
        some ((dst.drop offset).take (cryptSubOp range offset).len) := by
  have hle := cryptSubOp_len_le h.aligned h.lt
  exact ⟨subrange_of_le (hle.trans h.src_le) (cryptSubOp_len_pos h.lt),
    subrange_of_le (hle.trans h.dst_le) (cryptSubOp_len_pos h.lt)⟩

/-- The destination after the next sub-op. -/
def cryptInto (E : CryptEngine) (dir : CryptDirection) (range : BlockRange)
    (src dst : List UInt8) (offset : Nat) : List UInt8 :=
  splice dst offset (E.diskEncrypt (cryptSubOp range offset).tweak (cryptSubOp range offset).j dir
    ((src.drop offset).take (cryptSubOp range offset).len))

theorem Crypted.next (h : Crypted E dir range src dst offset) :
    range.bytes ≤ (cryptInto E dir range src dst offset).length ∧
      (offset + (cryptSubOp range offset).len < range.bytes →
        Crypted E dir range src (cryptInto E dir range src dst offset)
          (offset + (cryptSubOp range offset).len)) ∧
      (range.bytes ≤ offset + (cryptSubOp range offset).len →
        (cryptInto E dir range src dst offset).take range.bytes =
          cryptFrom E dir range src 0) := by
  have hle := cryptSubOp_len_le h.aligned h.lt
  have hlength : (E.diskEncrypt (cryptSubOp range offset).tweak (cryptSubOp range offset).j dir
      ((src.drop offset).take (cryptSubOp range offset).len)).length =
      (cryptSubOp range offset).len := by
    rw [E.length_diskEncrypt, List.length_take, List.length_drop]
    exact min_eq_left (Nat.le_sub_of_add_le' (hle.trans h.src_le))
  have hfits := hle.trans h.dst_le
  have hso_far := h.so_far
  rw [cryptFrom_of_lt h.lt, ← List.append_assoc] at hso_far
  unfold cryptInto
  generalize E.diskEncrypt (cryptSubOp range offset).tweak (cryptSubOp range offset).j dir
    ((src.drop offset).take (cryptSubOp range offset).len) = data at *
  have htake := take_splice (by rwa [hlength] : offset + data.length ≤ dst.length)
  rw [hlength] at htake
  rw [← htake] at hso_far
  have hdst : range.bytes ≤ (splice dst offset data).length := by
    rw [length_splice (by rwa [hlength])]
    exact h.dst_le
  refine ⟨hdst, fun hlt => ⟨?_, hlt, h.src_le, hdst, hso_far⟩, fun hge => ?_⟩
  · rw [Nat.add_mod, h.aligned, cryptSubOp_len_mod]
    rfl
  · rw [cryptFrom_of_le hge, List.append_nil] at hso_far
    rw [← hso_far, Nat.le_antisymm hle hge]

/-! ## 3. Requests one at a time -/

namespace Request

/-- What the request does to the flash. -/
def update (E : CryptEngine) (r : Request) : Update Nat UInt8 :=
  match r.op with
  | .plainWriteSdmmc buf => writeUpdate r.range buf
  | .encWriteCrypt _ _ deferred =>
    writeUpdate r.range (cryptFrom E .encrypt r.range deferred.buf 0)
  | _ => .none

/-- What the request answers. -/
def answer (E : CryptEngine) (r : Request) (flash : Flash) : List UInt8 :=
  match r.op with
  | .plainReadSdmmc .. => readFlash flash r.range
  | .encReadSdmmc .. => cryptFrom E .decrypt r.range (readFlash flash r.range) 0
  | _ => []

theorem contains_of_update {r : Request} {addr : Nat} {v : UInt8}
    (h : r.update E addr = some v) : r.range.Contains addr := by
  unfold update at h
  cases hop : r.op with
  | plainWriteSdmmc buf =>
    rw [hop] at h
    exact contains_of_writeUpdate h
  | encWriteCrypt ciphertext offset deferred =>
    rw [hop] at h
    exact contains_of_writeUpdate h
  | _ =>
    rw [hop] at h
    cases h

theorem range_of_flush {r : Request} (hop : r.op = .flush) : r.range = .full := by
  have hadmits := r.admits
  rw [hop] at hadmits
  exact hadmits

/-- A flush overlaps every operation. -/
theorem full_overlaps (r : Request) : BlockRange.full.rangesOverlap r.range = true := by
  have hadmits := r.admits
  have hrange : 0 < r.range.count ∧ r.range.start + r.range.count ≤ 2 ^ 32 - 1 := by
    cases hr : r.op with
    | flush =>
      rw [range_of_flush hr]
      decide
    | plainReadSdmmc => exact (hr ▸ hadmits).1
    | encReadSdmmc => exact (hr ▸ hadmits).1
    | plainWriteSdmmc => exact (hr ▸ hadmits).1
    | encWriteCrypt => exact (hr ▸ hadmits).1
    | encReadCrypt =>
      rw [hr] at hadmits
      exact absurd hadmits id
    | encWriteSdmmc =>
      rw [hr] at hadmits
      exact absurd hadmits id
  have hlt : r.range.start < 0 + (2 ^ 32 - 1) := by omega
  have hlt' : 0 < r.range.start + r.range.count := by omega
  rw [BlockRange.rangesOverlap, BlockRange.full, decide_eq_true hlt, decide_eq_true hlt']
  rfl

end Request

/-- The flash after the first `n` requests, one at a time. -/
def serialFlash (E : CryptEngine) (requests : List Request) (base : Flash) (n : Nat) : Flash :=
  serial ((requests.map (Request.update E)).take n) base

/-! ## 4. Phases -/

/-- How far an operation has come, with the flash before its request as `base`. -/
inductive Phase (E : CryptEngine) (base : Flash) (r : Request) (s : Operation) : Prop where
  | plainRead {dmaBuf : DmaBuf} {deferred : Deferred} (hr : r.op = .plainReadSdmmc dmaBuf deferred)
      (hs : s.op = .plainReadSdmmc dmaBuf deferred)
  | encRead {ciphertext : List UInt8} {deferred : Deferred}
      (hr : r.op = .encReadSdmmc ciphertext deferred) (hs : s.op = .encReadSdmmc ciphertext deferred)
  | decrypting {ciphertext₀ ciphertext : List UInt8} {deferred₀ deferred : Deferred} {offset : Nat}
      (hr : r.op = .encReadSdmmc ciphertext₀ deferred₀)
      (hs : s.op = .encReadCrypt ciphertext offset deferred)
      (hread : ciphertext.take s.range.bytes = readFlash base s.range)
      (hcrypt : Crypted E .decrypt s.range ciphertext deferred.buf offset)
  | plainWrite {buf : List UInt8} (hr : r.op = .plainWriteSdmmc buf) (hs : s.op = .plainWriteSdmmc buf)
  | encrypting {ciphertext₀ ciphertext : List UInt8} {deferred : Deferred} {offset₀ offset : Nat}
      (hr : r.op = .encWriteCrypt ciphertext₀ offset₀ deferred)
      (hs : s.op = .encWriteCrypt ciphertext offset deferred)
      (hcrypt : Crypted E .encrypt s.range deferred.buf ciphertext offset)
  | encWrite {ciphertext₀ ciphertext : List UInt8} {deferred : Deferred} {offset₀ : Nat}
      (hr : r.op = .encWriteCrypt ciphertext₀ offset₀ deferred)
      (hs : s.op = .encWriteSdmmc ciphertext)
      (hlen : s.range.bytes ≤ ciphertext.length)
      (hcrypt : ciphertext.take s.range.bytes = cryptFrom E .encrypt s.range deferred.buf 0)
  | flush (hr : r.op = .flush) (hs : s.op = .flush)

theorem Phase.admitted (base : Flash) (r : Request) (seq : Nat) :
    Phase E base r ⟨seq, r.range, r.op⟩ := by
  have hadmits := r.admits
  cases hop : r.op with
  | plainReadSdmmc dmaBuf deferred => exact .plainRead hop rfl
  | encReadSdmmc ciphertext deferred => exact .encRead hop rfl
  | plainWriteSdmmc buf => exact .plainWrite hop rfl
  | encWriteCrypt ciphertext offset deferred =>
    rw [hop] at hadmits
    obtain ⟨⟨hpos, -⟩, rfl, hsrc, hdst⟩ := hadmits
    exact .encrypting hop rfl (.start hpos hsrc hdst)
  | flush => exact .flush hop rfl
  | encReadCrypt ciphertext offset deferred =>
    rw [hop] at hadmits
    exact absurd hadmits id
  | encWriteSdmmc ciphertext =>
    rw [hop] at hadmits
    exact absurd hadmits id

theorem Phase.of_flush {base : Flash} {r : Request} {s : Operation} (h : Phase E base r s)
    (hs : s.op = .flush) : r.op = .flush := by
  cases h with
  | flush hr => exact hr
  | plainRead _ hs' => exact absurd (hs.symm.trans hs') nofun
  | encRead _ hs' => exact absurd (hs.symm.trans hs') nofun
  | decrypting _ hs' => exact absurd (hs.symm.trans hs') nofun
  | plainWrite _ hs' => exact absurd (hs.symm.trans hs') nofun
  | encrypting _ hs' => exact absurd (hs.symm.trans hs') nofun
  | encWrite _ hs' => exact absurd (hs.symm.trans hs') nofun

/-- The transfer of a write does what its request is for. -/
theorem Phase.flashUpdate {base : Flash} {r : Request} {s : Operation} (h : Phase E base r s)
    (hrange : s.range = r.range) :
    s.op.isSdmmcStep = true → s.flashUpdate = r.update E := by
  intro hstep
  unfold Operation.flashUpdate Request.update
  cases h with
  | plainRead hr hs => rw [hr, hs]
  | encRead hr hs => rw [hr, hs]
  | decrypting hr hs =>
    rw [hs] at hstep
    cases hstep
  | plainWrite hr hs => rw [hr, hs, hrange]
  | encrypting hr hs =>
    rw [hs] at hstep
    cases hstep
  | encWrite hr hs hlen hcrypt =>
    rw [hr, hs]
    dsimp only
    rw [← hrange]
    refine writeUpdate_congr ?_
    rw [← hcrypt, List.take_take, min_self]
  | flush hr hs => rw [hr, hs]

end Emmc
