import KeyOS.Lib.BlockModes

/-!
# The AES peripheral

Its registers, and the driver that fills them. Between two blocks the peripheral is the reference
mode of operation in the state that its registers hold; only the number of bytes that a GCM run
still has to hash is its own.
-/

namespace Crypto

open BlockModes

/-! ## 1. Words -/

/-- `[u32; 4]` -/
structure Words where
  w0 : UInt32
  w1 : UInt32
  w2 : UInt32
  w3 : UInt32
deriving DecidableEq

def wordBytes (w : UInt32) : Bytes := ByteStream.le 4 w.toNat

/-- The word at position `i` of a block. -/
def wordAt (block : Bytes) (i : Nat) : UInt32 :=
  UInt32.ofNat (ByteStream.ofLe ((block.drop (4 * i)).take 4))

def Words.toBytes (w : Words) : Bytes :=
  wordBytes w.w0 ++ wordBytes w.w1 ++ wordBytes w.w2 ++ wordBytes w.w3

def Words.ofBytes (block : Bytes) : Words :=
  ⟨wordAt block 0, wordAt block 1, wordAt block 2, wordAt block 3⟩

def Words.zero : Words := ⟨0, 0, 0, 0⟩

/-- `to_be` on a machine that is little-endian. -/
def toBe (w : UInt32) : UInt32 := UInt32.ofNat (ByteStream.ofLe (ByteStream.be 4 w.toNat))

abbrev Iv := Words

/-- `[u32; 3]` -/
structure GcmIv where
  w0 : UInt32
  w1 : UInt32
  w2 : UInt32
deriving DecidableEq

def Iv.fromGcmParams (iv : GcmIv) (ctr : UInt32) : Iv := ⟨iv.w0, iv.w1, iv.w2, toBe ctr⟩

/-- `overflowing_add` -/
def overflowingAdd (a b : UInt32) : UInt32 × Bool := (a + b, decide (2 ^ 32 ≤ a.toNat + b.toNat))

/-- The words are added to from the first one on, until there is no carry. -/
def Iv.add (iv : Iv) (aesBlocks : UInt32) : Iv :=
  match overflowingAdd iv.w0 aesBlocks with
  | (w0, false) => { iv with w0 := w0 }
  | (w0, true) =>
    match overflowingAdd iv.w1 1 with
    | (w1, false) => { iv with w0 := w0, w1 := w1 }
    | (w1, true) =>
      match overflowingAdd iv.w2 1 with
      | (w2, false) => { iv with w0 := w0, w1 := w1, w2 := w2 }
      | (w2, true) => ⟨w0, w1, w2, (overflowingAdd iv.w3 1).1⟩

def Iv.isCtrRollover (iv : Iv) (blocks : UInt32) : Bool :=
  decide (0x10000 ≤ ((toBe iv.w3) &&& 0xFFFF) + blocks)

/-! ## 2. The peripheral -/

/-- `atsama5d27::aes::AesMode` -/
inductive HwMode where
  | ecb (key : Bytes)
  | cbc (key : Bytes) (iv : Iv)
  | gcm (key : Bytes) (iv : GcmIv) (ctr : UInt32) (ghash : Words)
  | counter (key : Bytes) (ctrValue : Iv)

/-- The registers: the mode, `IVR` and `GHASHR`, and what is left of `CLENR`. -/
structure Aes where
  kind : ModeKind
  encrypting : Bool
  key : Bytes
  chain : Chain
  clen : Nat

def Aes.reset : Aes := ⟨.ecb, false, [], ⟨List.replicate 16 0, List.replicate 16 0⟩, 0⟩

def Aes.init (encrypting : Bool) : HwMode → Aes
  | .ecb key => { Aes.reset with kind := .ecb, encrypting := encrypting, key := key }
  | .cbc key iv =>
    { Aes.reset with
      kind := .cbc, encrypting := encrypting, key := key
      chain := ⟨iv.toBytes, List.replicate 16 0⟩ }
  | .gcm key iv ctr ghash =>
    { Aes.reset with
      kind := .gcm, encrypting := encrypting, key := key
      chain := ⟨(Iv.fromGcmParams iv ctr).toBytes, ghash.toBytes⟩ }
  | .counter key ctrValue =>
    { Aes.reset with
      kind := .ctr, encrypting := encrypting, key := key
      chain := ⟨ctrValue.toBytes, List.replicate 16 0⟩ }

def Aes.setupForDma (hw : Aes) (len : Nat) : Aes := { hw with clen := len }

section Peripheral

variable (cipher : Bytes → BlockCipher)

/-- One block goes through the data registers. In GCM only the bytes that `CLENR` counts are
hashed. -/
def Aes.feed (hw : Aes) (block : Bytes) : Bytes × Aes :=
  let c := cipher hw.key
  let result := c.step hw.encrypting hw.kind hw.chain block
  let chain := match hw.kind with
    | .gcm =>
      { result.2 with
        hash := c.absorb hw.chain.hash ((if hw.encrypting then result.1 else block).take hw.clen) }
    | _ => result.2
  (result.1, { hw with chain := chain, clen := hw.clen - 16 })

/-- `process`, and a transfer by DMA. -/
def Aes.feedAll (hw : Aes) : List Bytes → Bytes × Aes
  | [] => ([], hw)
  | block :: rest =>
    let fed := hw.feed cipher block
    let others := fed.2.feedAll rest
    (fed.1 ++ others.1, others.2)

/-- `process_aad` -/
def Aes.processAad (hw : Aes) (input : Bytes) : Aes :=
  { hw with chain := { hw.chain with hash := (cipher hw.key).hashText hw.chain.hash input } }

end Peripheral

/-! ## 3. The words of a block -/

theorem wordBytes_length (w : UInt32) : (wordBytes w).length = 4 := ByteStream.length_le 4 _

@[simp] theorem Words.length_toBytes (w : Words) : w.toBytes.length = 16 := by
  simp only [Words.toBytes, List.length_append, wordBytes_length]

theorem wordBytes_wordAt {block : Bytes} {i : Nat} (h : 4 * i + 4 ≤ block.length) :
    wordBytes (wordAt block i) = (block.drop (4 * i)).take 4 := by
  have hlen : ((block.drop (4 * i)).take 4).length = 4 := by
    rw [List.length_take, List.length_drop]
    omega
  have hlt := ByteStream.ofLe_lt ((block.drop (4 * i)).take 4)
  rw [hlen] at hlt
  have hle := ByteStream.le_ofLe ((block.drop (4 * i)).take 4)
  rw [hlen] at hle
  rw [wordBytes, wordAt, UInt32.toNat_ofNat_of_lt' hlt, hle]

/-- A block is written into the registers and read back. -/
theorem Words.toBytes_ofBytes {block : Bytes} (h : block.length = 16) :
    (Words.ofBytes block).toBytes = block := by
  have htake : ∀ n, block.drop n = (block.drop n).take 4 ++ block.drop (n + 4) := fun n => by
    rw [← List.drop_drop, List.take_append_drop]
  have hlast : block.drop 16 = [] := List.drop_eq_nil_of_le (Nat.le_of_eq h)
  simp only [Words.toBytes, Words.ofBytes]
  rw [wordBytes_wordAt (by omega), wordBytes_wordAt (by omega), wordBytes_wordAt (by omega),
    wordBytes_wordAt (by omega)]
  have h0 := htake 0
  have h4 := htake 4
  have h8 := htake 8
  have h12 := htake 12
  rw [hlast, List.append_nil] at h12
  rw [List.append_assoc, List.append_assoc, ← h12, ← h8, ← h4, ← h0]
  rfl

theorem wordBytes_toBe (w : UInt32) : wordBytes (toBe w) = ByteStream.be 4 w.toNat := by
  have hlen : (ByteStream.be 4 w.toNat).length = 4 := ByteStream.length_be 4 _
  have hlt := ByteStream.ofLe_lt (ByteStream.be 4 w.toNat)
  rw [hlen] at hlt
  have hle := ByteStream.le_ofLe (ByteStream.be 4 w.toNat)
  rw [hlen] at hle
  rw [wordBytes, toBe, UInt32.toNat_ofNat_of_lt' hlt, hle]

theorem incrementLe_le (k n : Nat) : incrementLe (ByteStream.le k n) = ByteStream.le k (n + 1) := by
  induction k generalizing n with
  | zero => rfl
  | succ k ih =>
    have hmod : ∀ m, (UInt8.ofNat m).toNat = m % 256 := fun m => UInt8.toNat_ofNat'
    rw [ByteStream.le, incrementLe, ByteStream.le]
    split
    · next h =>
      have h255 : n % 256 = 255 := by
        rw [← hmod n, h]
        rfl
      have hzero : (0 : UInt8) = UInt8.ofNat (n + 1) := by
        refine UInt8.toNat_inj.1 ?_
        rw [hmod]
        show 0 = _
        omega
      rw [ih, hzero, show n / 256 + 1 = (n + 1) / 256 by omega]
    · next h =>
      have h255 : n % 256 ≠ 255 := fun heq => h (UInt8.toNat_inj.1 ((hmod n).trans heq))
      have hsucc : UInt8.ofNat n + 1 = UInt8.ofNat (n + 1) := by
        refine UInt8.toNat_inj.1 ?_
        rw [UInt8.toNat_add, hmod, hmod]
        show (n % 256 + 1) % 256 = _
        omega
      rw [hsucc, show n / 256 = (n + 1) / 256 by omega]

theorem be_mod (k n : Nat) : ByteStream.le k (n % 256 ^ k) = ByteStream.le k n := by
  induction k generalizing n with
  | zero => rfl
  | succ k ih =>
    rw [ByteStream.le, ByteStream.le]
    have hlow : UInt8.ofNat (n % 256 ^ (k + 1)) = UInt8.ofNat n := by
      refine UInt8.toNat_inj.1 ?_
      rw [UInt8.toNat_ofNat', UInt8.toNat_ofNat', Nat.pow_succ]
      exact Nat.mod_mod_of_dvd n (Nat.dvd_mul_left _ _)
    have hhigh : n % 256 ^ (k + 1) / 256 = n / 256 % 256 ^ k := by
      rw [Nat.pow_succ, Nat.mul_comm, Nat.mod_mul_right_div_self]
    rw [hlow, hhigh, ih]

/-- The counter of GCM counts in its last word. -/
theorem increment_fromGcmParams (iv : GcmIv) (ctr : UInt32) :
    increment 4 (Iv.fromGcmParams iv ctr).toBytes = (Iv.fromGcmParams iv (ctr + 1)).toBytes := by
  have hfirst : (wordBytes iv.w0 ++ wordBytes iv.w1 ++ wordBytes iv.w2).length = 12 := by
    simp only [List.length_append, wordBytes_length]
  have hcount : (incrementLe (ByteStream.be 4 ctr.toNat).reverse).reverse =
      ByteStream.be 4 (ctr + 1).toNat := by
    rw [ByteStream.be, List.reverse_reverse, incrementLe_le, ByteStream.be, UInt32.toNat_add]
    exact congrArg List.reverse (be_mod 4 (ctr.toNat + 1)).symm
  simp only [increment, Words.toBytes, Iv.fromGcmParams, wordBytes_toBe]
  rw [List.take_left' hfirst, List.drop_left' hfirst, hcount]

theorem iterate_fromGcmParams (iv : GcmIv) (ctr : UInt32) (n : Nat) :
    (increment 4)^[n] (Iv.fromGcmParams iv ctr).toBytes =
      (Iv.fromGcmParams iv (ctr + UInt32.ofNat n)).toBytes := by
  induction n generalizing ctr with
  | zero =>
    show _ = (Iv.fromGcmParams iv (ctr + 0)).toBytes
    rw [UInt32.add_zero]
    rfl
  | succ n ih =>
    have hcount : ctr + 1 + UInt32.ofNat n = ctr + UInt32.ofNat (n + 1) := by
      rw [UInt32.ofNat_add, UInt32.add_assoc, UInt32.add_comm (UInt32.ofNat n)]
      rfl
    rw [Function.iterate_succ_apply, increment_fromGcmParams, ih, hcount]

/-! ## 4. A run of the peripheral -/

theorem take_xor_append (text zeroes stream : Bytes) (h : text.length ≤ stream.length) :
    (xor (text ++ zeroes) stream).take text.length = xor text stream := by
  induction text generalizing stream with
  | nil => rfl
  | cons b text ih =>
    cases stream with
    | nil => cases h
    | cons k stream =>
      show (b ^^^ k) :: (xor (text ++ zeroes) stream).take text.length = _
      rw [ih stream (Nat.le_of_succ_le_succ h)]
      rfl

section Run

variable (cipher : Bytes → BlockCipher)

/-- Whole blocks go through the peripheral as through the mode. -/
theorem Aes.feedAll_process {text : Bytes} (hdvd : 16 ∣ text.length) (hw : Aes)
    (hs : hw.chain.iv.length = 16) (hclen : hw.kind = .gcm → text.length ≤ hw.clen) :
    hw.feedAll cipher (blocks 16 text) =
      ((((cipher hw.key).mode hw.encrypting hw.kind).process 16 hw.chain text).1,
        { hw with
          chain := (((cipher hw.key).mode hw.encrypting hw.kind).process 16 hw.chain text).2
          clen := hw.clen - text.length }) := by
  induction text using text_induction (n := 16) (by decide) generalizing hw with
  | nil =>
    rw [blocks_nil, Mode.process_nil]
    rfl
  | short block hne hlt =>
    have hle := Nat.le_of_dvd (List.length_pos_iff.2 hne) hdvd
    omega
  | whole block rest hblock ih =>
    have hnil : block ≠ [] := by
      rintro rfl
      cases hblock
    have hrest : 16 ∣ rest.length := by
      rw [List.length_append, hblock] at hdvd
      omega
    rw [List.length_append, hblock] at hclen
    obtain ⟨hlen, hiv⟩ := step_good (cipher hw.key) hw.encrypting hw.kind hs
      (Nat.le_of_eq hblock) (.inl hblock)
    have hfeed : hw.feed cipher block =
        (((cipher hw.key).step hw.encrypting hw.kind hw.chain block).1,
          { hw with
            chain := ((cipher hw.key).step hw.encrypting hw.kind hw.chain block).2
            clen := hw.clen - 16 }) := by
      unfold Aes.feed
      obtain ⟨kind, encrypting, key, chain, clen⟩ := hw
      cases kind with
      | gcm =>
        have hclen : 16 + rest.length ≤ clen := hclen rfl
        have htake : ((if encrypting then ((cipher key).step encrypting .gcm chain block).1
            else block).take clen) =
            if encrypting then ((cipher key).step encrypting .gcm chain block).1 else block := by
          refine List.take_of_length_le ?_
          split
          · exact hlen.symm ▸ (by omega)
          · omega
        dsimp only
        rw [htake]
        rfl
      | ecb => rfl
      | cbc => rfl
      | ctr => rfl
    have hblocks : blocks 16 (block ++ rest) = block :: blocks 16 rest := by
      rw [blocks_append (by decide) (hblock ▸ Nat.dvd_refl _), blocks_short hnil (Nat.le_of_eq hblock)]
      rfl
    rw [hblocks, Mode.process_cons _ (by decide) _ _ hblock, Aes.feedAll, hfeed]
    rw [ih hrest _ hiv fun hgcm => by have hle := hclen hgcm; dsimp only; omega]
    dsimp only
    rw [List.length_append, hblock, Nat.sub_sub]
    rfl

/-- The block that is not whole goes through the peripheral with zeroes behind it. -/
theorem Aes.feed_short (text : Bytes) (hw : Aes) (hle : text.length ≤ 16)
    (hkind : hw.kind = .ctr ∨ hw.kind = .gcm) (hs : hw.chain.iv.length = 16)
    (hclen : hw.clen = text.length) :
    (hw.feed cipher (pad text)).1.take text.length =
        ((cipher hw.key).step hw.encrypting hw.kind hw.chain text).1 ∧
      (hw.feed cipher (pad text)).2.chain =
        ((cipher hw.key).step hw.encrypting hw.kind hw.chain text).2 := by
  obtain ⟨kind, encrypting, key, chain, clen⟩ := hw
  have hstream : text.length ≤ ((cipher key).encrypt chain.iv).length := by
    rw [(cipher key).length_encrypt _ hs]
    exact hle
  have htake : (xor (pad text) ((cipher key).encrypt chain.iv)).take text.length =
      xor text ((cipher key).encrypt chain.iv) := take_xor_append _ _ _ hstream
  have hpad : (pad text).take text.length = text := List.take_left' rfl
  dsimp only at hclen
  subst hclen
  rcases hkind with hkind | hkind
  · obtain rfl : kind = .ctr := hkind
    exact ⟨htake, rfl⟩
  · obtain rfl : kind = .gcm := hkind
    refine ⟨htake, ?_⟩
    show Chain.mk _ ((cipher key).absorb chain.hash ((if encrypting then
      xor (pad text) ((cipher key).encrypt chain.iv) else pad text).take text.length)) = _
    cases encrypting with
    | true =>
      rw [if_pos rfl, htake]
      rfl
    | false =>
      rw [if_neg Bool.false_ne_true, hpad]
      rfl

/-- A text that is fed as `aes_execute` does: its whole blocks, and the rest with zeroes behind. -/
def Aes.feedText (hw : Aes) (text : Bytes) : Bytes × Aes :=
  let aligned := text.length / 16 * 16
  let fed := hw.feedAll cipher (blocks 16 (text.take aligned))
  if text.length - aligned = 0 then fed
  else
    let last := fed.2.feed cipher (pad (text.drop aligned))
    (fed.1 ++ last.1.take (text.length - aligned), last.2)

/-- The peripheral computes the mode. -/
theorem Aes.feedText_process {text : Bytes} (hw : Aes) (hs : hw.chain.iv.length = 16)
    (hclen : hw.clen = text.length) (hfits : hw.kind.Fits text) :
    (hw.feedText cipher text).1 =
        (((cipher hw.key).mode hw.encrypting hw.kind).process 16 hw.chain text).1 ∧
      (hw.feedText cipher text).2.chain =
        (((cipher hw.key).mode hw.encrypting hw.kind).process 16 hw.chain text).2 := by
  obtain ⟨hdvd, hlast⟩ := take_drop_aligned (n := 16) text
  have hle : text.length / 16 * 16 ≤ text.length := Nat.div_mul_le_self _ _
  have htake : (text.take (text.length / 16 * 16)).length = text.length / 16 * 16 := by
    rw [List.length_take, Nat.min_eq_left hle]
  have hfed := Aes.feedAll_process cipher hdvd hw hs fun _ => by omega
  unfold Aes.feedText
  dsimp only
  rw [hfed]
  split
  · next hzero =>
    have hall : text.take (text.length / 16 * 16) = text :=
      List.take_of_length_le (by omega)
    rw [hall]
    exact ⟨rfl, rfl⟩
  · next hrest =>
    have hmod : text.length % 16 = text.length - text.length / 16 * 16 := by omega
    rw [hmod] at hlast
    have hkind : hw.kind = .ctr ∨ hw.kind = .gcm := hfits.resolve_left fun hwhole => by omega
    have hiv := (process_good (cipher hw.key) hw.encrypting hw.kind hs (.inl hdvd)).2
    have hshort := Aes.feed_short cipher (text.drop (text.length / 16 * 16))
      { hw with
        chain := (((cipher hw.key).mode hw.encrypting hw.kind).process 16 hw.chain
          (text.take (text.length / 16 * 16))).2
        clen := hw.clen - (text.take (text.length / 16 * 16)).length }
      (by omega) hkind hiv (by dsimp only; omega)
    rw [hlast] at hshort
    have hsplit := Mode.process_append ((cipher hw.key).mode hw.encrypting hw.kind) (n := 16)
      (by decide) hw.chain (text.drop (text.length / 16 * 16)) hdvd
    have htail : text.drop (text.length / 16 * 16) ≠ [] := List.length_pos_iff.1 (by omega)
    have hstep := Mode.process_short ((cipher hw.key).mode hw.encrypting hw.kind) (n := 16)
      (((cipher hw.key).mode hw.encrypting hw.kind).process 16 hw.chain
        (text.take (text.length / 16 * 16))).2 htail (by omega)
    rw [List.take_append_drop, hstep] at hsplit
    rw [hsplit]
    exact ⟨congrArg (_ ++ ·) hshort.1, hshort.2⟩

end Run

end Crypto
