import KeyOS.Crypto.Server
import KeyOS.Lib.Sha2

/-!
# SHA in software

The hash state of a client is the bytes of its chaining words; those of the smaller algorithms take
the first 32 of its 64 bytes.
-/

namespace Crypto

open BlockModes BlockHash Sha2

/-! ## 1. Algorithms -/

def ShaAlgo.blockSize : ShaAlgo → Nat
  | .sha224 | .sha256 => 64
  | .sha384 | .sha512 => 128

def ShaAlgo.hashSize : ShaAlgo → Nat
  | .sha224 => 28
  | .sha256 => 32
  | .sha384 => 48
  | .sha512 => 64

def ShaAlgo.initialHashState : ShaAlgo → Bytes
  | .sha224 => [
    0xc1, 0x05, 0x9e, 0xd8, 0x36, 0x7c, 0xd5, 0x07, 0x30, 0x70, 0xdd, 0x17, 0xf7, 0x0e, 0x59, 0x39,
    0xff, 0xc0, 0x0b, 0x31, 0x68, 0x58, 0x15, 0x11, 0x64, 0xf9, 0x8f, 0xa7, 0xbe, 0xfa, 0x4f, 0xa4,
    0, 0, 0, 0, 0, 0, 0, 0, 0, 0, 0, 0, 0, 0, 0, 0, 0, 0, 0, 0, 0, 0, 0, 0, 0, 0, 0, 0, 0, 0, 0, 0]
  | .sha256 => [
    0x6a, 0x09, 0xe6, 0x67, 0xbb, 0x67, 0xae, 0x85, 0x3c, 0x6e, 0xf3, 0x72, 0xa5, 0x4f, 0xf5, 0x3a,
    0x51, 0x0e, 0x52, 0x7f, 0x9b, 0x05, 0x68, 0x8c, 0x1f, 0x83, 0xd9, 0xab, 0x5b, 0xe0, 0xcd, 0x19,
    0, 0, 0, 0, 0, 0, 0, 0, 0, 0, 0, 0, 0, 0, 0, 0, 0, 0, 0, 0, 0, 0, 0, 0, 0, 0, 0, 0, 0, 0, 0, 0]
  | .sha384 => [
    0xcb, 0xbb, 0x9d, 0x5d, 0xc1, 0x05, 0x9e, 0xd8, 0x62, 0x9a, 0x29, 0x2a, 0x36, 0x7c, 0xd5, 0x07,
    0x91, 0x59, 0x01, 0x5a, 0x30, 0x70, 0xdd, 0x17, 0x15, 0x2f, 0xec, 0xd8, 0xf7, 0x0e, 0x59, 0x39,
    0x67, 0x33, 0x26, 0x67, 0xff, 0xc0, 0x0b, 0x31, 0x8e, 0xb4, 0x4a, 0x87, 0x68, 0x58, 0x15, 0x11,
    0xdb, 0x0c, 0x2e, 0x0d, 0x64, 0xf9, 0x8f, 0xa7, 0x47, 0xb5, 0x48, 0x1d, 0xbe, 0xfa, 0x4f, 0xa4]
  | .sha512 => [
    0x6a, 0x09, 0xe6, 0x67, 0xf3, 0xbc, 0xc9, 0x08, 0xbb, 0x67, 0xae, 0x85, 0x84, 0xca, 0xa7, 0x3b,
    0x3c, 0x6e, 0xf3, 0x72, 0xfe, 0x94, 0xf8, 0x2b, 0xa5, 0x4f, 0xf5, 0x3a, 0x5f, 0x1d, 0x36, 0xf1,
    0x51, 0x0e, 0x52, 0x7f, 0xad, 0xe6, 0x82, 0xd1, 0x9b, 0x05, 0x68, 0x8c, 0x2b, 0x3e, 0x6c, 0x1f,
    0x1f, 0x83, 0xd9, 0xab, 0xfb, 0x41, 0xbd, 0x6b, 0x5b, 0xe0, 0xcd, 0x19, 0x13, 0x7e, 0x21, 0x79]

/-- `sha2::compress256` and `sha2::compress512`, on one block. -/
structure Compression where
  compress256 : State UInt32 → Bytes → State UInt32
  compress512 : State UInt64 → Bytes → State UInt64

/-- The compression functions of the standard. -/
def Compression.standard : Compression where
  compress256 := Sha2.compress256
  compress512 := Sha2.compress512

/-- What `chunks_exact` gives of a text: its whole blocks. -/
def chunksExact (n : Nat) (data : Bytes) : Bytes := data.take (data.length / n * n)

def compressBlocks {W : Type} (F : Format W) (compress : State W → Bytes → State W)
    (hashState data : Bytes) : Bytes :=
  (absorb compress (16 * F.width) (State.ofBytes F (hashState.take (8 * F.width)))
    (chunksExact (16 * F.width) data)).toBytes F ++ hashState.drop (8 * F.width)

def swCompressBlocks (C : Compression) (hashState : Bytes) (algo : ShaAlgo) (data : Bytes) :
    Bytes :=
  match algo with
  | .sha224 | .sha256 => compressBlocks format32 C.compress256 hashState data
  | .sha384 | .sha512 => compressBlocks format64 C.compress512 hashState data

def ShaAlgo.lenField : ShaAlgo → Nat
  | .sha224 | .sha256 => 8
  | .sha384 | .sha512 => 16

def shaPadding (acc : Bytes) (algo : ShaAlgo) (totalBits : UInt64) : Bytes :=
  let pad := acc ++ [0x80]
  let lenMod := (pad.length + algo.lenField) % algo.blockSize
  let zeros := if lenMod = 0 then 0 else algo.blockSize - lenMod
  pad ++ List.replicate zeros 0 ++ ByteStream.be algo.lenField totalBits.toNat

/-! ## 2. The standard -/

/-- The digest of a message. -/
def ShaAlgo.digest (C : Compression) : ShaAlgo → Bytes → Bytes
  | .sha224 => Sha2.sha224.digest C.compress256
  | .sha256 => Sha2.sha256.digest C.compress256
  | .sha384 => Sha2.sha384.digest C.compress512
  | .sha512 => Sha2.sha512.digest C.compress512

/-- The hash state after the blocks of a text. -/
def ShaAlgo.chain (C : Compression) : ShaAlgo → Bytes → Bytes
  | .sha224, text => (Sha2.sha224.absorb C.compress256 text).toBytes format32 ++
    List.replicate 32 0
  | .sha256, text => (Sha2.sha256.absorb C.compress256 text).toBytes format32 ++
    List.replicate 32 0
  | .sha384, text => (Sha2.sha384.absorb C.compress512 text).toBytes format64
  | .sha512, text => (Sha2.sha512.absorb C.compress512 text).toBytes format64

section Standard

variable {C : Compression} {algo : ShaAlgo} {xs ys : Bytes}

theorem ShaAlgo.blockSize_pos : 0 < algo.blockSize := by
  cases algo <;> decide

theorem chunksExact_dvd {n : Nat} {data : Bytes} (h : n ∣ data.length) :
    chunksExact n data = data := by
  rw [chunksExact, Nat.div_mul_cancel h, List.take_length]

theorem compressBlocks_absorb {W : Type} (H : Hash W) (compress : State W → Bytes → State W)
    (rest : Bytes) (hpos : 0 < H.blockSize) (hxs : H.blockSize ∣ xs.length)
    (hys : H.blockSize ∣ ys.length) :
    compressBlocks H.format compress ((H.absorb compress xs).toBytes H.format ++ rest) ys =
      (H.absorb compress (xs ++ ys)).toBytes H.format ++ rest := by
  have htake : ((H.absorb compress xs).toBytes H.format ++ rest).take (8 * H.format.width) =
      (H.absorb compress xs).toBytes H.format ++ [] := by
    rw [List.take_left' (State.length_toBytes _ _), List.append_nil]
  have hdrop : ((H.absorb compress xs).toBytes H.format ++ rest).drop (8 * H.format.width) = rest :=
    List.drop_left' (State.length_toBytes _ _)
  have hwhole : chunksExact (16 * H.format.width) ys = ys := chunksExact_dvd hys
  have happend : H.absorb compress (xs ++ ys) =
      absorb compress (16 * H.format.width) (H.absorb compress xs) ys := absorb_append hpos hxs
  rw [compressBlocks, htake, hdrop, State.ofBytes_toBytes, hwhole, happend]

/-- Blocks that are compressed after others. -/
theorem swCompressBlocks_chain (hxs : algo.blockSize ∣ xs.length)
    (hys : algo.blockSize ∣ ys.length) :
    swCompressBlocks C (algo.chain C xs) algo ys = algo.chain C (xs ++ ys) := by
  have hnil {W : Type} (H : Hash W) (compress : State W → Bytes → State W) :=
    @compressBlocks_absorb xs ys W H compress []
  simp only [List.append_nil] at hnil
  cases algo with
  | sha224 => exact compressBlocks_absorb Sha2.sha224 C.compress256 _ (by decide) hxs hys
  | sha256 => exact compressBlocks_absorb Sha2.sha256 C.compress256 _ (by decide) hxs hys
  | sha384 => exact hnil Sha2.sha384 C.compress512 (by decide) hxs hys
  | sha512 => exact hnil Sha2.sha512 C.compress512 (by decide) hxs hys

theorem initialHashState_eq : algo.initialHashState = algo.chain C [] := by
  cases algo <;> simp only [ShaAlgo.chain, Hash.absorb, absorb_nil] <;> decide

/-- The digest is cut off the hash state after the padded message. -/
theorem take_chain_padded (text : Bytes) :
    (algo.chain C (text ++ padding algo.blockSize algo.lenField text.length)).take algo.hashSize =
      algo.digest C text := by
  cases algo <;> simp only [ShaAlgo.chain, ShaAlgo.digest, Hash.digest, ShaAlgo.hashSize]
  · exact List.take_append_of_le_length (by simp [format32])
  · exact List.take_append_of_le_length (by simp [format32])
  · rfl
  · rfl

/-- Bytes that are left behind whole blocks are padded as the message is. -/
theorem shaPadding_eq (hxs : algo.blockSize ∣ xs.length) {totalBits : UInt64}
    (hbits : totalBits.toNat = 8 * (xs ++ ys).length) :
    xs ++ shaPadding ys algo totalBits =
      (xs ++ ys) ++ padding algo.blockSize algo.lenField (xs ++ ys).length := by
  have hmod : (ys.length + 1 + algo.lenField) % algo.blockSize < algo.blockSize :=
    Nat.mod_lt _ ShaAlgo.blockSize_pos
  have hzeros : (if (ys.length + 1 + algo.lenField) % algo.blockSize = 0 then 0
      else algo.blockSize - (ys.length + 1 + algo.lenField) % algo.blockSize) =
        zeros algo.blockSize algo.lenField (xs ++ ys).length := by
    rw [List.length_append, zeros_add hxs, zeros]
    split
    · next hzero => rw [hzero, Nat.sub_zero, Nat.mod_self]
    · exact (Nat.mod_eq_of_lt (by omega)).symm
  simp only [shaPadding, padding, List.length_append, List.length_singleton] at hzeros ⊢
  rw [hzeros, hbits]
  simp

/-- The end of a message of fewer than `2 ^ 61` bytes. -/
theorem finalize_digest (hxs : algo.blockSize ∣ xs.length) (hshort : (xs ++ ys).length < 2 ^ 61) :
    (swCompressBlocks C (algo.chain C xs) algo (shaPadding ys algo
      ((UInt64.ofNat xs.length + UInt64.ofNat ys.length) * 8))).take algo.hashSize =
      algo.digest C (xs ++ ys) := by
  have hbits : ((UInt64.ofNat xs.length + UInt64.ofNat ys.length) * 8).toNat =
      8 * (xs ++ ys).length := by
    rw [List.length_append] at hshort ⊢
    rw [← UInt64.ofNat_add, UInt64.toNat_mul, UInt64.toNat_ofNat']
    show (xs.length + ys.length) % 2 ^ 64 * 8 % 2 ^ 64 = _
    omega
  have hpadded := shaPadding_eq hxs hbits
  have hwhole : algo.blockSize ∣ (shaPadding ys algo
      ((UInt64.ofNat xs.length + UInt64.ofNat ys.length) * 8)).length := by
    rw [← Nat.dvd_add_right hxs, ← List.length_append, hpadded, List.length_append]
    exact dvd_padded ShaAlgo.blockSize_pos _
  rw [swCompressBlocks_chain hxs hwhole, hpadded, take_chain_padded]

end Standard

end Crypto
