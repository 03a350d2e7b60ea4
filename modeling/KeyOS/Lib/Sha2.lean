import KeyOS.Lib.BlockHash

/-!
# The secure hash algorithms

SHA-224, SHA-256, SHA-384 and SHA-512 are one construction on words of two widths: a compression
function of eight chaining words and a block, folded over the padded text.
-/

namespace Sha2

open BlockModes BlockHash

/-! ## 1. Words -/

/-- Words of `width` bytes. -/
structure Format (W : Type) where
  width : Nat
  ofNat : Nat → W
  toNat : W → Nat
  toNat_lt : ∀ w, toNat w < 256 ^ width
  ofNat_toNat : ∀ w, ofNat (toNat w) = w

def format32 : Format UInt32 where
  width := 4
  ofNat := UInt32.ofNat
  toNat := UInt32.toNat
  toNat_lt := UInt32.toNat_lt
  ofNat_toNat _ := UInt32.ofNat_toNat

def format64 : Format UInt64 where
  width := 8
  ofNat := UInt64.ofNat
  toNat := UInt64.toNat
  toNat_lt := UInt64.toNat_lt
  ofNat_toNat _ := UInt64.ofNat_toNat

/-- The eight chaining words. -/
structure State (W : Type) where
  (a b c d e f g h : W)
deriving DecidableEq

namespace State

variable {W : Type} (F : Format W)

def ofBytes (bytes : Bytes) : State W where
  a := F.ofNat (wordAt F.width bytes 0)
  b := F.ofNat (wordAt F.width bytes 1)
  c := F.ofNat (wordAt F.width bytes 2)
  d := F.ofNat (wordAt F.width bytes 3)
  e := F.ofNat (wordAt F.width bytes 4)
  f := F.ofNat (wordAt F.width bytes 5)
  g := F.ofNat (wordAt F.width bytes 6)
  h := F.ofNat (wordAt F.width bytes 7)

def toBytes (s : State W) : Bytes :=
  [s.a, s.b, s.c, s.d, s.e, s.f, s.g, s.h].flatMap fun w => ByteStream.be F.width (F.toNat w)

@[simp] theorem length_toBytes (s : State W) : (s.toBytes F).length = 8 * F.width := by
  simp [toBytes]
  omega

/-- The words come back from their bytes, whatever follows them. -/
theorem ofBytes_toBytes (s : State W) (rest : Bytes) : ofBytes F (s.toBytes F ++ rest) = s := by
  have hword (w : W) (more : Bytes) :
      wordAt F.width (ByteStream.be F.width (F.toNat w) ++ more) 0 = F.toNat w :=
    wordAt_zero (F.toNat_lt w)
  simp [ofBytes, toBytes, wordAt_succ, hword, F.ofNat_toNat]

end State

/-! ## 2. Compression -/

/-- The functions and the constants of the rounds. -/
structure Rounds (W : Type) where
  sum0 : W → W
  sum1 : W → W
  schedule0 : W → W
  schedule1 : W → W
  constants : List W

section Compress

variable {W : Type} [Add W] [AndOp W] [XorOp W] [Complement W] (R : Rounds W)

def choose (x y z : W) : W := (x &&& y) ^^^ (~~~x &&& z)

def majority (x y z : W) : W := (x &&& y) ^^^ (x &&& z) ^^^ (y &&& z)

def round (s : State W) (constant word : W) : State W :=
  let t₁ := s.h + R.sum1 s.e + choose s.e s.f s.g + constant + word
  let t₂ := R.sum0 s.a + majority s.a s.b s.c
  ⟨t₁ + t₂, s.a, s.b, s.c, s.d + t₁, s.e, s.f, s.g⟩

/-- A round takes the first of the last sixteen words of the schedule, and the next word joins
them. -/
def rounds : List W → List W → State W → State W
  | constant :: constants, word :: words, s =>
    rounds constants
      (words ++ [R.schedule1 (words.getD 13 word) + words.getD 8 word +
        R.schedule0 (words.getD 0 word) + word])
      (round R s constant word)
  | _, _, s => s

def compressWords (s : State W) (words : List W) : State W :=
  let t := rounds R R.constants words s
  ⟨s.a + t.a, s.b + t.b, s.c + t.c, s.d + t.d, s.e + t.e, s.f + t.f, s.g + t.g, s.h + t.h⟩

def compress (F : Format W) (s : State W) (block : Bytes) : State W :=
  compressWords R s ((List.range 16).map fun i => F.ofNat (wordAt F.width block i))

end Compress

def rotr32 (n x : UInt32) : UInt32 := (x >>> n) ||| (x <<< (32 - n))

def rotr64 (n x : UInt64) : UInt64 := (x >>> n) ||| (x <<< (64 - n))

def rounds256 : Rounds UInt32 where
  sum0 x := rotr32 2 x ^^^ rotr32 13 x ^^^ rotr32 22 x
  sum1 x := rotr32 6 x ^^^ rotr32 11 x ^^^ rotr32 25 x
  schedule0 x := rotr32 7 x ^^^ rotr32 18 x ^^^ (x >>> 3)
  schedule1 x := rotr32 17 x ^^^ rotr32 19 x ^^^ (x >>> 10)
  constants := [
    0x428a2f98, 0x71374491, 0xb5c0fbcf, 0xe9b5dba5, 0x3956c25b, 0x59f111f1, 0x923f82a4, 0xab1c5ed5,
    0xd807aa98, 0x12835b01, 0x243185be, 0x550c7dc3, 0x72be5d74, 0x80deb1fe, 0x9bdc06a7, 0xc19bf174,
    0xe49b69c1, 0xefbe4786, 0x0fc19dc6, 0x240ca1cc, 0x2de92c6f, 0x4a7484aa, 0x5cb0a9dc, 0x76f988da,
    0x983e5152, 0xa831c66d, 0xb00327c8, 0xbf597fc7, 0xc6e00bf3, 0xd5a79147, 0x06ca6351, 0x14292967,
    0x27b70a85, 0x2e1b2138, 0x4d2c6dfc, 0x53380d13, 0x650a7354, 0x766a0abb, 0x81c2c92e, 0x92722c85,
    0xa2bfe8a1, 0xa81a664b, 0xc24b8b70, 0xc76c51a3, 0xd192e819, 0xd6990624, 0xf40e3585, 0x106aa070,
    0x19a4c116, 0x1e376c08, 0x2748774c, 0x34b0bcb5, 0x391c0cb3, 0x4ed8aa4a, 0x5b9cca4f, 0x682e6ff3,
    0x748f82ee, 0x78a5636f, 0x84c87814, 0x8cc70208, 0x90befffa, 0xa4506ceb, 0xbef9a3f7, 0xc67178f2]

def rounds512 : Rounds UInt64 where
  sum0 x := rotr64 28 x ^^^ rotr64 34 x ^^^ rotr64 39 x
  sum1 x := rotr64 14 x ^^^ rotr64 18 x ^^^ rotr64 41 x
  schedule0 x := rotr64 1 x ^^^ rotr64 8 x ^^^ (x >>> 7)
  schedule1 x := rotr64 19 x ^^^ rotr64 61 x ^^^ (x >>> 6)
  constants := [
    0x428a2f98d728ae22, 0x7137449123ef65cd, 0xb5c0fbcfec4d3b2f, 0xe9b5dba58189dbbc,
    0x3956c25bf348b538, 0x59f111f1b605d019, 0x923f82a4af194f9b, 0xab1c5ed5da6d8118,
    0xd807aa98a3030242, 0x12835b0145706fbe, 0x243185be4ee4b28c, 0x550c7dc3d5ffb4e2,
    0x72be5d74f27b896f, 0x80deb1fe3b1696b1, 0x9bdc06a725c71235, 0xc19bf174cf692694,
    0xe49b69c19ef14ad2, 0xefbe4786384f25e3, 0x0fc19dc68b8cd5b5, 0x240ca1cc77ac9c65,
    0x2de92c6f592b0275, 0x4a7484aa6ea6e483, 0x5cb0a9dcbd41fbd4, 0x76f988da831153b5,
    0x983e5152ee66dfab, 0xa831c66d2db43210, 0xb00327c898fb213f, 0xbf597fc7beef0ee4,
    0xc6e00bf33da88fc2, 0xd5a79147930aa725, 0x06ca6351e003826f, 0x142929670a0e6e70,
    0x27b70a8546d22ffc, 0x2e1b21385c26c926, 0x4d2c6dfc5ac42aed, 0x53380d139d95b3df,
    0x650a73548baf63de, 0x766a0abb3c77b2a8, 0x81c2c92e47edaee6, 0x92722c851482353b,
    0xa2bfe8a14cf10364, 0xa81a664bbc423001, 0xc24b8b70d0f89791, 0xc76c51a30654be30,
    0xd192e819d6ef5218, 0xd69906245565a910, 0xf40e35855771202a, 0x106aa07032bbd1b8,
    0x19a4c116b8d2d0c8, 0x1e376c085141ab53, 0x2748774cdf8eeb99, 0x34b0bcb5e19b48a8,
    0x391c0cb3c5c95a63, 0x4ed8aa4ae3418acb, 0x5b9cca4f7763e373, 0x682e6ff3d6b2b8a3,
    0x748f82ee5defb2fc, 0x78a5636f43172f60, 0x84c87814a1f0ab72, 0x8cc702081a6439ec,
    0x90befffa23631e28, 0xa4506cebde82bde9, 0xbef9a3f7b2c67915, 0xc67178f2e372532b,
    0xca273eceea26619c, 0xd186b8c721c0c207, 0xeada7dd6cde0eb1e, 0xf57d4f7fee6ed178,
    0x06f067aa72176fba, 0x0a637dc5a2c898a6, 0x113f9804bef90dae, 0x1b710b35131c471b,
    0x28db77f523047d84, 0x32caab7b40c72493, 0x3c9ebe0a15c9bebc, 0x431d67c49c100d4c,
    0x4cc5d4becb3e42b6, 0x597f299cfc657e2a, 0x5fcb6fab3ad6faec, 0x6c44198c4a475817]

def compress256 : State UInt32 → Bytes → State UInt32 := compress rounds256 format32

def compress512 : State UInt64 → Bytes → State UInt64 := compress rounds512 format64

/-! ## 3. The algorithms -/

/-- An algorithm on words of one width: blocks of sixteen words, and a length of two. -/
structure Hash (W : Type) where
  format : Format W
  initial : State W
  digestSize : Nat

def sha224 : Hash UInt32 where
  format := format32
  initial := ⟨0xc1059ed8, 0x367cd507, 0x3070dd17, 0xf70e5939,
    0xffc00b31, 0x68581511, 0x64f98fa7, 0xbefa4fa4⟩
  digestSize := 28

def sha256 : Hash UInt32 where
  format := format32
  initial := ⟨0x6a09e667, 0xbb67ae85, 0x3c6ef372, 0xa54ff53a,
    0x510e527f, 0x9b05688c, 0x1f83d9ab, 0x5be0cd19⟩
  digestSize := 32

def sha384 : Hash UInt64 where
  format := format64
  initial := ⟨
    0xcbbb9d5dc1059ed8, 0x629a292a367cd507, 0x9159015a3070dd17, 0x152fecd8f70e5939,
    0x67332667ffc00b31, 0x8eb44a8768581511, 0xdb0c2e0d64f98fa7, 0x47b5481dbefa4fa4⟩
  digestSize := 48

def sha512 : Hash UInt64 where
  format := format64
  initial := ⟨
    0x6a09e667f3bcc908, 0xbb67ae8584caa73b, 0x3c6ef372fe94f82b, 0xa54ff53a5f1d36f1,
    0x510e527fade682d1, 0x9b05688c2b3e6c1f, 0x1f83d9abfb41bd6b, 0x5be0cd19137e2179⟩
  digestSize := 64

namespace Hash

variable {W : Type} (H : Hash W) (compress : State W → Bytes → State W)

def blockSize : Nat := 16 * H.format.width

def field : Nat := 2 * H.format.width

/-- The state after the blocks of a text. -/
def absorb (text : Bytes) : State W := BlockHash.absorb compress H.blockSize H.initial text

/-- The digest of a text, for a compression function. -/
def digest (text : Bytes) : Bytes :=
  ((finish compress H.blockSize H.field H.initial text).toBytes H.format).take H.digestSize

end Hash

/-- The digest of `abc`. -/
example : (sha256.digest compress256 [0x61, 0x62, 0x63]).take 4 = [0xba, 0x78, 0x16, 0xbf] := by
  decide +kernel

example : (sha512.digest compress512 [0x61, 0x62, 0x63]).take 4 = [0xdd, 0xaf, 0x35, 0xa1] := by
  decide +kernel

end Sha2
