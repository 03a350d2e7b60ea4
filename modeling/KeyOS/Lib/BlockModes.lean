import KeyOS.Lib.ByteStream

/-!
# Block modes

The blocks of a text, functions that work on them one after the other and carry a state, and the
modes of operation of a block cipher as such functions. A text given in pieces of whole blocks is
worked on as the whole text is.
-/

namespace BlockModes

abbrev Bytes := List UInt8

variable {α S : Type}

/-! ## 1. Blocks -/

/-- The blocks of a text, of `n` elements each; the last may be shorter. -/
def blocks (n : Nat) (text : List α) : List (List α) :=
  (List.range ((text.length + (n - 1)) / n)).map fun i => (text.drop (n * i)).take n

@[simp] theorem blocks_nil {n : Nat} : blocks n ([] : List α) = [] := by
  have hzero : ([] : List α).length + (n - 1) < n ∨ n = 0 := by
    show 0 + (n - 1) < n ∨ n = 0
    omega
  unfold blocks
  rcases hzero with hlt | rfl
  · rw [Nat.div_eq_of_lt hlt]
    rfl
  · rw [Nat.div_zero]
    rfl

/-- A text of at most one block is that block. -/
theorem blocks_short {n : Nat} {text : List α} (hpos : text ≠ []) (h : text.length ≤ n) :
    blocks n text = [text] := by
  have hlen : 0 < text.length := List.length_pos_iff.2 hpos
  have hone : (text.length + (n - 1)) / n = 1 :=
    Nat.div_eq_of_lt_le (by omega) (by omega)
  unfold blocks
  rw [hone]
  show [(text.drop (n * 0)).take n] = [text]
  rw [Nat.mul_zero, List.drop_zero, List.take_of_length_le h]

theorem blocks_append {n : Nat} (hn : 0 < n) {xs ys : List α} (h : n ∣ xs.length) :
    blocks n (xs ++ ys) = blocks n xs ++ blocks n ys := by
  obtain ⟨k, hk⟩ := h
  have hxs : (xs.length + (n - 1)) / n = k := by
    rw [hk, Nat.mul_add_div hn, Nat.div_eq_of_lt (by omega), Nat.add_zero]
  have hboth : ((xs ++ ys).length + (n - 1)) / n = k + (ys.length + (n - 1)) / n := by
    rw [List.length_append, hk, Nat.add_assoc, Nat.mul_add_div hn]
  unfold blocks
  rw [hboth, hxs, List.range_add, List.map_append, List.map_map]
  congr 1
  · refine List.map_congr_left fun i hi => ?_
    have hlt : n * i + n ≤ xs.length := by
      rw [hk, ← Nat.mul_succ]
      exact Nat.mul_le_mul_left n (List.mem_range.1 hi)
    rw [List.drop_append_of_le_length (by omega), List.take_append_of_le_length]
    rw [List.length_drop]
    omega
  · refine List.map_congr_left fun i _ => ?_
    show ((xs ++ ys).drop (n * (k + i))).take n = _
    rw [Nat.mul_add, ← hk, ← List.drop_drop, List.drop_left]

theorem length_of_mem_blocks {n : Nat} {text block : List α} (h : block ∈ blocks n text) :
    block.length ≤ n := by
  obtain ⟨i, -, rfl⟩ := List.mem_map.1 h
  exact List.length_take_le n _

/-- A text is empty, or at most one block, or a whole block and a text. -/
@[elab_as_elim]
theorem text_induction {n : Nat} (hn : 0 < n) {motive : List α → Prop} (nil : motive [])
    (short : ∀ block, block ≠ [] → block.length < n → motive block)
    (whole : ∀ block rest, block.length = n → motive rest → motive (block ++ rest))
    (text : List α) : motive text := by
  by_cases hshort : text.length < n
  · by_cases hnil : text = []
    · rw [hnil]
      exact nil
    · exact short text hnil hshort
  · have hlen : (text.take n).length = n := by
      rw [List.length_take]
      omega
    rw [← List.take_append_drop n text]
    exact whole _ _ hlen (text_induction hn nil short whole (text.drop n))
termination_by text.length
decreasing_by
  rw [List.length_drop]
  omega

/-- A text ends in its last block. -/
theorem take_drop_aligned {n : Nat} (text : List α) :
    n ∣ (text.take (text.length / n * n)).length ∧
      (text.drop (text.length / n * n)).length = text.length % n := by
  have hle : text.length / n * n ≤ text.length := Nat.div_mul_le_self _ _
  have hsplit := Nat.div_add_mod text.length n
  rw [Nat.mul_comm] at hsplit
  refine ⟨?_, ?_⟩
  · rw [List.length_take, Nat.min_eq_left hle]
    exact Nat.dvd_mul_left n _
  · rw [List.length_drop]
    omega

/-! ## 2. Modes -/

/-- What is done with one block, in a state. -/
structure Mode (α S : Type) where
  step : S → List α → List α × S

namespace Mode

variable (m : Mode α S)

def run (s : S) : List (List α) → List α × S
  | [] => ([], s)
  | block :: rest =>
    ((m.step s block).1 ++ (run (m.step s block).2 rest).1, (run (m.step s block).2 rest).2)

/-- A text, in blocks of `n` elements. -/
def process (n : Nat) (s : S) (text : List α) : List α × S := m.run s (blocks n text)

theorem run_append (s : S) (xs ys : List (List α)) :
    m.run s (xs ++ ys) =
      ((m.run s xs).1 ++ (m.run (m.run s xs).2 ys).1, (m.run (m.run s xs).2 ys).2) := by
  induction xs generalizing s with
  | nil => rfl
  | cons block rest ih =>
    show m.run s (block :: (rest ++ ys)) = _
    rw [run, ih, run, List.append_assoc]

@[simp] theorem process_nil {n : Nat} (s : S) : m.process n s [] = ([], s) := by
  rw [process, blocks_nil]
  rfl

/-- A text in two pieces, the first of whole blocks. -/
theorem process_append {n : Nat} (hn : 0 < n) (s : S) {xs : List α} (ys : List α)
    (h : n ∣ xs.length) :
    m.process n s (xs ++ ys) =
      ((m.process n s xs).1 ++ (m.process n (m.process n s xs).2 ys).1,
        (m.process n (m.process n s xs).2 ys).2) := by
  rw [process, blocks_append hn h, run_append]
  rfl

theorem process_short {n : Nat} (s : S) {text : List α} (hpos : text ≠ [])
    (h : text.length ≤ n) : m.process n s text = m.step s text := by
  rw [process, blocks_short hpos h]
  show ((m.step s text).1 ++ [], (m.step s text).2) = m.step s text
  rw [List.append_nil]

theorem process_cons {n : Nat} (hn : 0 < n) (s : S) {block : List α} (rest : List α)
    (h : block.length = n) :
    m.process n s (block ++ rest) =
      ((m.step s block).1 ++ (m.process n (m.step s block).2 rest).1,
        (m.process n (m.step s block).2 rest).2) := by
  have hnil : block ≠ [] := by
    rintro rfl
    exact absurd h (Nat.ne_of_lt hn)
  rw [process_append m hn s rest (h ▸ Nat.dvd_refl _), process_short m s hnil (Nat.le_of_eq h)]

end Mode

/-! ## 3. Block ciphers -/

/-- A cipher on blocks of 16 bytes under one key, with the product of the hash key and a block. -/
structure BlockCipher where
  encrypt : Bytes → Bytes
  decrypt : Bytes → Bytes
  hashMul : Bytes → Bytes
  length_encrypt : ∀ block, block.length = 16 → (encrypt block).length = 16
  length_decrypt : ∀ block, block.length = 16 → (decrypt block).length = 16
  length_hashMul : ∀ block, block.length = 16 → (hashMul block).length = 16

def xor (a b : Bytes) : Bytes := List.zipWith (· ^^^ ·) a b

/-- A short block is filled up with zeroes. -/
def pad (block : Bytes) : Bytes := block ++ List.replicate (16 - block.length) 0

/-- One more, where the low end comes first. -/
def incrementLe : Bytes → Bytes
  | [] => []
  | b :: rest => if b = 255 then 0 :: incrementLe rest else (b + 1) :: rest

/-- The last `n` bytes are a counter, the high end first. -/
def increment (n : Nat) (block : Bytes) : Bytes :=
  block.take (16 - n) ++ (incrementLe (block.drop (16 - n)).reverse).reverse

/-- What a mode carries: a block or a counter, and a hash value. -/
structure Chain where
  iv : Bytes
  hash : Bytes
deriving DecidableEq

/-- Absorb a block into a hash value. -/
def BlockCipher.absorb (c : BlockCipher) (hash block : Bytes) : Bytes :=
  c.hashMul (xor hash (pad block))

/-- Absorb the blocks of a text. -/
def BlockCipher.hashText (c : BlockCipher) (hash text : Bytes) : Bytes :=
  (blocks 16 text).foldl c.absorb hash

inductive ModeKind where
  | ecb
  | cbc
  | ctr
  | gcm
deriving DecidableEq

/-- The modes of operation, one block at a time. -/
def BlockCipher.step (c : BlockCipher) (encrypting : Bool) : ModeKind → Chain → Bytes → Bytes × Chain
  | .ecb, s, block => (if encrypting then c.encrypt block else c.decrypt block, s)
  | .cbc, s, block =>
    if encrypting then
      (c.encrypt (xor block s.iv), { s with iv := c.encrypt (xor block s.iv) })
    else (xor (c.decrypt block) s.iv, { s with iv := block })
  | .ctr, s, block => (xor block (c.encrypt s.iv), { s with iv := increment 16 s.iv })
  | .gcm, s, block =>
    (xor block (c.encrypt s.iv),
      { iv := increment 4 s.iv
        hash := c.absorb s.hash (if encrypting then xor block (c.encrypt s.iv) else block) })

def BlockCipher.mode (c : BlockCipher) (encrypting : Bool) (kind : ModeKind) : Mode UInt8 Chain where
  step := c.step encrypting kind

/-- The block that closes the hash: the lengths in bits. -/
def lengthBlock (aad text : Nat) : Bytes := ByteStream.be 8 (8 * aad) ++ ByteStream.be 8 (8 * text)

/-- The tag of a text that is hashed after its additional data, where `j0` is the first counter
block. -/
def BlockCipher.tag (c : BlockCipher) (j0 aad ciphertext : Bytes) : Bytes :=
  let hash := c.hashText (c.hashText (List.replicate 16 0) aad) ciphertext
  xor (c.absorb hash (lengthBlock aad.length ciphertext.length)) (c.encrypt j0)

@[simp] theorem mode_step {c : BlockCipher} {encrypting : Bool} {kind : ModeKind} :
    (c.mode encrypting kind).step = c.step encrypting kind := rfl

section Cipher

variable {c : BlockCipher} {encrypting : Bool} {kind : ModeKind} {s : Chain}

@[simp] theorem length_xor (a b : Bytes) : (xor a b).length = min a.length b.length :=
  List.length_zipWith

@[simp] theorem length_incrementLe (bytes : Bytes) : (incrementLe bytes).length = bytes.length := by
  induction bytes with
  | nil => rfl
  | cons b rest ih =>
    unfold incrementLe
    split
    · rw [List.length_cons, ih, List.length_cons]
    · rfl

theorem length_increment {n : Nat} {block : Bytes} (h : block.length = 16) :
    (increment n block).length = 16 := by
  rw [increment, List.length_append, List.length_reverse, length_incrementLe, List.length_reverse,
    ← List.length_append, List.take_append_drop, h]

/-- Which texts a mode works on: a text that ends in a short block has a mode with a counter. -/
def ModeKind.Fits (kind : ModeKind) (text : Bytes) : Prop :=
  16 ∣ text.length ∨ kind = .ctr ∨ kind = .gcm

theorem ModeKind.Fits.rest {block rest : Bytes} (h : kind.Fits (block ++ rest))
    (hblock : block.length = 16) : kind.Fits rest := by
  refine h.imp_left fun hdvd => ?_
  rw [List.length_append, hblock] at hdvd
  omega

theorem step_good (c : BlockCipher) (encrypting : Bool) (kind : ModeKind) {block : Bytes}
    (hs : s.iv.length = 16) (hle : block.length ≤ 16)
    (hfits : block.length = 16 ∨ kind = .ctr ∨ kind = .gcm) :
    (c.step encrypting kind s block).1.length = block.length ∧
      (c.step encrypting kind s block).2.iv.length = 16 := by
  have hkey : (c.encrypt s.iv).length = 16 := c.length_encrypt _ hs
  cases kind with
  | ecb =>
    have hblock : block.length = 16 := hfits.resolve_right (by rintro (h | h) <;> cases h)
    refine ⟨?_, hs⟩
    show (if encrypting then c.encrypt block else c.decrypt block).length = _
    split
    · rw [c.length_encrypt _ hblock, hblock]
    · rw [c.length_decrypt _ hblock, hblock]
  | cbc =>
    have hblock : block.length = 16 := hfits.resolve_right (by rintro (h | h) <;> cases h)
    have hxor : (xor block s.iv).length = 16 := by rw [length_xor, hblock, hs, Nat.min_self]
    cases encrypting with
    | true =>
      have hlen := c.length_encrypt _ hxor
      exact ⟨hlen.trans hblock.symm, hlen⟩
    | false =>
      refine ⟨?_, hblock⟩
      show (xor (c.decrypt block) s.iv).length = _
      rw [length_xor, c.length_decrypt _ hblock, hs, hblock, Nat.min_self]
  | ctr =>
    refine ⟨?_, length_increment hs⟩
    show (xor block (c.encrypt s.iv)).length = _
    rw [length_xor, hkey, Nat.min_eq_left hle]
  | gcm =>
    refine ⟨?_, length_increment hs⟩
    show (xor block (c.encrypt s.iv)).length = _
    rw [length_xor, hkey, Nat.min_eq_left hle]

/-- A text is worked on without a change of its length. -/
theorem process_good (c : BlockCipher) (encrypting : Bool) (kind : ModeKind) {text : Bytes}
    (hs : s.iv.length = 16) (hfits : kind.Fits text) :
    ((c.mode encrypting kind).process 16 s text).1.length = text.length ∧
      ((c.mode encrypting kind).process 16 s text).2.iv.length = 16 := by
  induction text using text_induction (n := 16) (by decide) generalizing s with
  | nil =>
    rw [Mode.process_nil]
    exact ⟨rfl, hs⟩
  | short block hnil hlt =>
    rw [Mode.process_short _ _ hnil (Nat.le_of_lt hlt)]
    have hpos := List.length_pos_iff.2 hnil
    exact step_good c encrypting kind hs (Nat.le_of_lt hlt) (.inr (hfits.resolve_left fun hdvd => by
      have hle := Nat.le_of_dvd hpos hdvd
      omega))
  | whole block rest hblock ih =>
    rw [Mode.process_cons _ (by decide) _ _ hblock]
    obtain ⟨hlen, hiv⟩ := step_good c encrypting kind hs (Nat.le_of_eq hblock) (.inl hblock)
    obtain ⟨hrest, hlast⟩ := ih hiv (hfits.rest hblock)
    refine ⟨?_, hlast⟩
    dsimp only
    rw [List.length_append, List.length_append, mode_step, hlen, hrest]

/-- The last block of a text. -/
def lastBlock (text : Bytes) : Bytes := text.drop (text.length - 16)

theorem lastBlock_append {a b : Bytes} (h : 16 ≤ b.length) : lastBlock (a ++ b) = lastBlock b := by
  have hlen : (a ++ b).length - 16 = a.length + (b.length - 16) := by
    rw [List.length_append]
    omega
  rw [lastBlock, hlen, ← List.drop_drop, List.drop_left, lastBlock]

theorem lastBlock_block {b : Bytes} (h : b.length = 16) : lastBlock b = b := by
  rw [lastBlock, h]
  rfl

/-- What is chained is the last block of the ciphertext. -/
theorem cbc_iv {text : Bytes} (hs : s.iv.length = 16) (hdvd : 16 ∣ text.length) (hnil : text ≠ []) :
    ((c.mode encrypting .cbc).process 16 s text).2.iv = lastBlock
      (if encrypting then ((c.mode encrypting .cbc).process 16 s text).1 else text) := by
  induction text using text_induction (n := 16) (by decide) generalizing s with
  | nil => exact absurd rfl hnil
  | short block hne hlt =>
    have hle := Nat.le_of_dvd (List.length_pos_iff.2 hne) hdvd
    omega
  | whole block rest hblock ih =>
    obtain ⟨hlen, hiv⟩ := step_good c encrypting .cbc hs (Nat.le_of_eq hblock) (.inl hblock)
    have hrest : 16 ∣ rest.length := by
      rw [List.length_append, hblock] at hdvd
      omega
    rw [Mode.process_cons _ (by decide) _ _ hblock]
    by_cases hempty : rest = []
    · subst hempty
      rw [Mode.process_nil, List.append_nil, List.append_nil]
      cases encrypting with
      | true => exact (lastBlock_block (hlen.trans hblock)).symm
      | false => exact (lastBlock_block hblock).symm
    · have hle : 16 ≤ rest.length := Nat.le_of_dvd (List.length_pos_iff.2 hempty) hrest
      have hout := (process_good c encrypting .cbc hiv (.inl hrest)).1
      dsimp only
      rw [mode_step, ih hiv hrest hempty]
      cases encrypting with
      | true =>
        refine (lastBlock_append ?_).symm
        exact hout.symm ▸ hle
      | false => exact (lastBlock_append hle).symm

theorem hashText_append {a b : Bytes} (hash : Bytes) (h : 16 ∣ a.length) :
    c.hashText hash (a ++ b) = c.hashText (c.hashText hash a) b := by
  rw [BlockCipher.hashText, blocks_append (by decide) h, List.foldl_append]
  rfl

theorem hashText_short {block : Bytes} (hash : Bytes) (hnil : block ≠ [])
    (h : block.length ≤ 16) : c.hashText hash block = c.absorb hash block := by
  rw [BlockCipher.hashText, blocks_short hnil h]
  rfl

@[simp] theorem hashText_nil (hash : Bytes) : c.hashText hash [] = hash := by
  rw [BlockCipher.hashText, blocks_nil]
  rfl

theorem length_pad {block : Bytes} (h : block.length ≤ 16) : (pad block).length = 16 := by
  rw [pad, List.length_append, List.length_replicate]
  omega

theorem length_hashText {hash : Bytes} (h : hash.length = 16) (text : Bytes) :
    (c.hashText hash text).length = 16 := by
  have hfold : ∀ bs : List Bytes, (∀ b ∈ bs, b.length ≤ 16) → ∀ start : Bytes,
      start.length = 16 → (bs.foldl c.absorb start).length = 16 := by
    intro bs
    induction bs with
    | nil => exact fun _ start hstart => hstart
    | cons b bs ih =>
      intro hbs start hstart
      refine ih (fun x hx => hbs x (List.mem_cons_of_mem b hx)) _ (c.length_hashMul _ ?_)
      rw [length_xor, hstart, length_pad (hbs b List.mem_cons_self), Nat.min_self]
  exact hfold _ (fun b hb => length_of_mem_blocks hb) hash h

/-- The hash value has absorbed the ciphertext. -/
theorem gcm_hash {text : Bytes} (hs : s.iv.length = 16) :
    ((c.mode encrypting .gcm).process 16 s text).2.hash = c.hashText s.hash
      (if encrypting then ((c.mode encrypting .gcm).process 16 s text).1 else text) := by
  induction text using text_induction (n := 16) (by decide) generalizing s with
  | nil =>
    rw [Mode.process_nil]
    split <;> exact (hashText_nil _).symm
  | short block hnil hlt =>
    rw [Mode.process_short _ _ hnil (Nat.le_of_lt hlt)]
    obtain ⟨hlen, -⟩ := step_good c encrypting .gcm hs (Nat.le_of_lt hlt) (.inr (.inr rfl))
    have hpos := List.length_pos_iff.2 hnil
    cases encrypting with
    | true =>
      refine (hashText_short _ ?_ ?_).symm
      · exact List.length_pos_iff.1 (Nat.lt_of_lt_of_eq hpos hlen.symm)
      · exact hlen.symm ▸ Nat.le_of_lt hlt
    | false => exact (hashText_short _ hnil (Nat.le_of_lt hlt)).symm
  | whole block rest hblock ih =>
    obtain ⟨hlen, hiv⟩ := step_good c encrypting .gcm hs (Nat.le_of_eq hblock) (.inl hblock)
    have hnil : block ≠ [] := by
      rintro rfl
      cases hblock
    rw [Mode.process_cons _ (by decide) _ _ hblock]
    dsimp only
    rw [mode_step, ih hiv]
    cases encrypting with
    | true =>
      have hout : (c.step true .gcm s block).1.length = 16 := hlen.trans hblock
      refine ((hashText_append s.hash (hout ▸ Nat.dvd_refl _)).trans ?_).symm
      rw [hashText_short s.hash (List.length_pos_iff.1 (by omega)) (Nat.le_of_eq hout)]
      rfl
    | false =>
      refine ((hashText_append s.hash (hblock ▸ Nat.dvd_refl _)).trans ?_).symm
      rw [hashText_short s.hash hnil (Nat.le_of_eq hblock)]
      rfl

/-- The counter counts blocks. -/
theorem gcm_iv {text : Bytes} (hdvd : 16 ∣ text.length) :
    ((c.mode encrypting .gcm).process 16 s text).2.iv =
      (increment 4)^[text.length / 16] s.iv := by
  induction text using text_induction (n := 16) (by decide) generalizing s with
  | nil =>
    rw [Mode.process_nil]
    rfl
  | short block hne hlt =>
    have hle := Nat.le_of_dvd (List.length_pos_iff.2 hne) hdvd
    omega
  | whole block rest hblock ih =>
    have hrest : 16 ∣ rest.length := by
      rw [List.length_append, hblock] at hdvd
      omega
    have hcount : (block ++ rest).length / 16 = rest.length / 16 + 1 := by
      rw [List.length_append, hblock]
      omega
    rw [Mode.process_cons _ (by decide) _ _ hblock, hcount, Function.iterate_succ_apply]
    exact ih hrest

theorem ecb_chain {text : Bytes} : ((c.mode encrypting .ecb).process 16 s text).2 = s := by
  induction text using text_induction (n := 16) (by decide) generalizing s with
  | nil => rw [Mode.process_nil]
  | short block hne hlt =>
    rw [Mode.process_short _ _ hne (Nat.le_of_lt hlt)]
    rfl
  | whole block rest hblock ih =>
    rw [Mode.process_cons _ (by decide) _ _ hblock]
    exact ih

theorem step_iv {s' : Chain} (h : s.iv = s'.iv) (block : Bytes) :
    (c.step encrypting kind s block).1 = (c.step encrypting kind s' block).1 ∧
      (c.step encrypting kind s block).2.iv = (c.step encrypting kind s' block).2.iv := by
  obtain ⟨iv, hash⟩ := s
  obtain ⟨iv', hash'⟩ := s'
  obtain rfl : iv = iv' := h
  cases kind with
  | ecb => exact ⟨rfl, rfl⟩
  | cbc => cases encrypting <;> exact ⟨rfl, rfl⟩
  | ctr => exact ⟨rfl, rfl⟩
  | gcm => exact ⟨rfl, rfl⟩

/-- What comes out does not depend on the hash value. -/
theorem process_iv {s' : Chain} (h : s.iv = s'.iv) {text : Bytes} :
    ((c.mode encrypting kind).process 16 s text).1 =
        ((c.mode encrypting kind).process 16 s' text).1 ∧
      ((c.mode encrypting kind).process 16 s text).2.iv =
        ((c.mode encrypting kind).process 16 s' text).2.iv := by
  induction text using text_induction (n := 16) (by decide) generalizing s s' with
  | nil =>
    rw [Mode.process_nil, Mode.process_nil]
    exact ⟨rfl, h⟩
  | short block hne hlt =>
    rw [Mode.process_short _ _ hne (Nat.le_of_lt hlt), Mode.process_short _ _ hne (Nat.le_of_lt hlt)]
    exact step_iv h block
  | whole block rest hblock ih =>
    rw [Mode.process_cons _ (by decide) _ _ hblock, Mode.process_cons _ (by decide) _ _ hblock]
    obtain ⟨hout, hiv⟩ := step_iv (c := c) h block
    obtain ⟨hrest, hlast⟩ := ih hiv
    refine ⟨?_, hlast⟩
    dsimp only
    rw [mode_step, hout, hrest]

end Cipher

end BlockModes
