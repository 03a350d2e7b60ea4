import KeyOS.Security.Server

/-!
# What the stores hold

The stored seed reads back as it was written, if the one-time key does not make it zero.
The rest says what the commands answer: from contents in `P` a program gets to `Q`, and only
a fault or a loss of power can stop it.
-/

namespace Security

open Exec Interrupt Interruptible

/-! ## 1. The stored seed -/

variable {n m : Nat}

@[simp] theorem xorBytes_cancel (a : Bytes n) (k : Bytes m) :
    xorBytes (xorBytes a k) k = a := by
  funext i
  unfold xorBytes
  split
  · rw [UInt8.xor_assoc, UInt8.xor_self, UInt8.xor_zero]
  · rfl

theorem seed_xor_cancel (seed : Seed) (xorHash : XorPinHash) :
    (seed.pinHashXor xorHash).pinHashXor xorHash = seed := by
  cases seed <;> simp only [Seed.pinHashXor, XorSeed.pinHashXor, xorBytes_cancel]

/-- The one-time key is set, and does not make zeros of the seed. -/
def Usable (otpKey : Bytes 72) (x : XorSeed) : Prop :=
  otpKey ≠ zeros 72 ∧ (x.skipEncrypting = true ∨ x.encryptUntagged otpKey ≠ zeros 32)

theorem resize_tagged (x : XorSeed) : resize 32 x.tagged = x.padded := by
  funext i
  unfold resize XorSeed.tagged
  rw [dif_pos (by omega), dif_pos i.isLt]

theorem resize_xorBytes (a : Bytes 33) (otpKey : Bytes 72) :
    resize 32 (xorBytes a otpKey) = xorBytes (resize 32 a) otpKey := by
  funext i
  unfold resize xorBytes
  simp only [dif_pos (show i.val < 33 by omega), dif_pos (show i.val < 72 by omega)]

/-- The first block of the stored seed is the write key of the PIN hash. -/
theorem resize_encryptTagged (x : XorSeed) (otpKey : Bytes 72) :
    resize 32 (x.encryptTagged otpKey) = x.encryptUntagged otpKey := by
  unfold XorSeed.encryptTagged XorSeed.encryptUntagged
  split
  · exact resize_tagged x
  · rw [resize_xorBytes, resize_tagged]

theorem padded_of_skip {x : XorSeed} (h : x.skipEncrypting = true) : x.padded = zeros 32 := by
  cases x with
  | twelve seed =>
    have hzero : seed = zeros 16 := of_decide_eq_true h
    funext i
    show resize 32 seed i = 0
    unfold resize
    split
    · rw [hzero]
      rfl
    · rfl
  | twentyFour seed => exact of_decide_eq_true h

theorem resize_resize (a : Bytes 16) : resize 16 (resize 32 a) = a := by
  funext i
  unfold resize
  rw [dif_pos (by omega), dif_pos i.isLt]

/-- The tag tells which seed the bytes hold. -/
theorem read_tagged (x : XorSeed) :
    (if x.tagged 32 = 0x12 then some (XorSeed.twelve (resize 16 x.tagged))
      else if x.tagged 32 = 0x24 then some (.twentyFour (resize 32 x.tagged)) else none)
      = some x := by
  have htag : x.tagged 32 = x.tag := rfl
  have hsixteen : resize 16 x.tagged = resize 16 (resize 32 x.tagged) := by
    funext i
    unfold resize
    rw [dif_pos (by omega), dif_pos (by omega), dif_pos (by omega)]
  rw [htag, hsixteen, resize_tagged]
  cases x with
  | twelve seed =>
    have hsame : resize 16 (XorSeed.twelve seed).padded = seed := resize_resize seed
    rw [if_pos (show (XorSeed.twelve seed).tag = 0x12 from rfl), hsame]
  | twentyFour seed =>
    have hne : (0x24 : UInt8) ≠ 0x12 := by decide
    rw [if_neg (show ¬ (XorSeed.twentyFour seed).tag = 0x12 from hne),
      if_pos (show (XorSeed.twentyFour seed).tag = 0x24 from rfl)]
    rfl

theorem decrypt_encrypt {x : XorSeed} {otpKey : Bytes 72} (h : Usable otpKey x) :
    XorSeed.decryptTagged (x.encryptTagged otpKey) otpKey = some x := by
  unfold XorSeed.decryptTagged
  have hread : (if resize 32 (x.encryptTagged otpKey) = zeros 32 then x.encryptTagged otpKey
      else xorBytes (x.encryptTagged otpKey) otpKey) = x.tagged := by
    rw [resize_encryptTagged]
    unfold XorSeed.encryptTagged
    by_cases hskip : x.skipEncrypting = true
    · have hzero : x.encryptUntagged otpKey = zeros 32 := by
        unfold XorSeed.encryptUntagged
        rw [if_pos hskip]
        exact padded_of_skip hskip
      rw [if_pos hzero, if_pos hskip]
    · have hne : x.encryptUntagged otpKey ≠ zeros 32 := h.2.resolve_left hskip
      rw [if_neg hne, if_neg hskip, xorBytes_cancel]
  rw [hread]
  exact read_tagged x

/-- The bytes of the seed slot, as they are read. -/
theorem join_chunks (a : Bytes 33) (rest : Bytes 32) :
    resize 33 (joinBlocks 72 [chunk a 0, chunk a 1, rest]) = a := by
  funext i
  unfold resize joinBlocks
  rw [dif_pos (by omega)]
  have hmod : 32 * (i.val / 32) + i.val % 32 = i.val := Nat.div_add_mod _ _
  rcases Nat.lt_or_ge i.val 32 with hlt | hge
  · have hblock : i.val / 32 = 0 := by omega
    simp only [hblock, List.getD_cons_zero]
    rw [hblock] at hmod
    unfold chunk
    rw [dif_pos (show 32 * 0 + i.val % 32 < 33 by omega)]
    exact congrArg a (Fin.ext hmod)
  · have hblock : i.val / 32 = 1 := by omega
    simp only [hblock, List.getD_cons_succ, List.getD_cons_zero]
    rw [hblock] at hmod
    unfold chunk
    rw [dif_pos (show 32 * 1 + i.val % 32 < 33 by omega)]
    exact congrArg a (Fin.ext hmod)

/-! ## 2. What the commands answer -/

section Answers

/-- From `P` the program gets to `Q`: only a fault or a loss of power stops it, in `S`. -/
abbrev Answers (F : Fate Unit → Prop) (P : Machine → Prop) {ε α : Type} (x : SecurityM ε α)
    (Q : α → Machine → Prop) (S : Machine → Prop) : Prop :=
  Spec F P x Q fun stop m => Blamed F stop ∧ S m

variable (b : Board) {F : Fate Unit → Prop} {P : Machine → Prop} {ε ε' α : Type}

theorem Answers.weaken {x : SecurityM ε α} {Q Q' : α → Machine → Prop} {S S' : Machine → Prop}
    (h : Answers F P x Q S) (hQ : ∀ a m, Q a m → Q' a m) (hS : ∀ m, S m → S' m) :
    Answers F P x Q' S' :=
  h.conseq (fun _ => id) hQ fun _ m hm => ⟨hm.1, hS m hm.2⟩

theorem probe_answers {fault : Unit → ε} {f : Machine → Except ε α} {Q : α → Machine → Prop}
    (h : ∀ m, P m → ∃ a, f m = .ok a ∧ Q a m) : Answers F P (probe fault f) Q P := by
  refine Spec.probe (fun m a hP ha => ?_) (fun m e hP he => ?_)
    (fun _ x hP hF => ⟨⟨x, hF⟩, hP⟩) fun _ hP hF => ⟨hF, hP⟩
  · obtain ⟨a', ha', hQ⟩ := h m hP
    rw [ha'] at ha
    cases ha
    exact hQ
  · obtain ⟨a', ha', -⟩ := h m hP
    rw [ha'] at he
    cases he

theorem mapErr_answers {g : ε → ε'} {x : SecurityM ε α} {Q : α → Machine → Prop}
    {S : Machine → Prop} (h : Answers F P x Q S) : Answers F P (mapErr g x) Q S := by
  refine Spec.mapErr (h.conseq (fun _ => id) (fun _ _ => id) fun stop m hm => ?_)
  cases stop <;> exact hm

theorem expect_answers {message : String} {x : SecurityM ε α} {Q : α → Machine → Prop}
    {S : Machine → Prop} (h : Answers F P x Q S) :
    Answers F P (expect message x : SecurityM ε' α) Q S := by
  refine Prog.Triple.mapErr (h.conseq (fun _ => id) (fun _ _ => id) fun stop m hm => ?_)
  cases stop <;> exact hm

theorem hashOf_answers (a : α) : Answers F P (hashOf a) (fun a' m => P m ∧ a' = a) P :=
  probe_answers fun _ hP => ⟨a, rfl, hP, rfl⟩

theorem query_answers {f : Element → Except Error α} {Q : α → Machine → Prop}
    (h : ∀ m, P m → ∃ a, f m.element = .ok a ∧ Q a m) : Answers F P (query f) Q P :=
  probe_answers h

theorem readSecuram_answers (f : Securam → α) (h : ∀ m, P m → m.securam.intact = true) :
    Answers F P (readSecuram f : SecurityM ε α) (fun a m => P m ∧ a = f m.securam) P :=
  expect_answers (probe_answers fun m hP => ⟨f m.securam, if_pos (h m hP), hP, rfl⟩)

theorem withSecuram_answers (f : Securam → Securam) {Q : Machine → Prop}
    (h : ∀ m, P m → m.securam.intact = true ∧ Q { m with securam := f m.securam }) :
    Answers F P (withSecuram f : SecurityM ε Unit) (fun _ => Q) P := by
  refine expect_answers (Spec.step (fun m a m' hP hm => ?_) (fun m e hP he => ?_)
    (fun _ x hP hF => ⟨⟨x, hF⟩, hP⟩) fun _ hP hF => ⟨hF, hP⟩)
  · rw [if_pos (h m hP).1] at hm
    cases hm
    exact (h m hP).2
  · rw [if_pos (h m hP).1] at he
    cases he

theorem pickNonce_answers : Answers F P pickNonce (fun _ => P) P :=
  Spec.bind (Q := fun _ => P) (query_answers fun _ hP => ⟨(), rfl, hP⟩) fun _ =>
    (hashOf_answers ()).weaken (fun _ _ h => h.1) fun _ => id

theorem gendigSlot_answers (slot : Slot) (contents : Bytes 32) :
    Answers F P (gendigSlot slot contents)
      (fun digest m => P m ∧ digest = .slot slot contents) P :=
  Spec.bind pickNonce_answers fun _ =>
    Spec.bind (Q := fun _ => P) (query_answers fun _ hP => ⟨(), rfl, hP⟩) fun _ =>
      hashOf_answers _

theorem checkmac_answers {slot : Slot} {secret : Bytes 32}
    (h : ∀ m, P m → m.element.slots slot 0 = secret) :
    Answers F P (checkmac slot secret) (fun _ => P) P :=
  Spec.bind pickNonce_answers fun _ =>
    Spec.bind (Q := fun _ => P) ((hashOf_answers ()).weaken (fun _ _ h => h.1) fun _ => id)
      fun _ => query_answers fun m hP => ⟨(), if_pos (h m hP), hP⟩

theorem orRetry_answers {x : SecurityM Error Unit} (h : Answers F P x (fun _ => P) P) (n : Nat) :
    Answers F P (orRetry x n) (fun _ => P) P := by
  induction n with
  | zero => exact h
  | succ n ih =>
    refine Spec.bind (Spec.attempt_blamed h) fun result => ?_
    cases result with
    | ok u => exact Spec.pure fun _ => id
    | error e => exact ih.pre fun _ hm => hm.2

/-- The element and the host share the pairing secret. -/
def Paired (m : Machine) : Prop := m.element.slots .ioProtectionSecret 0 = b.ioProtectionSecret

theorem pairUnlock_answers (h : ∀ m, P m → Paired b m) :
    Answers F P (pairUnlock b) (fun _ => P) P :=
  orRetry_answers (checkmac_answers h) 2

theorem requireTempkey_answers {digest : Digest} (h : ∀ m, P m → m.element.agrees digest = true) :
    Answers F P (requireTempkey digest) (fun _ => P) P := by
  refine Spec.bind (Q := fun correct m => P m ∧ correct = true) ?_ fun correct => ?_
  · refine Spec.bind (Q := fun correct m => P m ∧ correct = true)
      (query_answers fun m hP => ⟨_, rfl, hP, h m hP⟩) fun correct => ?_
    exact Answers.weaken (probe_answers fun _ hm => ⟨correct, rfl, hm⟩) (fun _ _ => id)
      fun _ hm => hm.1
  · refine (Spec.onlyIf (Q := fun _ => P) (fun hc => ?_) fun _ _ hm => hm.1)
    exact Spec.throw fun _ hm => absurd (hm.2.symm.trans hc) (by decide)

theorem checkmacHard_answers {slot : Slot} {secret : Bytes 32}
    (h : ∀ m, P m → m.element.slots slot 0 = secret) :
    Answers F P (checkmacHard slot secret) (fun _ => P) P := by
  refine Spec.bind (gendigSlot_answers slot secret) fun digest => ?_
  refine Answers.weaken (requireTempkey_answers fun m hm => ?_) (fun _ _ hm => hm.1)
    fun _ hm => hm.1
  rw [hm.2]
  exact decide_eq_true (h m hm.1)

/-- What an encrypted read makes of a block. -/
def readBlock (m : Machine) (dataSlot readKn : Slot) (readKey : Bytes 32) (blk : Nat) :
    Bytes 32 :=
  if m.element.slots readKn 0 = readKey then m.element.slots dataSlot blk
  else b.misread readKey (m.element.slots dataSlot blk)

theorem encryptedRead32_answers {m : Machine} (hpair : Paired b m) (dataSlot readKn : Slot)
    (blk : Nat) (readKey : Bytes 32) :
    Answers F (· = m) (encryptedRead32 b dataSlot blk readKn readKey)
      (fun a m' => m' = m ∧ a = readBlock b m dataSlot readKn readKey blk) (· = m) := by
  refine Spec.bind (pairUnlock_answers b fun m' hm => hm ▸ hpair) fun _ => ?_
  refine Spec.bind (gendigSlot_answers readKn readKey) fun digest => ?_
  refine Answers.weaken (query_answers fun m' hm => ⟨_, rfl, hm.1, ?_⟩) (fun _ _ => id)
    fun _ hm => hm.1
  rw [hm.1, hm.2]
  unfold readBlock Element.agrees
  simp only [decide_eq_true_eq]

theorem encryptedReadBlocks_answers {m : Machine} (hpair : Paired b m) (dataSlot readKn : Slot)
    (readKey : Bytes 32) (blks : List Nat) :
    Answers F (· = m) (encryptedReadBlocks b dataSlot readKn readKey blks)
      (fun blocks m' => m' = m ∧ blocks = blks.map (readBlock b m dataSlot readKn readKey))
      (· = m) := by
  induction blks with
  | nil => exact Spec.pure fun _ hm => ⟨hm, rfl⟩
  | cons blk blks ih =>
    refine Spec.bind (encryptedRead32_answers b hpair dataSlot readKn blk readKey) fun block => ?_
    refine Spec.pre (Spec.assume fun hblock => ?_) fun _ hm => And.comm.mp hm
    refine Spec.bind ih fun blocks => Spec.pure fun _ hm => ⟨hm.1, ?_⟩
    rw [hblock, hm.2]
    rfl

theorem encryptedRead_answers {m : Machine} (hpair : Paired b m) (n : Nat)
    (dataSlot readKn : Slot) (readKey : Bytes 32) :
    Answers F (· = m) (encryptedRead b n dataSlot readKn readKey)
      (fun a m' => m' = m ∧ a = joinBlocks n ((chunks n).map
        (readBlock b m dataSlot readKn readKey))) (· = m) :=
  Spec.bind (encryptedReadBlocks_answers b hpair dataSlot readKn readKey _) fun _ =>
    Spec.pure fun _ hm => ⟨hm.1, by rw [hm.2]⟩

end Answers

/-! ## 3. The vault -/

/-- A PIN and a seed. -/
structure Key where
  pin : RawPin
  seed : Seed

variable (b : Board)

def xorHashOf (pin : RawPin) : XorPinHash := b.sha256 (pin ++ seedEncryptionSalt)

def mixedSecrets (msg : Bytes 32) (otpKey : Bytes 72) : Bytes 32 :=
  b.sha256 (List.ofFn b.ioProtectionSecret ++ pinPrefix ++ List.ofFn msg ++ List.ofFn otpKey)

/-- The hash of a PIN, under the keys in the element. -/
def authHash (stretch attempt pin : Bytes 32) (otpKey : Bytes 72) : AuthPinHash :=
  mixedSecrets b (b.hmac attempt (b.hmac stretch (mixedSecrets b pin otpKey))) otpKey

def Machine.authHash (m : Machine) (rawPin : RawPin) : AuthPinHash :=
  Security.authHash b (m.element.slots .pinStretch 0) (m.element.slots .pinAttempt 0)
    (b.sha256 rawPin) m.securam.otpKey

/-- The seed as it is stored. -/
def Key.xored (k : Key) : XorSeed := k.seed.pinHashXor (xorHashOf b k.pin)

/-- The stores hold the seed of `k` under its PIN. -/
structure Holds (k : Key) (m : Machine) : Prop where
  paired : Paired b m
  intact : m.securam.intact = true
  pinHash : m.element.slots .pinHash 0 = m.authHash b k.pin
  seed0 : m.element.slots .seed 0 = chunk ((k.xored b).encryptTagged m.securam.otpKey) 0
  seed1 : m.element.slots .seed 1 = chunk ((k.xored b).encryptTagged m.securam.otpKey) 1
  usable : Usable m.securam.otpKey (k.xored b)

/-- The slots that the PIN and the seed depend on. -/
def Slot.inVault : Slot → Bool
  | ioProtectionSecret | pinStretch | pinAttempt | pinHash | seed => true
  | _ => false

/-- The stores are the same. -/
structure SameVault (m m' : Machine) : Prop where
  slots : ∀ slot, slot.inVault = true → m'.element.slots slot = m.element.slots slot
  otpKey : m'.securam.otpKey = m.securam.otpKey
  intact : m'.securam.intact = m.securam.intact

instance : Std.Refl SameVault := ⟨fun _ => ⟨fun _ _ => rfl, rfl, rfl⟩⟩

instance : IsTrans Machine SameVault :=
  ⟨fun _ _ _ h h' => ⟨fun slot hslot => (h'.slots slot hslot).trans (h.slots slot hslot),
    h'.otpKey.trans h.otpKey, h'.intact.trans h.intact⟩⟩

variable {b}

theorem SameVault.authHash {m m' : Machine} (h : SameVault m m') (rawPin : RawPin) :
    m'.authHash b rawPin = m.authHash b rawPin := by
  unfold Machine.authHash
  rw [h.slots .pinStretch rfl, h.slots .pinAttempt rfl, h.otpKey]

theorem SameVault.paired {m m' : Machine} (h : SameVault m m') (hm : Paired b m) : Paired b m' :=
  (congrFun (h.slots .ioProtectionSecret rfl) 0).trans hm

theorem Holds.same {k : Key} {m m' : Machine} (hm : Holds b k m) (h : SameVault m m') :
    Holds b k m' where
  paired := h.paired hm.paired
  intact := h.intact.trans hm.intact
  pinHash := by
    rw [h.slots .pinHash rfl, h.authHash]
    exact hm.pinHash
  seed0 := by
    rw [h.slots .seed rfl, h.otpKey]
    exact hm.seed0
  seed1 := by
    rw [h.slots .seed rfl, h.otpKey]
    exact hm.seed1
  usable := by
    rw [h.otpKey]
    exact hm.usable

theorem sameVault_put (m : Machine) {slot : Slot} (h : slot.inVault = false) (blk : Nat)
    (data : Bytes 32) : SameVault m { m with element := m.element.put slot blk data } where
  slots other hother := by
    funext k
    refine Element.slots_put_other m.element ?_ blk k data
    rintro rfl
    exact absurd (h.symm.trans hother) (by decide)
  otpKey := rfl
  intact := rfl

theorem sameVault_count (m : Machine) (counter : Counter) :
    SameVault m { m with element := m.element.count counter } :=
  ⟨fun _ _ => rfl, rfl, rfl⟩

/-! ## 4. What the functions answer -/

section Answers

variable {F : Fate Unit → Prop} {P S : Machine → Prop} {α : Type} {m₀ : Machine}

theorem command_answers {f : Element → Except Error (α × Element)} {Q : α → Machine → Prop}
    (hok : ∀ m a e, P m → f m.element = .ok (a, e) → Q a { m with element := e })
    (hrefused : ∀ m e, P m → f m.element = .error e → ∃ x, F (.fault x)) :
    Answers F P (command f) Q P := by
  refine Spec.step (fun m a m' hP hm => ?_) (fun m e hP he => ?_)
    (fun _ x hP hF => ⟨⟨x, hF⟩, hP⟩) fun _ hP hF => ⟨hF, hP⟩
  · cases hf : f m.element with
    | ok r =>
      rw [hf] at hm
      cases hm
      exact hok m r.1 r.2 hP hf
    | error e =>
      rw [hf] at hm
      cases hm
  · cases hf : f m.element with
    | ok r =>
      rw [hf] at he
      cases he
    | error e' => exact ⟨hrefused m e' hP hf, hP⟩

theorem hmac32_answers {slot : Slot} {key msg : Bytes 32}
    (hstart : Answers F P (command (Element.hmacStart slot)) (fun _ => S) S)
    (hkey : ∀ m, S m → m.element.slots slot 0 = key) :
    Answers F P (hmac32 b slot msg) (fun a m => S m ∧ a = b.hmac key msg) S :=
  Spec.bind hstart fun _ => query_answers fun m hm => ⟨_, rfl, hm, by rw [hkey m hm]⟩

/-- A PIN attempt yields the hash, if the element accepts it. -/
theorem pinHashAttempt_answers (hpair : Paired b m₀) (hP : ∀ m, P m → S m)
    (hsame : ∀ m, S m → SameVault m₀ m)
    (hcount : ∀ m, P m → S { m with element := m.element.count .loginAttempt })
    (hleft : ∀ m, P m → m.element.counters .loginAttempt < m.element.limit ∨ ∃ x, F (.fault x))
    (pin : Bytes 32) :
    Answers F P (pinHashAttempt b pin m₀.securam.otpKey)
      (fun a m => S m ∧ a = authHash b (m₀.element.slots .pinStretch 0)
        (m₀.element.slots .pinAttempt 0) pin m₀.securam.otpKey) S := by
  have hunlock {T : Machine → Prop} (hT : ∀ m, T m → S m) :
      Answers F T (pairUnlock b) (fun _ => T) T :=
    pairUnlock_answers b fun m hm => (hsame m (hT m hm)).paired hpair
  refine Spec.bind (Answers.weaken (hashOf_answers _) (fun _ _ => id) hP) fun digest => ?_
  refine Spec.pre (Spec.assume fun hdigest => ?_) fun _ hm => And.comm.mp hm
  refine Spec.bind ((hunlock hP).weaken (fun _ _ => id) hP) fun _ => ?_
  refine Spec.bind (Q := fun a m => P m ∧ a = b.hmac (m₀.element.slots .pinStretch 0) digest)
    (Answers.weaken (hmac32_answers (S := P) ?_ fun m hm => ?_) (fun _ _ => id) hP)
    fun stretched => ?_
  · exact command_answers (fun m a e hm he => by cases he; exact hm) fun m e hm he => by cases he
  · exact congrFun ((hsame m (hP m hm)).slots .pinStretch rfl) 0
  refine Spec.pre (Spec.assume fun hstretched => ?_) fun _ hm => And.comm.mp hm
  refine Spec.bind ((hunlock hP).weaken (fun _ _ => id) hP) fun _ => ?_
  refine Spec.bind (Q := fun a m => S m ∧ a = b.hmac (m₀.element.slots .pinAttempt 0) stretched)
    (hmac32_answers (Answers.weaken (command_answers (fun m a e hm he => ?_)
      fun m e hm he => ?_) (fun _ _ => id) hP) fun m hm => ?_) fun attempted => ?_
  · unfold Element.hmacStart Element.increment at he
    rw [if_pos rfl] at he
    split at he
    · cases he
    · cases he
      exact hcount m hm
  · rcases hleft m hm with hlt | hfault
    · unfold Element.hmacStart Element.increment at he
      rw [if_pos rfl, if_neg (fun h => Nat.not_le_of_lt hlt h.2)] at he
      cases he
    · exact hfault
  · exact congrFun ((hsame m hm).slots .pinAttempt rfl) 0
  refine Spec.pre (Spec.assume fun hattempted => ?_) fun _ hm => And.comm.mp hm
  refine Answers.weaken (hashOf_answers _) (fun a m hm => ⟨hm.1, ?_⟩) fun _ => id
  rw [hm.2, hattempted, hstretched, hdigest]
  rfl

/-- The PIN hash that is stored passes, unless a step fails. -/
theorem isMainPin_answers (hpair : Paired b m₀) (hsame : ∀ m, P m → SameVault m₀ m) :
    Answers F P (isMainPin b (m₀.element.slots .pinHash 0))
      (fun ok m => P m ∧ (ok = true ∨ ∃ x, F (.fault x))) P := by
  refine Spec.bind (pairUnlock_answers b fun m hm => (hsame m hm).paired hpair) fun _ => ?_
  refine Spec.bind (Spec.attempt_blamed (checkmacHard_answers fun m hm =>
    congrFun ((hsame m hm).slots .pinHash rfl) 0)) fun result => ?_
  cases result with
  | ok u => exact Spec.pure fun _ hm => ⟨hm, .inl rfl⟩
  | error e => exact Spec.pure fun _ hm => ⟨hm.2, .inr hm.1⟩

theorem getXorSeed_answers {k : Key} {m : Machine} (hm : Holds b k m) :
    Answers F (· = m) (getXorSeed b (m.element.slots .pinHash 0) m.securam.otpKey)
      (fun x m' => m' = m ∧ x = k.xored b) (· = m) := by
  refine Spec.bind (encryptedRead_answers b hm.paired _ .seed .pinHash _) fun buf => ?_
  refine Spec.pre (Spec.assume fun hbuf => ?_) fun _ hm => And.comm.mp hm
  have hread : XorSeed.decryptTagged (resize 33 buf) m.securam.otpKey = some (k.xored b) := by
    have hblocks : (chunks (Slot.size .seed)).map (readBlock b m .seed .pinHash
        (m.element.slots .pinHash 0)) = [chunk ((k.xored b).encryptTagged m.securam.otpKey) 0,
          chunk ((k.xored b).encryptTagged m.securam.otpKey) 1, m.element.slots .seed 2] := by
      rw [← hm.seed0, ← hm.seed1]
      show [readBlock b m .seed .pinHash _ 0, readBlock b m .seed .pinHash _ 1,
        readBlock b m .seed .pinHash _ 2] = _
      unfold readBlock
      simp only [if_true]
    rw [hbuf, hblocks]
    show XorSeed.decryptTagged (resize 33 (joinBlocks 72 _)) _ = _
    rw [join_chunks]
    exact decrypt_encrypt hm.usable
  rw [hread]
  exact Spec.pure fun _ h => ⟨h, rfl⟩

theorem getSeed_answers {k : Key} {m : Machine} (hm : Holds b k m) :
    Answers F (· = m) (getSeed b (m.element.slots .pinHash 0) (xorHashOf b k.pin)
      m.securam.otpKey) (fun seed m' => m' = m ∧ seed = k.seed) (· = m) := by
  refine Spec.bind (getXorSeed_answers hm) fun x => Spec.pure fun m' h => ⟨h.1, ?_⟩
  rw [h.2]
  exact seed_xor_cancel k.seed _

/-- The disk keys can be derived from what the vault holds. -/
theorem setupAesKeys_answers {k : Key} {m : Machine} (hm : Holds b k m)
    (hlogged : ∀ keys, P { m with securam := { m.securam with diskEncryptionKeys := keys } })
    (hsame : P m) :
    Answers F (· = m) (setupAesKeys b (m.element.slots .pinHash 0) (xorHashOf b k.pin))
      (fun _ => P) (· = m) := by
  have hintact : ∀ m', m' = m → m'.securam.intact = true := fun m' h => h ▸ hm.intact
  refine Spec.bind (readSecuram_answers _ hintact) fun keys => ?_
  refine Spec.onlyIf (fun _ => ?_) fun _ m' h => h.1 ▸ hsame
  refine Spec.pre (P := (· = m)) ?_ fun _ h => h.1
  refine Spec.bind (readSecuram_answers _ hintact) fun otpKey => ?_
  refine Spec.pre (P := fun m' => otpKey = m.securam.otpKey ∧ m' = m) (Spec.assume fun hotp => ?_)
    fun m' h => ⟨by rw [h.2, h.1], h.1⟩
  rw [hotp]
  refine Spec.bind (Q := fun _ m' => m' = m)
    ((getSeed_answers hm).weaken (fun _ _ h => h.1) fun _ => id) fun seed => ?_
  refine Spec.bind (Q := fun _ m' => m' = m) (Answers.weaken (encryptedRead_answers b hm.paired
    72 _ .pinHash _) (fun _ _ h => h.1) fun _ => id) fun entropy => ?_
  refine Spec.bind (Q := fun _ m' => m' = m)
    ((hashOf_answers _).weaken (fun _ _ h => h.1) fun _ => id) fun seedDigest => ?_
  exact withSecuram_answers _ fun m' h => ⟨hintact m' h, by rw [h]; exact hlogged _⟩

end Answers

end Security
