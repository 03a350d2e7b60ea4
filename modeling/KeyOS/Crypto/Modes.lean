import KeyOS.Crypto.Clocks

/-!
# The modes, however the data is split

What a client has received from its context is the mode of operation applied to all that it has
sent, and its tag is that of the whole text, as long as each offset fits its field of the message,
a counter context executes one call, only the last additional data ends within a block, and nothing
fails once the context has moved on.
-/

namespace Crypto

open BlockModes Exec Prog World

/-! ## 1. The message -/

theorem flag_lt (direction : Direction) : direction.flag.toNat < 2 := by
  cases direction <;> decide

theorem toMessage_arg2 (msg : AesExecute) : msg.toMessage.arg2.toNat =
    msg.offset.toNat % 2 ^ 23 * 2 ^ 9 + (msg.transferId.toNat * 2 + msg.direction.flag.toNat) := by
  have hid : (msg.transferId.toUInt32 <<< transferIdOffset).toNat = msg.transferId.toNat <<< 1 := by
    have hlt := msg.transferId.toNat_lt
    rw [UInt32.toNat_shiftLeft, UInt8.toNat_toUInt32]
    show msg.transferId.toNat <<< 1 % 2 ^ 32 = _
    rw [Nat.shiftLeft_eq]
    omega
  have hoffset : (msg.offset <<< offsetOffset).toNat = (msg.offset.toNat % 2 ^ 23) <<< 9 := by
    rw [UInt32.toNat_shiftLeft]
    show msg.offset.toNat <<< 9 % 2 ^ 32 = _
    rw [Nat.shiftLeft_eq, Nat.shiftLeft_eq]
    omega
  have hflag := flag_lt msg.direction
  have hlt := msg.transferId.toNat_lt
  show ((msg.offset <<< offsetOffset) ||| (msg.transferId.toUInt32 <<< transferIdOffset) |||
    msg.direction.flag).toNat = _
  rw [UInt32.toNat_or, UInt32.toNat_or, hid, hoffset, Nat.or_assoc,
    ← Nat.shiftLeft_add_eq_or_of_lt (i := 1) hflag, ← Nat.shiftLeft_add_eq_or_of_lt,
    Nat.shiftLeft_eq, Nat.shiftLeft_eq]
  rw [Nat.shiftLeft_eq]
  omega

/-- Of the offset only the low 23 bits arrive. -/
theorem received_eq (msg : AesExecute) : received msg =
    { msg with offset := UInt32.ofNat (msg.offset.toNat % 2 ^ 23) } := by
  have harg := toMessage_arg2 msg
  have hflag := flag_lt msg.direction
  have hlt := msg.transferId.toNat_lt
  have hid : (msg.toMessage.arg2 >>> transferIdOffset).toUInt8 = msg.transferId := by
    refine UInt8.toNat_inj.1 ?_
    rw [UInt32.toNat_toUInt8, UInt32.toNat_shiftRight]
    show msg.toMessage.arg2.toNat >>> 1 % 2 ^ 8 = _
    rw [harg, Nat.shiftRight_eq_div_pow]
    omega
  have hoffset : msg.toMessage.arg2 >>> offsetOffset =
      UInt32.ofNat (msg.offset.toNat % 2 ^ 23) := by
    refine UInt32.toNat_inj.1 ?_
    rw [UInt32.toNat_shiftRight, UInt32.toNat_ofNat']
    show msg.toMessage.arg2.toNat >>> 9 = _
    rw [harg, Nat.shiftRight_eq_div_pow]
    omega
  have hdirection : (if msg.toMessage.arg2 &&& decryptFlag ≠ 0 then Direction.decrypt
      else .encrypt) = msg.direction := by
    have hand : msg.toMessage.arg2 &&& decryptFlag = msg.direction.flag := by
      refine UInt32.toNat_inj.1 ?_
      rw [UInt32.toNat_and]
      show msg.toMessage.arg2.toNat &&& 1 = _
      rw [harg, Nat.and_one_is_mod]
      omega
    rw [hand]
    cases msg.direction <;> rfl
  unfold received AesExecute.ofMessage
  rw [hid, hoffset, hdirection]
  rfl

theorem received_small {msg : AesExecute} (h : msg.offset.toNat < 2 ^ 23) : received msg = msg := by
  rw [received_eq, Nat.mod_eq_of_lt h, UInt32.ofNat_toNat]

/-! ## 2. The whole text -/

def AesMode.kind : AesMode → ModeKind
  | .ecb => .ecb
  | .cbc _ => .cbc
  | .ctr _ => .ctr
  | .gcm _ => .gcm

/-- The first counter block of GCM. -/
def firstCounter (iv : ByteArr 12) : Bytes := iv.1 ++ [0, 0, 0, 1]

/-- What the mode starts from. -/
def AesMode.chain : AesMode → Chain
  | .ecb => ⟨List.replicate 16 0, List.replicate 16 0⟩
  | .cbc iv => ⟨iv.1, List.replicate 16 0⟩
  | .ctr iv => ⟨iv.1, List.replicate 16 0⟩
  | .gcm iv => ⟨increment 4 (firstCounter iv), List.replicate 16 0⟩

namespace Session

def input (s : Session) : Bytes := s.calls.flatMap (·.input)

def output (s : Session) : Bytes := s.calls.flatMap (·.output)

def aad (s : Session) : Bytes := s.aads.flatten

/-- All the calls encrypt, or all decrypt. -/
def Directed (s : Session) (direction : Direction) : Prop :=
  ∀ call ∈ s.calls, call.direction = direction

def ciphertext (s : Session) (direction : Direction) : Bytes :=
  if direction = .encrypt then s.output else s.input

/-- The mode applied to all the input at once. -/
def whole (P : Platform) (s : Session) (direction : Direction) : Bytes × Chain :=
  ((P.cipher s.key).mode (direction = .encrypt) s.mode.kind).process 16 s.mode.chain s.input

/-- What the client has received. -/
structure Exact (P : Platform) (s : Session) : Prop where
  output : ∀ direction, s.Directed direction → s.output = (s.whole P direction).1
  tag : ∀ iv, s.mode = .gcm iv → s.aad.length < 2 ^ 29 → s.input.length < 2 ^ 29 →
    ∀ direction, s.Directed direction → ∀ tag ∈ s.tags,
      tag = (P.cipher s.key).tag (firstCounter iv) s.aad (s.ciphertext direction)

end Session

/-! ## 3. The context -/

def AesContextMode.kind : AesContextMode → ModeKind
  | .ecb => .ecb
  | .cbc _ => .cbc
  | .gcm .. => .gcm
  | .ctr _ => .ctr

/-- The block that the mode chains. -/
def AesContextMode.register : AesContextMode → Bytes
  | .ecb => List.replicate 16 0
  | .cbc iv => iv.toBytes
  | .gcm _ _ iv count _ => (Iv.fromGcmParams iv count).toBytes
  | .ctr counter => counter.toBytes

def AesContextMode.hash : AesContextMode → Bytes
  | .gcm _ _ _ _ ghash => ghash.toBytes
  | _ => List.replicate 16 0

/-- A context is where the whole text has taken it. -/
structure Tracked (P : Platform) (s : Session) (context : AesContext) : Prop where
  kind : context.mode.kind = s.mode.kind
  aligned : context.finalized = false → 16 ∣ s.input.length
  register : context.finalized = false → (s.mode.kind = .ctr → s.calls = []) →
    ∀ direction, s.Directed direction → context.mode.register = (s.whole P direction).2.iv
  gcm : ∀ (g : GcmState) iv, context.mode = g.mode → s.mode = .gcm iv →
    (Iv.fromGcmParams g.iv 1).toBytes = firstCounter iv ∧
      g.aadlen = UInt32.ofNat s.aad.length ∧ g.datalen = UInt32.ofNat s.input.length ∧
      (s.input.length < 2 ^ 32 → ∀ direction, s.Directed direction →
        g.ghash.toBytes = (P.cipher s.key).hashText
          ((P.cipher s.key).hashText (List.replicate 16 0) s.aad) (s.ciphertext direction))
  sealedBy : s.tags ≠ [] → context.finalized = true

section Call

variable {P : Platform} {key data : Bytes} {mode : AesContextMode} {direction : Direction}

theorem init_eq (encrypting : Bool) (key : Bytes) (mode : AesContextMode) :
    (Aes.init encrypting (runMode key mode)).kind = mode.kind ∧
      (Aes.init encrypting (runMode key mode)).key = key ∧
      (Aes.init encrypting (runMode key mode)).encrypting = encrypting ∧
      (Aes.init encrypting (runMode key mode)).chain = ⟨mode.register, mode.hash⟩ := by
  cases mode with
  | ecb => exact ⟨rfl, rfl, rfl, rfl⟩
  | cbc iv => exact ⟨rfl, rfl, rfl, rfl⟩
  | gcm aadlen datalen iv ctr ghash => exact ⟨rfl, rfl, rfl, rfl⟩
  | ctr counter => exact ⟨rfl, rfl, rfl, rfl⟩

theorem length_register (mode : AesContextMode) : mode.register.length = 16 := by
  cases mode with
  | ecb => rfl
  | cbc iv => exact Words.length_toBytes _
  | gcm aadlen datalen iv ctr ghash => exact Words.length_toBytes _
  | ctr counter => exact Words.length_toBytes _

/-- A run computes the mode on its data. -/
theorem ranText_process (h : mode.isStream = false → data.length % 16 = 0) :
    (ranText P direction key mode data).1 =
        (((P.cipher key).mode (direction = .encrypt) mode.kind).process 16
          ⟨mode.register, mode.hash⟩ data).1 ∧
      (ranText P direction key mode data).2.chain =
        (((P.cipher key).mode (direction = .encrypt) mode.kind).process 16
          ⟨mode.register, mode.hash⟩ data).2 := by
  obtain ⟨hkind, hkey, hencrypting, hchain⟩ := init_eq (direction = .encrypt) key mode
  have hrun := Aes.feedText_process P.cipher
    ((Aes.init (direction = .encrypt) (runMode key mode)).setupForDma data.length)
    (Aes.init_good _ _) rfl (runMode_fits h)
  unfold Aes.setupForDma at hrun
  dsimp only at hrun
  rw [hkind, hkey, hencrypting, hchain] at hrun
  unfold ranText Aes.setupForDma
  rw [hkind, hkey, hencrypting, hchain]
  exact hrun

/-- The context after a run. -/
def AesContext.ran (direction : Direction) (len : UInt32) (data out hash : Bytes)
    (context : AesContext) : AesContext :=
  AesContext.afterRun direction len out hash
    (if len.toNat % 16 = 0 then context.beforeRun direction data
      else { context.beforeRun direction data with finalized := true })

theorem ran_kind (direction : Direction) (len : UInt32) (data out hash : Bytes)
    (context : AesContext) :
    (context.ran direction len data out hash).mode.kind = context.mode.kind := by
  obtain ⟨keySlot, finalized, mode⟩ := context
  unfold AesContext.ran AesContext.beforeRun
  cases mode with
  | cbc iv => cases direction <;> split <;> rfl
  | ecb => split <;> rfl
  | gcm aadlen datalen iv ctr ghash => split <;> rfl
  | ctr counter => split <;> rfl

/-- A run that ends within a block seals the context. -/
theorem ran_aligned {len : UInt32} {out hash : Bytes} {context : AesContext}
    (h : (context.ran direction len data out hash).finalized = false) : len.toNat % 16 = 0 := by
  refine Decidable.byContradiction fun hrest => ?_
  obtain ⟨keySlot, finalized, mode⟩ := context
  unfold AesContext.ran AesContext.afterRun AesContext.beforeRun at h
  rw [if_neg hrest] at h
  cases mode with
  | cbc iv => cases direction <;> cases h
  | ecb => cases h
  | gcm aadlen datalen iv ctr ghash => cases h
  | ctr counter => cases h

theorem ran_gcm {len : UInt32} {out hash : Bytes} {context : AesContext} {g : GcmState}
    (h : context.mode = g.mode) :
    (context.ran direction len data out hash).mode =
      { g with
        datalen := g.datalen + len
        ctr := g.ctr + len / 16
        ghash := Words.ofBytes hash : GcmState }.mode := by
  obtain ⟨keySlot, finalized, mode⟩ := context
  obtain rfl : mode = g.mode := h
  unfold AesContext.ran AesContext.beforeRun
  split <;> rfl

/-- The register that the next run starts from. -/
theorem ran_register {len : UInt32} {hash : Bytes} {context : AesContext} {c : BlockCipher}
    (hlen : data.length = len.toNat) (haligned : len.toNat % 16 = 0) (hpos : len ≠ 0)
    (hctr : context.mode.kind ≠ .ctr) :
    (context.ran direction len data
      ((c.mode (direction = .encrypt) context.mode.kind).process 16
        ⟨context.mode.register, context.mode.hash⟩ data).1 hash).mode.register =
      ((c.mode (direction = .encrypt) context.mode.kind).process 16
        ⟨context.mode.register, context.mode.hash⟩ data).2.iv := by
  have hdvd : 16 ∣ data.length := Nat.dvd_of_mod_eq_zero (hlen ▸ haligned)
  have hnil : data ≠ [] := by
    rintro rfl
    exact hpos (UInt32.toNat_inj.1 hlen.symm)
  have hlong : 16 ≤ data.length := Nat.le_of_dvd (List.length_pos_iff.2 hnil) hdvd
  have hlast : ∀ text : Bytes, 16 ≤ text.length → (lastBlock text).length = 16 := by
    intro text hle
    rw [lastBlock, List.length_drop]
    omega
  have hiv : context.mode.register.length = 16 := length_register context.mode
  obtain ⟨keySlot, finalized, mode⟩ := context
  unfold AesContext.ran
  rw [if_pos haligned]
  cases mode with
  | ecb =>
    rw [AesContextMode.kind, ecb_chain]
    rfl
  | cbc iv =>
    have hout := (process_good c (direction = .encrypt) .cbc
      (s := ⟨iv.toBytes, List.replicate 16 0⟩) hiv (.inl hdvd)).1
    have hchain := @cbc_iv c (direction = .encrypt : Bool)
      ⟨iv.toBytes, List.replicate 16 0⟩ _ hiv hdvd hnil
    refine Eq.trans ?_ hchain.symm
    cases direction with
    | encrypt => exact Words.toBytes_ofBytes (hlast _ (hout.symm ▸ hlong))
    | decrypt => exact Words.toBytes_ofBytes (hlast _ hlong)
  | gcm aadlen datalen iv ctr ghash =>
    have hcount : UInt32.ofNat (data.length / 16) = len / 16 := by
      refine UInt32.toNat_inj.1 ?_
      have hlt : data.length / 16 < UInt32.size := by
        have hlt := len.toNat_lt
        show _ < 2 ^ 32
        omega
      rw [UInt32.toNat_ofNat_of_lt' hlt, UInt32.toNat_div, hlen]
      rfl
    refine Eq.trans ?_ (gcm_iv hdvd).symm
    show (Iv.fromGcmParams iv (ctr + len / 16)).toBytes =
      (increment 4)^[data.length / 16] (Iv.fromGcmParams iv ctr).toBytes
    rw [iterate_fromGcmParams, hcount]
  | ctr counter => exact absurd rfl hctr

end Call

/-! ## 4. What each request makes of it -/

theorem gcm_of_kind {mode : AesContextMode} (h : mode.kind = .gcm) :
    ∃ g : GcmState, mode = g.mode := by
  cases mode with
  | gcm aadlen datalen iv ctr ghash => exact ⟨⟨aadlen, datalen, iv, ctr, ghash⟩, rfl⟩
  | ecb => cases h
  | cbc iv => cases h
  | ctr counter => cases h

theorem GcmState.mode_inj {g g' : GcmState} (h : g.mode = g'.mode) : g = g' := by
  obtain ⟨aadlen, datalen, iv, ctr, ghash⟩ := g
  obtain ⟨aadlen', datalen', iv', ctr', ghash'⟩ := g'
  simp only [GcmState.mode, AesContextMode.gcm.injEq] at h
  obtain ⟨rfl, rfl, rfl, rfl, rfl⟩ := h
  rfl

section Requests

variable {P : Platform} {s : Session} {context : AesContext} {direction : Direction}

/-- One more call. -/
def Session.called (s : Session) (call : Call) : Session := { s with calls := s.calls ++ [call] }

theorem Session.input_called (s : Session) (call : Call) :
    (s.called call).input = s.input ++ call.input := by
  show (s.calls ++ [call]).flatMap _ = _
  rw [List.flatMap_append, List.flatMap_singleton]
  rfl

theorem Session.output_called (s : Session) (call : Call) :
    (s.called call).output = s.output ++ call.output := by
  show (s.calls ++ [call]).flatMap _ = _
  rw [List.flatMap_append, List.flatMap_singleton]
  rfl

theorem Session.Directed.called {call : Call} (h : (s.called call).Directed direction) :
    call.direction = direction ∧ s.Directed direction :=
  ⟨h call (List.mem_append_right _ List.mem_cons_self),
    fun other hother => h other (List.mem_append_left _ hother)⟩

theorem length_chain (mode : AesMode) : mode.chain.iv.length = 16 := by
  cases mode with
  | ecb => rfl
  | cbc iv => exact iv.2
  | ctr iv => exact iv.2
  | gcm iv =>
    refine length_increment ?_
    show (iv.1 ++ [0, 0, 0, 1]).length = 16
    rw [List.length_append, iv.2]
    rfl

/-- The text that has gone through so far is of whole blocks. -/
theorem Session.whole_good (h : 16 ∣ s.input.length) :
    (s.whole P direction).1.length = s.input.length ∧ (s.whole P direction).2.iv.length = 16 :=
  process_good _ _ _ (length_chain s.mode) (.inl h)

theorem Session.whole_called (h : 16 ∣ s.input.length) (call : Call) :
    (s.called call).whole P direction =
      ((s.whole P direction).1 ++
        (((P.cipher s.key).mode (direction = .encrypt) s.mode.kind).process 16
          (s.whole P direction).2 call.input).1,
        (((P.cipher s.key).mode (direction = .encrypt) s.mode.kind).process 16
          (s.whole P direction).2 call.input).2) := by
  unfold Session.whole
  rw [Session.input_called]
  exact Mode.process_append _ (by decide) _ _ h

theorem Tracked.untagged (h : Tracked P s context) (hlive : context.finalized = false) :
    s.tags = [] := by
  refine Decidable.byContradiction fun hne => ?_
  rw [h.sealedBy hne] at hlive
  cases hlive

/-- What a run makes of a text that starts where the whole text has got to. -/
structure RunOf (P : Platform) (s : Session) (context : AesContext) (call : Call) (hash : Bytes) :
    Prop where
  output : call.output = (((P.cipher s.key).mode (call.direction = .encrypt)
    context.mode.kind).process 16 ⟨context.mode.register, context.mode.hash⟩ call.input).1
  hash : hash = (((P.cipher s.key).mode (call.direction = .encrypt)
    context.mode.kind).process 16 ⟨context.mode.register, context.mode.hash⟩ call.input).2.hash

variable {call : Call} {hash : Bytes} {len : UInt32}

theorem Tracked.continues (h : Tracked P s context) (hlive : context.finalized = false)
    (hctr : s.mode.kind = .ctr → s.calls = []) (hrun : RunOf P s context call hash)
    (hdirected : s.Directed call.direction) :
    call.output = (((P.cipher s.key).mode (call.direction = .encrypt) s.mode.kind).process 16
        (s.whole P call.direction).2 call.input).1 ∧
      (((P.cipher s.key).mode (call.direction = .encrypt) s.mode.kind).process 16
          ⟨context.mode.register, context.mode.hash⟩ call.input).2.iv =
        (((P.cipher s.key).mode (call.direction = .encrypt) s.mode.kind).process 16
          (s.whole P call.direction).2 call.input).2.iv := by
  have hregister := h.register hlive hctr call.direction hdirected
  obtain ⟨hout, hiv⟩ := @process_iv (P.cipher s.key) _ _
    ⟨context.mode.register, context.mode.hash⟩ (s.whole P call.direction).2 hregister call.input
  exact ⟨by rw [hrun.output, h.kind, hout], hiv⟩

theorem Session.Exact.called (hexact : s.Exact P) (h : Tracked P s context)
    (hlive : context.finalized = false) (hctr : s.mode.kind = .ctr → s.calls = [])
    (hrun : RunOf P s context call hash) : (s.called call).Exact P := by
  refine ⟨fun d hd => ?_, fun iv _ _ _ d _ tag htag => ?_⟩
  · obtain ⟨rfl, hdirected⟩ := hd.called
    rw [Session.output_called, Session.whole_called (h.aligned hlive), hexact.output _ hdirected,
      (h.continues hlive hctr hrun hdirected).1]
  · have hnone : (s.called call).tags = [] := h.untagged hlive
    rw [hnone] at htag
    cases htag

theorem Session.Exact.length_ciphertext (hexact : s.Exact P) (h : 16 ∣ s.input.length)
    (hdirected : s.Directed direction) : (s.ciphertext direction).length = s.input.length := by
  unfold Session.ciphertext
  split
  · rw [hexact.output direction hdirected, (Session.whole_good h).1]
  · rfl

/-- A context after a run. -/
theorem Tracked.called (h : Tracked P s context) (hexact : s.Exact P)
    (hlive : context.finalized = false) (hctr : s.mode.kind = .ctr → s.calls = [])
    (hlen : call.input.length = len.toNat) (hpos : len ≠ 0)
    (hrun : RunOf P s context call hash) :
    Tracked P (s.called call) (context.ran call.direction len call.input call.output hash) := by
  have haligned := h.aligned hlive
  refine ⟨(ran_kind _ _ _ _ _ _).trans h.kind, fun hlive' => ?_, fun hlive' hctr' d hd => ?_,
    fun g' iv hmode hiv => ?_, fun hne => absurd (h.untagged hlive) hne⟩
  · rw [Session.input_called, List.length_append, hlen]
    exact Nat.dvd_add haligned (Nat.dvd_of_mod_eq_zero (ran_aligned hlive'))
  · obtain ⟨rfl, hdirected⟩ := hd.called
    have hnot : context.mode.kind ≠ .ctr := fun heq => by
      have hnil : s.calls ++ [call] = [] := hctr' (h.kind.symm.trans heq)
      exact absurd hnil (List.append_ne_nil_of_right_ne_nil _ (List.cons_ne_nil _ _))
    rw [Session.whole_called haligned, hrun.output,
      ran_register hlen (ran_aligned hlive') hpos hnot, h.kind]
    exact (h.continues hlive hctr hrun hdirected).2
  · have hmodeIs : s.mode = .gcm iv := hiv
    have hkind : context.mode.kind = .gcm := by
      rw [h.kind, hmodeIs]
      rfl
    obtain ⟨g, hg⟩ := gcm_of_kind hkind
    obtain ⟨hfirst, haadlen, hdatalen, hghash⟩ := h.gcm g iv hg hiv
    rw [ran_gcm hg] at hmode
    obtain rfl : _ = g' := GcmState.mode_inj hmode
    refine ⟨hfirst, haadlen, ?_, fun hsmall d hd => ?_⟩
    · show g.datalen + len = _
      rw [Session.input_called, List.length_append, hlen, hdatalen, UInt32.ofNat_add,
        UInt32.ofNat_toNat]
    · obtain ⟨rfl, hdirected⟩ := hd.called
      have hold : s.input.length < 2 ^ 32 := by
        rw [Session.input_called, List.length_append] at hsmall
        omega
      have hmore : (s.called call).ciphertext call.direction =
          s.ciphertext call.direction ++
            if (call.direction = .encrypt : Bool) then call.output else call.input := by
        unfold Session.ciphertext
        rw [Session.output_called, Session.input_called]
        cases call.direction <;> rfl
      have hdvd : 16 ∣ (s.ciphertext call.direction).length :=
        hexact.length_ciphertext haligned hdirected ▸ haligned
      have hregister : context.mode.register.length = 16 := length_register _
      have hhash : hash.length = 16 := by
        rw [hrun.hash, hkind, gcm_hash hregister, hg]
        exact length_hashText (Words.length_toBytes _) _
      show (Words.ofBytes hash).toBytes = _
      rw [Words.toBytes_ofBytes hhash, hmore, hashText_append _ hdvd]
      show hash = (P.cipher s.key).hashText ((P.cipher s.key).hashText ((P.cipher s.key).hashText
        (List.replicate 16 0) s.aad) (s.ciphertext call.direction)) _
      rw [← hghash hold _ hdirected, hrun.hash, hkind, gcm_hash hregister]
      have hout := hrun.output
      rw [hkind] at hout
      rw [← hout, hg]
      rfl

/-! ### Additional data -/

def Session.withAad (s : Session) (aad : Bytes) : Session := { s with aads := s.aads ++ [aad] }

theorem Session.aad_withAad (s : Session) (aad : Bytes) : (s.withAad aad).aad = s.aad ++ aad := by
  show (s.aads ++ [aad]).flatten = _
  rw [List.flatten_append, List.flatten_cons, List.flatten_nil, List.append_nil]
  rfl

theorem Session.Exact.withAad (hexact : s.Exact P) (htags : s.tags = []) (aad : Bytes) :
    (s.withAad aad).Exact P := by
  refine ⟨hexact.output, fun _ _ _ _ _ _ tag htag => ?_⟩
  have hnone : (s.withAad aad).tags = [] := htags
  rw [hnone] at htag
  cases htag

theorem Tracked.withAad (h : Tracked P s context) (hexact : s.Exact P)
    (hlive : context.finalized = false) {g : GcmState} (hg : context.mode = g.mode)
    (hnodata : g.datalen = 0) {aad : Bytes} (hpieces : aad ≠ [] → 16 ∣ s.aad.length) :
    Tracked P (s.withAad aad)
      { context with
        mode := { g with
          aadlen := g.aadlen + UInt32.ofNat aad.length
          ghash := g.absorbed P s.key aad : GcmState }.mode } := by
  have hkind : context.mode.kind = .gcm := by
    rw [hg]
    rfl
  refine ⟨hkind.symm.trans h.kind, h.aligned, fun hl hctr d hd => ?_, fun g' iv hmode hiv => ?_,
    h.sealedBy⟩
  · have hregister := h.register hl hctr d hd
    rw [hg] at hregister
    exact hregister
  · obtain ⟨hfirst, haadlen, hdatalen, hghash⟩ := h.gcm g iv hg hiv
    obtain rfl : _ = g' := GcmState.mode_inj hmode
    refine ⟨hfirst, ?_, hdatalen, fun hsmall d hd => ?_⟩
    · show g.aadlen + UInt32.ofNat aad.length = _
      rw [Session.aad_withAad, List.length_append, haadlen, UInt32.ofNat_add]
    · have hsmall : s.input.length < 2 ^ 32 := hsmall
      have hempty : s.input.length = 0 := by
        have hzero := congrArg UInt32.toNat (hdatalen.symm.trans hnodata)
        rw [UInt32.toNat_ofNat_of_lt' hsmall] at hzero
        exact hzero
      have hcipher : s.ciphertext d = [] := by
        refine List.eq_nil_of_length_eq_zero ?_
        rw [hexact.length_ciphertext (h.aligned hlive) hd, hempty]
      have hold := hghash hsmall d hd
      rw [hcipher, hashText_nil] at hold
      have hnew : (P.cipher s.key).hashText (List.replicate 16 0) (s.aad ++ aad) =
          (P.cipher s.key).hashText g.ghash.toBytes aad := by
        rw [hold]
        by_cases haad : aad = []
        · rw [haad, List.append_nil, hashText_nil]
        · exact hashText_append _ (hpieces haad)
      show (Words.ofBytes _).toBytes = (P.cipher s.key).hashText
        ((P.cipher s.key).hashText (List.replicate 16 0) (s.withAad aad).aad) (s.ciphertext d)
      rw [hcipher, hashText_nil, Session.aad_withAad, hnew,
        Words.toBytes_ofBytes (length_hashText (Words.length_toBytes _) _)]

/-! ### The tag -/

def Session.tagged (s : Session) (tag : Bytes) : Session := { s with tags := s.tags ++ [tag] }

/-- The lengths in bits fit the lower half of their fields. -/
theorem tagLengths_eq {aad text : Nat} (haad : aad < 2 ^ 29) (htext : text < 2 ^ 29) :
    tagLengths (UInt32.ofNat aad) (UInt32.ofNat text) = lengthBlock aad text := by
  have hbits : ∀ n, n < 2 ^ 29 →
      List.replicate 4 0 ++ ByteStream.be 4 (UInt32.ofNat n * 8).toNat = ByteStream.be 8 (8 * n) := by
    intro n hn
    have hmul : (UInt32.ofNat n * 8).toNat = 8 * n := by
      rw [UInt32.toNat_mul, UInt32.toNat_ofNat_of_lt' (by show n < 2 ^ 32; omega)]
      show n * 8 % 2 ^ 32 = _
      omega
    rw [hmul]
    exact (ByteStream.be_short 4 (by omega)).symm
  rw [tagLengths, lengthBlock, ← hbits aad haad, ← hbits text htext, List.append_assoc,
    List.append_assoc]

theorem Tracked.tag_eq (h : Tracked P s context) {g : GcmState} {iv : ByteArr 12}
    (hg : context.mode = g.mode) (hiv : s.mode = .gcm iv) (haad : s.aad.length < 2 ^ 29)
    (htext : s.input.length < 2 ^ 29) (hciphertext : (s.ciphertext direction).length = s.input.length)
    (hdirected : s.Directed direction) :
    g.tag P s.key = (P.cipher s.key).tag (firstCounter iv) s.aad (s.ciphertext direction) := by
  obtain ⟨hfirst, haadlen, hdatalen, hghash⟩ := h.gcm g iv hg hiv
  have hblock : (lengthBlock s.aad.length s.input.length).length = 16 := by
    rw [lengthBlock, List.length_append, ByteStream.length_be, ByteStream.length_be]
  have hnil : lengthBlock s.aad.length s.input.length ≠ [] := fun heq => by
    rw [heq] at hblock
    cases hblock
  rw [GcmState.tag, GcmState.absorbed, Words.toBytes_ofBytes
    (length_hashText (Words.length_toBytes _) _), hfirst, haadlen, hdatalen,
    tagLengths_eq haad htext, hghash (by omega) direction hdirected,
    hashText_short _ hnil (Nat.le_of_eq hblock), BlockCipher.tag, hciphertext]

/-- A tag seals its context. -/
theorem Tracked.tagged (h : Tracked P s context) (tag : Bytes) :
    Tracked P (s.tagged tag) { context with finalized := true } :=
  ⟨h.kind, nofun, nofun, h.gcm, fun _ => rfl⟩

theorem Session.Exact.tagged (hexact : s.Exact P) (h : Tracked P s context) {g : GcmState}
    (hg : context.mode = g.mode) : (s.tagged (g.tag P s.key)).Exact P := by
  refine ⟨hexact.output, fun iv hiv haad htext d hd tag htag => ?_⟩
  have hiv : s.mode = .gcm iv := hiv
  have hlength : (s.ciphertext d).length = s.input.length := by
    unfold Session.ciphertext
    split
    · rw [hexact.output d hd, Session.whole, hiv]
      exact (process_good _ _ .gcm (length_chain (.gcm iv)) (.inr (.inr rfl))).1
    · rfl
  rcases List.mem_append.1 htag with hold | hnew
  · exact hexact.tag iv hiv haad htext d hd tag hold
  · rw [List.mem_singleton.1 hnew]
    exact h.tag_eq hg hiv haad htext hlength hd

/-! ### A context that has just been set up -/

theorem fromGcmParams_start (iv : ByteArr 12) :
    (Iv.fromGcmParams ⟨wordAt iv.1 0, wordAt iv.1 1, wordAt iv.1 2⟩ 1).toBytes =
      firstCounter iv := by
  obtain ⟨bytes, hlen⟩ := iv
  have htake : ∀ n, bytes.drop n = (bytes.drop n).take 4 ++ bytes.drop (n + 4) := fun n => by
    rw [← List.drop_drop, List.take_append_drop]
  have hlast : bytes.drop 12 = [] := List.drop_eq_nil_of_le (Nat.le_of_eq hlen)
  have h0 := htake 0
  have h4 := htake 4
  have h8 := htake 8
  rw [hlast, List.append_nil] at h8
  have hone : wordBytes (toBe 1) = [0, 0, 0, 1] := by decide
  simp only [Words.toBytes, Iv.fromGcmParams, firstCounter]
  rw [wordBytes_wordAt (by omega), wordBytes_wordAt (by omega), wordBytes_wordAt (by omega), hone]
  congr 1
  rw [List.append_assoc, ← h8, ← h4, ← h0]
  rfl

theorem start_register (mode : AesMode) : mode.start.register = mode.chain.iv := by
  cases mode with
  | ecb => rfl
  | cbc iv => exact Words.toBytes_ofBytes iv.2
  | ctr iv => exact Words.toBytes_ofBytes iv.2
  | gcm iv =>
    show (Iv.fromGcmParams ⟨wordAt iv.1 0, wordAt iv.1 1, wordAt iv.1 2⟩ (1 + 1)).toBytes =
      increment 4 (firstCounter iv)
    rw [← increment_fromGcmParams, fromGcmParams_start]

def Session.start (key : Bytes) (mode : AesMode) : Session := ⟨key, mode, [], [], []⟩

theorem Session.whole_start (key : Bytes) (mode : AesMode) :
    (Session.start key mode).whole P direction = ([], mode.chain) :=
  Mode.process_nil _ _

theorem Session.Exact.start (key : Bytes) (mode : AesMode) : (Session.start key mode).Exact P := by
  refine ⟨fun d _ => ?_, fun _ _ _ _ _ _ _ htag => nomatch htag⟩
  rw [whole_start]
  rfl

theorem Tracked.start (key : Bytes) (mode : AesMode) (slot : Fin 32) :
    Tracked P (Session.start key mode) ⟨slot, false, mode.start⟩ := by
  refine ⟨?_, fun _ => Nat.dvd_zero 16, fun _ _ d _ => ?_, fun g iv hmode hiv => ?_,
    fun hne => absurd rfl hne⟩
  · cases mode <;> rfl
  · rw [Session.whole_start]
    exact start_register mode
  · have hiv : mode = .gcm iv := hiv
    subst hiv
    obtain rfl : _ = g := GcmState.mode_inj (g := ⟨0, 0, ⟨wordAt iv.1 0, wordAt iv.1 1,
      wordAt iv.1 2⟩, 2, Words.zero⟩) hmode
    refine ⟨fromGcmParams_start iv, rfl, rfl, fun _ d _ => ?_⟩
    have hcipher : (Session.start key (.gcm iv)).ciphertext d = [] := by
      unfold Session.ciphertext
      split <;> rfl
    show Words.zero.toBytes = (P.cipher key).hashText ((P.cipher key).hashText
      (List.replicate 16 0) []) _
    rw [hcipher, hashText_nil, hashText_nil]
    decide

end Requests

/-! ## 5. Calls that fail -/

/-- Nothing outside the part that the call names has changed. -/
structure Outside (buf lent : Bytes) (msg : AesExecute) : Prop where
  length : lent.length = buf.length
  before : lent.take msg.offset.toNat = buf.take msg.offset.toNat
  after : lent.drop (msg.offset.toNat + msg.len.toNat) =
    buf.drop (msg.offset.toNat + msg.len.toNat)

section Failing

variable {P : Platform} {fates : Fates} {m₀ m : Machine} {pid : Pid} {id : UInt8} {v : View}
  {msg : AesExecute} {context : AesContext}

theorem Outside.refl (buf : Bytes) (msg : AesExecute) : Outside buf buf msg := ⟨rfl, rfl, rfl⟩

theorem Outside.patch {buf bytes : Bytes}
    (hwithin : msg.offset.toNat + msg.len.toNat ≤ buf.length) (hle : bytes.length ≤ msg.len.toNat) :
    Outside buf (patch buf msg.offset.toNat bytes) msg := by
  have hin : msg.offset.toNat + bytes.length ≤ buf.length := by omega
  have htake : (buf.take msg.offset.toNat).length = msg.offset.toNat := by
    rw [List.length_take]
    omega
  refine ⟨length_patch hin, ?_, ?_⟩
  · rw [Crypto.patch, List.append_assoc, List.take_left' htake]
  · have hsplit : msg.offset.toNat + msg.len.toNat =
        msg.offset.toNat + bytes.length + (msg.len.toNat - bytes.length) := by omega
    rw [hsplit, ← List.drop_drop, drop_patch hin, List.drop_drop]

theorem idle_contexts (fates : Fates) (m : Machine) :
    (m.idle fates).aesContexts = m.aesContexts ∧ (m.idle fates).lent = m.lent := by
  obtain ⟨transferring, completed, hidle⟩ := m.idle_eq fates
  rw [hidle]
  exact ⟨rfl, rfl⟩

/-- A context that is as it was. -/
theorem During.unchanged (hm : During (m₀.idle fates) pid id v m)
    (hfound : m₀.aesContexts pid id = some v.context) : m.aesContexts = m₀.aesContexts := by
  funext pid' id'
  by_cases heq : pid' = pid ∧ id' = id
  · obtain ⟨rfl, rfl⟩ := heq
    rw [hm.context, hfound]
  · rw [hm.others pid' id' heq, (idle_contexts fates m₀).1]

theorem beforeRun_eq {direction : Direction} {data : Bytes}
    (h : ¬(context.mode.kind = .cbc ∧ direction = .decrypt)) :
    context.beforeRun direction data = context := by
  obtain ⟨keySlot, finalized, mode⟩ := context
  unfold AesContext.beforeRun
  cases mode with
  | cbc iv => exact if_neg fun hdirection => h ⟨rfl, hdirection⟩
  | ecb => rfl
  | gcm aadlen datalen iv ctr ghash => rfl
  | ctr counter => rfl

/-- A call that is refused leaves the contexts, unless CBC has decrypted. -/
theorem Refused.unchanged (h : Refused fates msg pid m₀ m) {sent : AesExecute}
    (hsent : ∀ context, Checked m₀ msg pid context → msg = sent)
    (hcbc : ∀ context, Checked m₀ msg pid context → context.mode.kind = .cbc →
      msg.direction = .decrypt → fates.enable = none ∧ fates.Calm) :
    m.aesContexts = m₀.aesContexts ∧ Outside m₀.lent m.lent sent := by
  cases h with
  | checked heq =>
    rcases heq with rfl | rfl
    · exact ⟨rfl, Outside.refl _ _⟩
    · obtain ⟨hcontexts, hlent⟩ := idle_contexts fates m₀
      rw [hlent]
      exact ⟨hcontexts, Outside.refl _ _⟩
  | rolledOver context hm hchecked =>
    refine ⟨hm.unchanged hchecked.found, ?_⟩
    rw [hm.lent]
    exact Outside.refl _ _
  | unclocked hfails context hm hchecked =>
    have hnot : ¬(context.mode.kind = .cbc ∧ msg.direction = .decrypt) := fun ⟨hkind, hd⟩ => by
      rw [(hcbc context hchecked hkind hd).1] at hfails
      cases hfails
    have hlent := hm.lent
    rw [beforeRun_eq hnot] at hm
    refine ⟨hm.unchanged hchecked.found, ?_⟩
    rw [hlent]
    exact Outside.refl _ _
  | broken hfails context moved aes power hmoved hm hchecked =>
    have hnot : ¬(context.mode.kind = .cbc ∧ msg.direction = .decrypt) := fun ⟨hkind, hd⟩ =>
      hfails (hcbc context hchecked hkind hd).2
    have hlent := hm.lent
    rw [beforeRun_eq hnot] at hm
    refine ⟨hm.unchanged hchecked.found, ?_⟩
    rw [hlent, ← hsent context hchecked]
    exact Outside.patch hchecked.within hmoved

/-- So does a request about additional data or a tag, unless it has sealed a context. -/
theorem LeftBe.unchanged (h : LeftBe fates pid id m₀ m context)
    (hsealed : ∀ g : GcmState, context.mode = g.mode → context.finalized = false →
      fates.enable = none) :
    m.aesContexts = m₀.aesContexts := by
  obtain ⟨hfound, finalized, hfinalized, hm⟩ := h
  have hsame : finalized = context.finalized := by
    rcases hfinalized with hsame | ⟨rfl, hfails, g, hg⟩
    · exact hsame
    · cases hlive : context.finalized with
      | true => rfl
      | false =>
        rw [hsealed g hg hlive] at hfails
        cases hfails
  subst hsame
  exact hm.unchanged hfound

end Failing

/-! ## 6. Runs -/

namespace World

/-- Every client has received what it should, and its contexts are where they should be. -/
structure Faithful (P : Platform) (w : World) : Prop where
  exact : ∀ pid id s, w.sessions pid id = some s → s.Exact P
  tracked : w.crashed = false → ∀ pid id s context, w.sessions pid id = some s →
    w.machine.aesContexts pid id = some context → Tracked P s context

def Steady (P : Platform) (w : World) : Act → Prop
  | .aesExecute sender msg buf fates =>
    P.Fits (2 ^ 32 ≤ (received msg).offset.toNat + msg.len.toNat) ∧
      ∀ context, Checked (w.lend buf).machine (received msg) sender context →
        (msg.offset.toNat < 2 ^ 23 ∧ fates.disable = none ∧ context.mode.SumsFit P msg.len) ∧
        (context.mode.kind = .cbc → msg.direction = .decrypt →
          fates.enable = none ∧ fates.Calm) ∧
        (context.mode.kind = .ctr → context.mode.rollsOver msg.len = false →
          ∀ s, w.sessions sender msg.transferId = some s → s.calls = [])
  | .aesAad sender id aad fates =>
    ∀ context (g : GcmState), w.machine.aesContexts sender id = some context →
      context.mode = g.mode → context.finalized = false → g.datalen = 0 → fates.enable = none →
        (fates.disable = none ∧ P.Fits (2 ^ 32 ≤ g.aadlen.toNat + aad.length)) ∧
        ∀ s, w.sessions sender id = some s → aad ≠ [] → 16 ∣ s.aad.length
  | .aesGcmTag sender id fates =>
    ∀ context (g : GcmState), w.machine.aesContexts sender id = some context →
      context.mode = g.mode →
        (context.finalized = false → fates.enable = none) ∧
        (fates.enable = none → P.Fits (2 ^ 32 ≤ g.aadlen.toNat * 8) ∧
          P.Fits (2 ^ 32 ≤ g.datalen.toNat * 8))
  | _ => True

def SteadyRun (P : Platform) (w : World) : List Act → Prop
  | [] => True
  | act :: acts => Steady P w act ∧ SteadyRun P (w.step P act) acts

section Faithful

variable {P : Platform} {w v : World} {pid : Pid} {id : UInt8}

theorem Faithful.fewer (h : Faithful P w) (hlive : w.crashed = false)
    (hsessions : ∀ pid id s, v.sessions pid id = some s → w.sessions pid id = some s)
    (hcontexts : v.crashed = false → Fewer w.machine v.machine) : Faithful P v :=
  ⟨fun pid id s hs => h.exact pid id s (hsessions pid id s hs),
    fun hv pid id s context hs hc => h.tracked hlive pid id s context (hsessions pid id s hs)
      (hcontexts hv pid id context hc)⟩

/-- One context and its session are new. -/
theorem Faithful.edit (h : Faithful P w) (hlive : w.crashed = false)
    (hsessions : ∀ pid' id', ¬(pid' = pid ∧ id' = id) → v.sessions pid' id' = w.sessions pid' id')
    (hcontexts : ∀ pid' id', ¬(pid' = pid ∧ id' = id) →
      v.machine.aesContexts pid' id' = w.machine.aesContexts pid' id')
    (hnew : ∀ s, v.sessions pid id = some s → s.Exact P ∧
      ∀ context, v.machine.aesContexts pid id = some context → Tracked P s context) :
    Faithful P v := by
  refine ⟨fun pid' id' s hs => ?_, fun _ pid' id' s context hs hc => ?_⟩
  · by_cases heq : pid' = pid ∧ id' = id
    · obtain ⟨rfl, rfl⟩ := heq
      exact (hnew s hs).1
    · exact h.exact pid' id' s (hsessions pid' id' heq ▸ hs)
  · by_cases heq : pid' = pid ∧ id' = id
    · obtain ⟨rfl, rfl⟩ := heq
      exact (hnew s hs).2 context hc
    · exact h.tracked hlive pid' id' s context (hsessions pid' id' heq ▸ hs)
        (hcontexts pid' id' heq ▸ hc)

/-- Every context has a session, under the key of which its slot is read. -/
theorem Sound.session (hs : Sound P w) (hlive : w.crashed = false) {context : AesContext}
    (hfound : w.machine.aesContexts pid id = some context) :
    ∃ s, w.sessions pid id = some s ∧ w.machine.Readable context.keySlot s.key := by
  have hheld := hs.held hlive
  have hslot : w.machine.slotOf pid id = some context.keySlot := by
    rw [Machine.slotOf, hfound]
    rfl
  obtain ⟨key, hkey⟩ := hheld.hasKey hslot
  obtain ⟨s, hsession, rfl⟩ := Option.map_eq_some_iff.1 hkey
  exact ⟨s, hsession, hheld.readable hslot hkey⟩

theorem Sound.keyOf (hs : Sound P w) (hlive : w.crashed = false) (pid : Pid) (id : UInt8) :
    ∃ key, ∀ context, w.machine.aesContexts pid id = some context →
      w.machine.Readable context.keySlot key ∧
        ∃ s, w.sessions pid id = some s ∧ s.key = key := by
  cases hfound : w.machine.aesContexts pid id with
  | none => exact ⟨[], nofun⟩
  | some context =>
    obtain ⟨s, hsession, hreadable⟩ := hs.session hlive hfound
    refine ⟨s.key, ?_⟩
    rintro _ ⟨⟩
    exact ⟨hreadable, s, hsession, rfl⟩

theorem record_at {v : World} {f : Session → Session} :
    (v.record pid id f).sessions pid id = (v.sessions pid id).map f :=
  if_pos ⟨rfl, rfl⟩

theorem record_other {v : World} {f : Session → Session} {pid' : Pid} {id' : UInt8}
    (h : ¬(pid' = pid ∧ id' = id)) : (v.record pid id f).sessions pid' id' = v.sessions pid' id' :=
  if_neg h

/-- The view after a run, in terms of the context. -/
theorem executed_context {P : Platform} {msg : AesExecute} {key : Bytes} {v : View} :
    (View.executed P msg key v).context = v.context.ran msg.direction msg.len
      (part v.lent msg.offset.toNat msg.len.toNat)
      (ranText P msg.direction key v.context.mode (part v.lent msg.offset.toNat msg.len.toNat)).1
      (ranText P msg.direction key v.context.mode
        (part v.lent msg.offset.toNat msg.len.toNat)).2.chain.hash := rfl

/-- What a call has made of its session and its context. -/
theorem Faithful.ran (h : Faithful P w) (hlive : w.crashed = false) {msg : AesExecute} {buf : Bytes}
    {fates : Fates} {context : AesContext} {s : Session} {m : Machine} {used : Fin 32 → Bool}
    (hchecked : Checked (w.lend buf).machine msg pid context)
    (hsession : w.sessions pid msg.transferId = some s)
    (hctr : s.mode.kind = .ctr → s.calls = [])
    (hm : During ((w.lend buf).machine.idle fates) pid msg.transferId
      (View.executed P msg s.key ⟨context, buf, w.machine.aes, w.machine.power,
        w.machine.unclocked⟩) m) :
    Faithful P (World.record { w.lend buf with machine := m, used := used } pid msg.transferId
      fun session => session.called ⟨msg.direction, part buf msg.offset.toNat msg.len.toNat,
        part m.lent msg.offset.toNat msg.len.toNat⟩) ∧ Outside buf m.lent msg := by
  have hdata : (part buf msg.offset.toNat msg.len.toNat).length = msg.len.toNat :=
    length_part hchecked.within
  have hwhole : context.mode.isStream = false →
      (part buf msg.offset.toNat msg.len.toNat).length % 16 = 0 := fun hstream => by
    rw [hdata]
    exact hchecked.whole hstream
  have hout := @length_ranText P msg.direction s.key _ _ hwhole
  rw [hdata] at hout
  have hwithin := hchecked.within
  have hlent : m.lent = patch buf msg.offset.toNat (ranText P msg.direction s.key context.mode
      (part buf msg.offset.toNat msg.len.toNat)).1 := hm.lent
  have hread : part m.lent msg.offset.toNat msg.len.toNat = (ranText P msg.direction s.key
      context.mode (part buf msg.offset.toNat msg.len.toNat)).1 := by
    have hpart := @part_patch buf (ranText P
      msg.direction s.key context.mode (part buf msg.offset.toNat msg.len.toNat)).1 msg.offset.toNat
      (hout.symm ▸ hwithin)
    rw [hout] at hpart
    rw [hlent, hpart]
  refine ⟨?_, hlent ▸ Outside.patch hwithin (Nat.le_of_eq hout)⟩
  rw [hread]
  have hcontexts := (idle_contexts fates (w.lend buf).machine).1
  refine h.edit hlive (fun _ _ => record_other) (fun pid' id' hne => ?_) fun s' hs' => ?_
  · exact (hm.others pid' id' hne).trans (congrFun (congrFun hcontexts pid') id')
  · rw [record_at] at hs'
    obtain ⟨s₀, hs₀, rfl⟩ := Option.map_eq_some_iff.1 hs'
    obtain rfl : s = s₀ := Option.some_inj.1 (hsession.symm.trans hs₀)
    have htracked := h.tracked hlive pid msg.transferId s context hsession hchecked.found
    have hexact := h.exact pid msg.transferId s hsession
    obtain ⟨hrun, hchain⟩ := @ranText_process P s.key _ _ msg.direction
      hwhole
    have hrunOf : RunOf P s context ⟨msg.direction, part buf msg.offset.toNat msg.len.toNat,
        (ranText P msg.direction s.key context.mode
          (part buf msg.offset.toNat msg.len.toNat)).1⟩
        (ranText P msg.direction s.key context.mode
          (part buf msg.offset.toNat msg.len.toNat)).2.chain.hash :=
      ⟨hrun, congrArg Chain.hash hchain⟩
    refine ⟨hexact.called htracked hchecked.live hctr hrunOf, fun context' hc' => ?_⟩
    have hcontext := hm.context
    rw [executed_context] at hcontext
    obtain rfl := Option.some_inj.1 (hcontext.symm.trans hc')
    exact htracked.called hexact hchecked.live hctr hdata hchecked.nonempty hrunOf

/-- What a call that fails leaves, and what of the lent buffer a call may change. -/
def CallExact (P : Platform) (w : World) : Act → Prop
  | .aesExecute sender msg buf fates =>
    match Crypto.aesExecute P fates (received msg) sender (w.lend buf).machine with
    | (.ok _, m) => Outside buf m.lent msg
    | (.err _, m) => m.aesContexts = w.machine.aesContexts ∧ Outside buf m.lent msg
    | (.panic _, _) => False
  | .aesAad sender id aad fates =>
    match Crypto.aesAad P fates id aad sender w.machine with
    | (.ok _, _) => True
    | (.err _, m) => m.aesContexts = w.machine.aesContexts
    | (.panic _, _) => False
  | .aesGcmTag sender id fates =>
    match aesGetTag P fates id sender w.machine with
    | (.ok _, _) => True
    | (.err _, m) => m.aesContexts = w.machine.aesContexts
    | (.panic _, _) => False
  | _ => True

variable {sender : Pid} {fates : Fates} {buf aad : Bytes} {msg : AesExecute}

theorem steady_execute (h : Faithful P w) (hs : Sound P w) (hlive : w.crashed = false)
    (hc : Steady P w (.aesExecute sender msg buf fates)) :
    Triple (· = (w.lend buf).machine) (Crypto.aesExecute P fates (received msg) sender)
      (fun _ m => Outside buf m.lent msg ∧ ∀ used, Faithful P
        (World.record { w.lend buf with machine := m, used := used } sender msg.transferId
          fun session => session.called ⟨msg.direction, part buf msg.offset.toNat msg.len.toNat,
            part m.lent msg.offset.toNat msg.len.toNat⟩))
      (fun _ m => m.aesContexts = w.machine.aesContexts ∧ Outside buf m.lent msg)
      fun _ => False := by
  obtain ⟨hfits, hchecks⟩ := hc
  have hid : (received msg).transferId = msg.transferId := by rw [received_eq]
  obtain ⟨key, hkey⟩ := hs.keyOf hlive sender msg.transferId
  have hreadable : ∀ context,
      (w.lend buf).machine.aesContexts sender (received msg).transferId = some context →
      (w.lend buf).machine.Readable context.keySlot key := by
    intro context hfound
    rw [hid] at hfound
    obtain ⟨hmagic, hreads, hsize⟩ := (hkey context hfound).1
    exact ⟨hmagic, hreads, hsize⟩
  have hsmall : ∀ context, Checked (w.lend buf).machine (received msg) sender context →
      received msg = msg := fun context hchecked => received_small (hchecks context hchecked).1.1
  have hsound : (w.lend buf).machine.power.Sound := (hs.held hlive).sound
  refine (aesExecute_spec hsound hfits
    (fun context hchecked => (hchecks context hchecked).1.2) hreadable).conseq
    (fun _ hm => hm) ?_ ?_ fun _ hp => hp
  · rintro _ m ⟨context, hchecked, hroll, hm⟩
    obtain ⟨-, -, hctr⟩ := hchecks context hchecked
    have hsame := hsmall context hchecked
    rw [hsame] at hchecked hm hroll
    obtain ⟨-, s, hsession, rfl⟩ := hkey context hchecked.found
    have hkind := (h.tracked hlive sender msg.transferId s context hsession hchecked.found).kind
    have hran : ∀ used, _ := fun used : Fin 32 → Bool => @Faithful.ran _ _ _ h hlive _ _ _ _ _ _ used
      hchecked hsession (fun heq => hctr (hkind.trans heq) hroll s hsession) hm
    exact ⟨(hran w.used).2, fun used => (hran used).1⟩
  · intro _ m hm
    exact hm.unchanged hsmall fun context hchecked => by
      obtain ⟨-, hcbc, -⟩ := hchecks context hchecked
      rw [hsmall context hchecked]
      exact hcbc

theorem steady_aad (h : Faithful P w) (hs : Sound P w) (hlive : w.crashed = false)
    (hc : Steady P w (.aesAad sender id aad fates)) :
    Triple (· = w.machine) (Crypto.aesAad P fates id aad sender)
      (fun _ m => ∀ used, Faithful P
        (World.record { w with machine := m, used := used } sender id fun s => s.withAad aad))
      (fun _ m => m.aesContexts = w.machine.aesContexts) fun _ => False := by
  obtain ⟨key, hkey⟩ := hs.keyOf hlive sender id
  have hcontexts := (idle_contexts fates w.machine).1
  refine (aesAad_spec (hs.held hlive).sound
    (fun context g hfound hmode hl hnodata henable =>
      (hc context g hfound hmode hl hnodata henable).1)
    fun context hfound => (hkey context hfound).1).conseq (fun _ hm => hm) ?_ ?_ fun _ hp => hp
  · rintro _ m ⟨henable, context, g, hfound, hl, hmode, hnodata, hm⟩ used
    obtain ⟨-, s, hsession, rfl⟩ := hkey context hfound
    have hpieces := (hc context g hfound hmode hl hnodata henable).2 s hsession
    have htracked := h.tracked hlive sender id s context hsession hfound
    have hexact := h.exact sender id s hsession
    refine h.edit hlive (fun _ _ => record_other) (fun pid' id' hne => ?_) fun s' hs' => ?_
    · exact (hm.others pid' id' hne).trans (congrFun (congrFun hcontexts pid') id')
    · rw [record_at] at hs'
      obtain ⟨s₀, hs₀, rfl⟩ := Option.map_eq_some_iff.1 hs'
      obtain rfl : s = s₀ := Option.some_inj.1 (hsession.symm.trans hs₀)
      refine ⟨hexact.withAad (htracked.untagged hl) aad, fun context' hc' => ?_⟩
      obtain rfl := Option.some_inj.1 (hm.context.symm.trans hc')
      exact htracked.withAad hexact hl hmode hnodata hpieces
  · rintro _ m (rfl | ⟨context, hfound, hm⟩)
    · exact hcontexts
    · exact hm.unchanged hfound

theorem steady_tag (h : Faithful P w) (hs : Sound P w) (hlive : w.crashed = false)
    (hc : Steady P w (.aesGcmTag sender id fates)) :
    Triple (· = w.machine) (aesGetTag P fates id sender)
      (fun tag m => ∀ used, Faithful P
        (World.record { w with machine := m, used := used } sender id fun s => s.tagged tag))
      (fun _ m => m.aesContexts = w.machine.aesContexts) fun _ => False := by
  obtain ⟨key, hkey⟩ := hs.keyOf hlive sender id
  have hcontexts := (idle_contexts fates w.machine).1
  refine (aesGetTag_spec (hs.held hlive).sound
    (fun henable context g hfound hmode => (hc context g hfound hmode).2 henable)
    fun context hfound => (hkey context hfound).1).conseq (fun _ hm => hm) ?_ ?_ fun _ hp => hp
  · rintro tag m ⟨-, context, g, aes, hfound, hmode, rfl, hm⟩ used
    obtain ⟨-, s, hsession, rfl⟩ := hkey context hfound
    have htracked := h.tracked hlive sender id s context hsession hfound
    refine h.edit hlive (fun _ _ => record_other) (fun pid' id' hne => ?_) fun s' hs' => ?_
    · exact (hm.others pid' id' hne).trans (congrFun (congrFun hcontexts pid') id')
    · rw [record_at] at hs'
      obtain ⟨s₀, hs₀, rfl⟩ := Option.map_eq_some_iff.1 hs'
      obtain rfl : s = s₀ := Option.some_inj.1 (hsession.symm.trans hs₀)
      refine ⟨(h.exact sender id s hsession).tagged htracked hmode, fun context' hc' => ?_⟩
      obtain rfl := Option.some_inj.1 (hm.context.symm.trans hc')
      exact htracked.tagged _
  · rintro _ m (rfl | ⟨context, hleft⟩)
    · exact hcontexts
    · exact hleft.unchanged fun g hg hl => (hc context g hleft.found hg).1 hl

/-! ### The other requests -/

/-- The contexts are these. -/
abbrev Has (c : Pid → UInt8 → Option AesContext) (m : Machine) : Prop := m.aesContexts = c

variable {c : Pid → UInt8 → Option AesContext}

theorem setAesKey_contexts {slot : Fin 32} {key : Bytes} :
    Triple (Has c) (setAesKey slot key) (fun _ => Has c) (fun _ => Has c) fun _ => True := by
  refine Triple.get_bind fun m hm => ?_
  refine Triple.ite (fun _ => Triple.throw fun s hs => hs ▸ hm) fun _ => ?_
  refine Triple.bind (Q := fun _ => Has c)
    (Triple.require (fun _ s hs => hs ▸ hm) fun _ => trivial) fun _ => ?_
  exact Triple.modify fun s hs => hs

/-- A context that is set up starts its mode. -/
theorem aesSetupRounds_contexts {key : Bytes} {mode : AesMode} (rounds : Nat) :
    Triple (Has c) (aesSetupRounds P key mode sender rounds)
      (fun id m => ∃ slot, m.aesContexts = fun pid' id' =>
        if pid' = sender ∧ id' = id then some ⟨slot, false, mode.start⟩ else c pid' id')
      (fun _ => Has c) fun _ => True := by
  induction rounds with
  | zero => exact Triple.throw fun s hs => hs
  | succ rounds ih =>
    refine Triple.get_bind fun m hm => Triple.bind (Q := fun _ => Has c)
      (Triple.require (fun _ s hs => hs ▸ hm) fun _ => trivial) fun _ => ?_
    refine Triple.bind (Q := fun _ => Has c) (Triple.modify fun s hs => hs) fun _ => ?_
    refine Triple.ite (fun _ => ih) fun _ => ?_
    refine Triple.bind (Q := fun _ => Has c) ?_ fun slot => ?_
    · refine Triple.get_bind fun s hs => ?_
      refine Triple.bind (Q := fun _ => Has c)
        (Triple.okOr (fun _ _ t ht => ht ▸ hs) fun _ t ht => ht ▸ hs) fun slot => ?_
      refine Triple.bind setAesKey_contexts fun _ => ?_
      exact Triple.bind (Q := fun _ => Has c) (Triple.modify fun t ht => ht) fun _ =>
        Triple.pure fun t ht => ht
    · refine Triple.bind (Q := fun _ s => s.aesContexts = fun pid' id' =>
        if pid' = sender ∧ id' = m.nextContextId then some ⟨slot, false, mode.start⟩
        else c pid' id') (Triple.modify fun s hs => ?_) fun _ => Triple.pure fun s hs => ⟨slot, hs⟩
      show (fun pid' id' => if pid' = sender ∧ id' = m.nextContextId then _ else
        s.aesContexts pid' id') = _
      rw [show s.aesContexts = c from hs]

theorem switchAes_contexts {fate : Option UInt32} {enabled : Bool} :
    Triple (Has c) (call .xousError fate <| Prog.modify fun m =>
        { m with power := m.power.setPeripheralEnabled .aes enabled })
      (fun _ => Has c) (fun _ => Has c) fun _ => True :=
  call_keep (fun _ _ hs => hs) (Triple.modify fun _ hs => hs)

theorem startDiskEncryptDmas_contexts {msg : DiskEncryptUnsafe} :
    Triple (Has c) (startDiskEncryptDmas fates msg) (fun _ => Has c) (fun _ => Has c)
      fun _ => True := by
  refine Triple.get_bind fun m hm => ?_
  refine Triple.bind (Q := fun _ => Has c)
    (Triple.require (fun _ s hs => hs ▸ hm) fun _ => trivial) fun _ => ?_
  refine Triple.ite (fun _ => Triple.throw fun s hs => hs) fun _ => ?_
  refine Triple.bind (Q := fun _ => Has c) (Triple.modify fun s hs => hs) fun _ => ?_
  refine Triple.ite (fun _ => Triple.throw fun s hs => hs) fun _ => ?_
  refine Triple.bind (Q := fun _ => Has c)
    (call_keep (fun _ s hs => hs) (Triple.pure fun s hs => hs)) fun _ => ?_
  exact call_keep (fun _ s hs => hs) (Triple.modify fun s hs => hs)

theorem diskEncryptStart_contexts {msg : DiskEncryptUnsafe} :
    Triple (Has c) (diskEncryptStart fates msg) (fun _ => Has c) (fun _ => Has c)
      fun _ => True := by
  refine Triple.ite (fun _ => Triple.throw fun s hs => hs) fun _ => ?_
  refine Triple.bind switchAes_contexts fun _ => ?_
  refine Triple.bind (Q := fun _ => Has c)
    (Triple.modify fun s hs => (idle_contexts fates s).1.trans hs) fun _ => ?_
  refine Triple.bind (Q := fun _ => Has c)
    (Triple.attempt (startDiskEncryptDmas_contexts.conseq (fun _ hs => hs) (fun _ _ hs => hs)
      (fun _ _ hs => hs) fun _ hp => hp)) fun started => ?_
  cases started with
  | ok u => exact Triple.modify fun s hs => hs
  | error e =>
    exact Triple.bind (Q := fun _ => Has c) (Triple.ignore switchAes_contexts) fun _ =>
      Triple.throw fun s hs => hs

theorem onDmaTransferComplete_contexts :
    Triple (Has c) (onDmaTransferComplete fates) (fun _ => Has c) (fun _ => Has c)
      fun _ => True := by
  refine Triple.get_bind fun m hm => ?_
  refine Triple.ite (fun _ => Triple.pure fun s hs => hs ▸ hm) fun _ => ?_
  refine Triple.bind (Q := fun _ => Has c) (Triple.modify fun s hs => ?_) fun _ => ?_
  · subst hs
    exact hm
  exact Triple.bind (Q := fun _ => Has c) (Triple.ignore switchAes_contexts) fun _ =>
    Triple.pure fun s hs => hs

theorem shaSetContext_contexts {sha : ShaSetContext} :
    Triple (Has c) (Crypto.shaSetContext P fates sender sha) (fun _ => Has c) (fun _ => Has c)
      fun _ => True := by
  refine Triple.get_bind fun m hm => ?_
  obtain ⟨contextId, algo, hashState⟩ := sha
  cases contextId with
  | some existingId =>
    refine Triple.ite (fun _ => ?_) fun _ => Triple.throw fun s hs => hs ▸ hm
    refine Triple.bind (Q := fun _ => Has c) (Triple.modify fun s hs => ?_) fun _ =>
      Triple.pure fun s hs => hs
    subst hs
    exact hm
  | none =>
    refine Triple.bind (Q := fun _ => Has c) (Triple.pre (P := Has c) (Triple.onlyIf
      (fun _ => call_keep (fun _ _ hs => hs) (Triple.modify fun _ hs => hs))
      fun _ s hs => hs) fun s hs => hs ▸ hm) fun _ => ?_
    refine Triple.bind (Q := fun _ => Has c)
      (Triple.require (fun _ s hs => hs) fun _ => trivial) fun _ => ?_
    exact Triple.bind (Q := fun _ => Has c) (Triple.modify fun s hs => hs) fun _ =>
      Triple.pure fun s hs => hs

/-- A request that at most takes contexts away. -/
theorem Faithful.serve {α : Type} {x : Serve α} {recorded : α → Machine → World → World}
    {A : Panic → Prop} (h : Faithful P w) (hlive : w.crashed = false)
    (hx : Triple (· = w.machine) x (fun _ => Fewer w.machine) (fun _ => Fewer w.machine) A)
    (hrecorded : ∀ a m v, (recorded a m v).machine = v.machine ∧
      ∀ pid id s, (recorded a m v).sessions pid id = some s → v.sessions pid id = some s) :
    Faithful P (w.serve x recorded) := by
  refine serve_cases hx (fun a m used hm => ?_) (fun e m hm => ?_) fun p m hp => ?_
  · obtain ⟨hmachine, hsessions⟩ := hrecorded a m { w with machine := m, used := used }
    refine h.fewer hlive hsessions fun _ => ?_
    rw [hmachine]
    exact hm
  · exact h.fewer hlive (fun _ _ _ hs => hs) fun _ => hm
  · exact h.fewer hlive (fun _ _ _ hs => hs) nofun

/-- A request that leaves the contexts. -/
theorem Faithful.serve_has {α : Type} {x : Serve α} {recorded : α → Machine → World → World}
    {A : Panic → Prop} (h : Faithful P w) (hlive : w.crashed = false)
    (hx : Triple (Has w.machine.aesContexts) x (fun _ => Has w.machine.aesContexts)
      (fun _ => Has w.machine.aesContexts) A)
    (hrecorded : ∀ a m v, (recorded a m v).machine = v.machine ∧
      ∀ pid id s, (recorded a m v).sessions pid id = some s → v.sessions pid id = some s) :
    Faithful P (w.serve x recorded) := by
  have hfewer : ∀ m, Has w.machine.aesContexts m → Fewer w.machine m := by
    intro m hm pid id context hfound
    rw [← show m.aesContexts = w.machine.aesContexts from hm]
    exact hfound
  exact h.serve hlive (hx.conseq (fun m hm => by rw [hm]) (fun _ m hm => hfewer m hm)
    (fun _ m hm => hfewer m hm) fun _ hp => hp) hrecorded

theorem Faithful.request (h : Faithful P w) (hs : Sound P w) (hlive : w.crashed = false)
    {act : Act} (hc : Steady P w act) : Faithful P (w.request P act) := by
  have hsound := (hs.held hlive).sound
  have hunrecorded : ∀ {α : Type} (a : α) (m : Machine) (v : World),
      (unrecorded a m v).machine = v.machine ∧
        ∀ pid id s, (unrecorded a m v).sessions pid id = some s → v.sessions pid id = some s :=
    fun _ _ _ => ⟨rfl, fun _ _ _ hs => hs⟩
  have hstill : ∀ {α : Type} {x : Serve α} {m : Machine}, m.power.Sound →
      Triple (StillSound m) x (fun _ => StillSound m) (fun _ => StillSound m) (fun _ => True) →
      Triple (· = m) x (fun _ => Fewer m) (fun _ => Fewer m) fun _ => True := by
    intro α x m hpower hx
    refine hx.conseq ?_ (fun _ _ hm => hm.2.2) (fun _ _ hm => hm.2.2) fun _ hp => hp
    rintro _ rfl
    exact ⟨hpower, rfl, fun _ _ _ hfound => hfound⟩
  have hlend : ∀ buf, Faithful P (w.lend buf) := fun buf =>
    h.fewer hlive (fun _ _ _ hs => hs) fun _ _ _ _ hfound => hfound
  unfold World.request
  cases act with
  | aesSetup sender key mode =>
    dsimp only
    refine serve_cases ((aesSetupRounds_contexts 255).pre fun m hm => by rw [hm])
      (fun id m used hm => ?_) (fun e m hm => ?_) fun p m hp => ?_
    · obtain ⟨slot, hcontexts⟩ := hm
      refine @Faithful.edit _ _ _ sender id h hlive (fun _ _ hne => if_neg hne)
        (fun pid' id' hne => ?_) fun s hs => ?_
      · show m.aesContexts pid' id' = _
        rw [hcontexts]
        exact if_neg hne
      · have hs : (if sender = sender ∧ id = id then some (Session.start key mode)
          else w.sessions sender id) = some s := hs
        rw [if_pos ⟨rfl, rfl⟩] at hs
        obtain rfl := Option.some_inj.1 hs
        refine ⟨Session.Exact.start key mode, fun context hc' => ?_⟩
        have hc' : m.aesContexts sender id = some context := hc'
        rw [hcontexts] at hc'
        dsimp only at hc'
        rw [if_pos ⟨rfl, rfl⟩] at hc'
        obtain rfl := Option.some_inj.1 hc'
        exact Tracked.start key mode slot
    · refine h.fewer hlive (fun _ _ _ hs => hs) fun _ pid id context hfound => ?_
      rw [← show m.aesContexts = w.machine.aesContexts from hm]
      exact hfound
    · exact h.fewer hlive (fun _ _ _ hs => hs) nofun
  | aesExecute sender msg buf fates =>
    dsimp only
    refine serve_cases (steady_execute h hs hlive hc) (fun _ m used hm => hm.2 used)
      (fun e m hm => ?_) fun _ _ hp => hp.elim
    refine h.fewer hlive (fun _ _ _ hs => hs) fun _ pid id context hfound => ?_
    rw [← hm.1]
    exact hfound
  | aesAad sender id aad fates =>
    dsimp only
    refine serve_cases (steady_aad h hs hlive hc) (fun _ m used hm => hm used)
      (fun e m hm => ?_) fun _ _ hp => hp.elim
    refine h.fewer hlive (fun _ _ _ hs => hs) fun _ pid id context hfound => ?_
    rw [← hm]
    exact hfound
  | aesGcmTag sender id fates =>
    dsimp only
    refine serve_cases (steady_tag h hs hlive hc) (fun _ m used hm => hm used)
      (fun e m hm => ?_) fun _ _ hp => hp.elim
    refine h.fewer hlive (fun _ _ _ hs => hs) fun _ pid id context hfound => ?_
    rw [← hm]
    exact hfound
  | aesClear sender id =>
    dsimp only
    refine h.serve hlive (hstill hsound aesClear_still) fun _ m v => ⟨rfl, fun pid' id' s hs => ?_⟩
    have hs : (if pid' = sender ∧ id' = id then none else v.sessions pid' id') = some s := hs
    split at hs
    · cases hs
    · exact hs
  | shaSetContext sender msg fates =>
    dsimp only
    exact h.serve_has hlive shaSetContext_contexts hunrecorded
  | shaUpdate sender contextId length buf fates =>
    dsimp only
    exact (hlend buf).serve hlive (hstill hsound shaUpdate_still) hunrecorded
  | shaGetContext sender contextId =>
    dsimp only
    refine h.serve_has hlive (A := fun _ => True) ?_ hunrecorded
    exact Triple.get_bind fun m hm => Triple.okOr (fun _ _ s hs => hs ▸ hm) fun _ s hs => hs ▸ hm
  | shaDrop sender contextId fates =>
    dsimp only
    exact h.serve hlive (hstill hsound retainSha_still) hunrecorded
  | hmac algo key data fates =>
    dsimp only
    exact h.serve hlive (hstill hsound hmac_still) hunrecorded
  | clientDisconnected pid fates =>
    dsimp only
    refine h.serve hlive (hstill hsound clearClientContexts_still)
      fun _ m v => ⟨rfl, fun pid' id' s hs => ?_⟩
    have hs : (if pid' = pid then none else v.sessions pid' id') = some s := hs
    split at hs
    · cases hs
    · exact hs
  | subscribeDiskEncryptComplete =>
    exact h.fewer hlive (fun _ _ _ hs => hs) fun _ _ _ _ hfound => hfound
  | diskEncrypt msg fates =>
    dsimp only
    split
    · exact h
    · exact h.serve_has hlive diskEncryptStart_contexts fun _ _ _ => ⟨rfl, fun _ _ _ hs => hs⟩
  | dmaCompletes =>
    refine h.fewer hlive (fun _ _ _ hs => hs) fun _ pid id context hfound => ?_
    have hsame : w.machine.transferEnds.aesContexts = w.machine.aesContexts := by
      unfold Machine.transferEnds
      split <;> rfl
    rw [← hsame]
    exact hfound
  | transferComplete fates =>
    dsimp only
    split
    · have hready : Faithful P { w with machine := { w.machine with completed := false } } :=
        h.fewer hlive (fun _ _ _ hs => hs) fun _ _ _ _ hfound => hfound
      refine hready.serve_has hlive onDmaTransferComplete_contexts fun told _ v => ?_
      cases told <;> exact ⟨rfl, fun _ _ _ hs => hs⟩
    · exact h

theorem Faithful.step (h : Faithful P w) (hs : Sound P w) {act : Act} (hc : Steady P w act) :
    Faithful P (w.step P act) := by
  unfold World.step
  split
  · exact h
  · next hlive => exact h.request hs (Bool.eq_false_iff.2 hlive) hc

theorem Faithful.run (h : Faithful P w) (hs : Sound P w) {acts : List Act}
    (hc : SteadyRun P w acts) : Faithful P (w.run P acts) := by
  induction acts generalizing w with
  | nil => exact h
  | cons act acts ih => exact ih (h.step hs hc.1) (hs.step act) hc.2

theorem started_faithful (aesKeys : Fin 32 → AesKey) (diskEncryptionKeys : Bytes × Bytes) :
    Faithful P (started aesKeys diskEncryptionKeys) := ⟨nofun, nofun⟩

theorem Faithful.callExact (h : Faithful P w) (hs : Sound P w) (hlive : w.crashed = false)
    {act : Act} (hc : Steady P w act) : CallExact P w act := by
  cases act with
  | aesExecute sender msg buf fates =>
    have hcall := steady_execute h hs hlive hc _ rfl
    unfold CallExact
    dsimp only
    revert hcall
    rcases Crypto.aesExecute P fates (received msg) sender (w.lend buf).machine with ⟨outcome, m⟩
    cases outcome with
    | ok n => exact fun hm => hm.1
    | err e => exact fun hm => hm
    | panic p => exact fun hm => hm
  | aesAad sender id aad fates =>
    have hcall := steady_aad h hs hlive hc _ rfl
    unfold CallExact
    dsimp only
    revert hcall
    rcases Crypto.aesAad P fates id aad sender w.machine with ⟨outcome, m⟩
    cases outcome with
    | ok n => exact fun _ => trivial
    | err e => exact fun hm => hm
    | panic p => exact fun hm => hm
  | aesGcmTag sender id fates =>
    have hcall := steady_tag h hs hlive hc _ rfl
    unfold CallExact
    dsimp only
    revert hcall
    rcases aesGetTag P fates id sender w.machine with ⟨outcome, m⟩
    cases outcome with
    | ok n => exact fun _ => trivial
    | err e => exact fun hm => hm
    | panic p => exact fun hm => hm
  | _ => trivial

end Faithful

/-- In a steady run every client receives its mode applied to the whole of its data, whatever the
other clients do in between, and a call that fails might as well not have been made. -/
theorem modes_steady {P : Platform} {aesKeys : Fin 32 → AesKey}
    {diskEncryptionKeys : Bytes × Bytes} {acts : List Act}
    (hsteady : SteadyRun P (started aesKeys diskEncryptionKeys) acts) :
    (∀ pid id s, ((started aesKeys diskEncryptionKeys).run P acts).sessions pid id = some s →
      s.Exact P) ∧
    ∀ act, ((started aesKeys diskEncryptionKeys).run P acts).crashed = false →
      Steady P ((started aesKeys diskEncryptionKeys).run P acts) act →
        CallExact P ((started aesKeys diskEncryptionKeys).run P acts) act := by
  have hsound := started_sound (P := P) aesKeys diskEncryptionKeys
  have hfaithful := (started_faithful aesKeys diskEncryptionKeys).run hsound hsteady
  exact ⟨hfaithful.exact, fun act hlive hc => hfaithful.callExact (hsound.run acts) hlive hc⟩

/-- Additional data of a block and a message of two, in two calls. -/
def twoCalls : List Act :=
  [.aesSetup 1 zeroKey (.gcm ⟨List.replicate 12 0, rfl⟩),
    .aesAad 1 1 (List.replicate 16 0) .quiet,
    .aesExecute 1 ⟨1, .encrypt, 0, 16⟩ (List.replicate 16 0) .quiet,
    .aesExecute 1 ⟨1, .encrypt, 16, 16⟩ (List.replicate 32 0) .quiet,
    .aesGcmTag 1 1 .quiet]

theorem modes_in_two_calls :
    ∃ s, (fresh.run device twoCalls).sessions 1 1 = some s ∧
      s.tags = [[57, 105, 29, 26, 183, 10, 34, 8, 74, 233, 51, 124, 105, 124, 59, 238]] ∧
      s.Exact device := by
  have hgcm : ∀ {w : World} {context : AesContext},
      (w.machine.aesContexts 1 1).map (·.mode.kind) = some .gcm →
      w.machine.aesContexts 1 1 = some context → context.mode.kind ≠ .ctr := by
    intro w context hkind hfound hctr
    rw [hfound, Option.map_some, hctr] at hkind
    cases hkind
  have hsteady : SteadyRun device fresh twoCalls := by
    refine ⟨trivial, fun _ _ _ _ _ _ _ => ⟨⟨rfl, .inl rfl⟩, fun s hs _ => ?_⟩,
      ⟨.inl rfl, fun context hchecked => ⟨⟨by decide, rfl, sumsFit_device _ _⟩,
        fun _ _ => ⟨rfl, rfl, rfl, rfl, rfl⟩, fun hctr => absurd hctr (hgcm ?_ hchecked.found)⟩⟩,
      ⟨.inl rfl, fun context hchecked => ⟨⟨by decide, rfl, sumsFit_device _ _⟩,
        fun _ _ => ⟨rfl, rfl, rfl, rfl, rfl⟩, fun hctr => absurd hctr (hgcm ?_ hchecked.found)⟩⟩,
      fun _ _ _ _ => ⟨fun _ => rfl, fun _ => ⟨.inl rfl, .inl rfl⟩⟩, trivial⟩
    · obtain rfl := Option.some_inj.1 hs
      exact Nat.dvd_zero 16
    · decide +kernel
    · decide +kernel
  have htags : ((fresh.run device twoCalls).sessions 1 1).map (·.tags) =
      some [[57, 105, 29, 26, 183, 10, 34, 8, 74, 233, 51, 124, 105, 124, 59, 238]] := by
    decide +kernel
  obtain ⟨s, hs, htags⟩ := Option.map_eq_some_iff.1 htags
  exact ⟨s, hs, htags, (modes_steady hsteady).1 1 1 s hs⟩

/-- A counter context whose message comes in two calls. -/
theorem counter_goes_wrong :
    ¬∀ pid id s, (fresh.run device [.aesSetup 1 zeroKey (.ctr ⟨List.replicate 16 0, rfl⟩),
        .aesExecute 1 ⟨1, .encrypt, 0, 16⟩ (List.replicate 16 0) .quiet,
        .aesExecute 1 ⟨1, .encrypt, 0, 16⟩ (List.replicate 16 0) .quiet]).sessions pid id =
      some s → s.Exact device := by
  intro h
  have hdiffer : ((fresh.run device [.aesSetup 1 zeroKey (.ctr ⟨List.replicate 16 0, rfl⟩),
      .aesExecute 1 ⟨1, .encrypt, 0, 16⟩ (List.replicate 16 0) .quiet,
      .aesExecute 1 ⟨1, .encrypt, 0, 16⟩ (List.replicate 16 0) .quiet]).sessions 1 1).map
        (fun s => decide (s.calls.map (·.direction) = [.encrypt, .encrypt] ∧
          s.output ≠ (s.whole device .encrypt).1)) = some true := by
    decide +kernel
  obtain ⟨s, hs, hdiffer⟩ := Option.map_eq_some_iff.1 hdiffer
  obtain ⟨hdirections, hne⟩ := of_decide_eq_true hdiffer
  refine hne ((h 1 1 s hs).output .encrypt fun call hcall => ?_)
  have hmem := List.mem_map_of_mem (f := Call.direction) hcall
  rw [hdirections] at hmem
  simpa using hmem

end World

end Crypto
