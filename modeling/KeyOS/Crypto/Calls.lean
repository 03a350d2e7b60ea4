import KeyOS.Crypto.Clients

/-!
# One call on an AES context

What a call does to its context and to the lent buffer when no call that it makes fails after the
clock was switched on, and no sum overflows in a build that checks.
-/

namespace Crypto

open BlockModes Exec Prog

/-! ## 1. Buffers -/

section Buffers

variable {buf a b : Bytes} {offset len n : Nat}

theorem length_part (h : offset + len ≤ buf.length) : (part buf offset len).length = len := by
  rw [part, List.length_take, List.length_drop]
  omega

theorem take_part (h : n ≤ len) : (part buf offset len).take n = part buf offset n := by
  rw [part, List.take_take, Nat.min_eq_left h, part]

theorem drop_part : (part buf offset len).drop n = part buf (offset + n) (len - n) := by
  rw [part, List.drop_take, List.drop_drop, part]

theorem length_patch (h : offset + a.length ≤ buf.length) :
    (patch buf offset a).length = buf.length := by
  rw [patch, List.length_append, List.length_append, List.length_take, List.length_drop]
  omega

theorem drop_patch (h : offset + a.length ≤ buf.length) :
    (patch buf offset a).drop (offset + a.length) = buf.drop (offset + a.length) := by
  have hlen : (buf.take offset ++ a).length = offset + a.length := by
    rw [List.length_append, List.length_take]
    omega
  rw [patch, ← hlen, List.drop_left]

theorem part_patch (h : offset + a.length ≤ buf.length) :
    part (patch buf offset a) offset a.length = a := by
  have hlen : (buf.take offset).length = offset := by
    rw [List.length_take]
    omega
  rw [part, patch, List.append_assoc, List.drop_left' hlen, List.take_left' rfl]

theorem part_patch_after (h : offset + a.length ≤ buf.length) :
    part (patch buf offset a) (offset + a.length) n = part buf (offset + a.length) n := by
  rw [part, drop_patch h, part]

theorem patch_patch (h : offset + a.length ≤ buf.length) :
    patch (patch buf offset a) (offset + a.length) b = patch buf offset (a ++ b) := by
  have hlen : (buf.take offset ++ a).length = offset + a.length := by
    rw [List.length_append, List.length_take]
    omega
  have htake : (patch buf offset a).take (offset + a.length) = buf.take offset ++ a := by
    rw [patch, List.take_left' hlen]
  rw [patch, htake, ← List.drop_drop, drop_patch h, List.drop_drop, patch, List.length_append,
    List.append_assoc, List.append_assoc, List.append_assoc, List.append_assoc, Nat.add_assoc]

end Buffers

/-! ## 2. The state during a call -/

/-- What no call on a context changes. -/
def Machine.kept (m : Machine) :=
  (m.securam, m.nextContextId, m.securamSlotOccupied, m.shaContexts, m.lastShaContextId,
    m.diskEncryptSubscriber, m.diskEncryptInFlight, m.transferring, m.completed)

/-- What a call changes. -/
structure View where
  context : AesContext
  lent : Bytes
  aes : Aes
  power : PowerManager
  unclocked : Bool

structure During (m₀ : Machine) (pid : Pid) (id : UInt8) (v : View) (m : Machine) : Prop where
  context : m.aesContexts pid id = some v.context
  others : ∀ pid' id', ¬(pid' = pid ∧ id' = id) →
    m.aesContexts pid' id' = m₀.aesContexts pid' id'
  lent : m.lent = v.lent
  aes : m.aes = v.aes
  power : m.power = v.power
  unclocked : m.unclocked = v.unclocked
  kept : m.kept = m₀.kept

def Machine.idle (fates : Fates) (m : Machine) : Machine :=
  if m.diskEncryptInFlight && !fates.idleWait then m.transferEnds else m

/-- Sums do not overflow, or are not checked. -/
def Platform.Fits (P : Platform) (overflows : Bool) : Prop :=
  P.overflowChecks = false ∨ overflows = false

section Parts

variable {P : Platform} {fates : Fates} {m₀ : Machine} {pid : Pid} {id : UInt8} {v : View}
  {E : CryptoError → Machine → Prop} {A : Panic → Prop}

theorem arithmetic_spec {overflows : Bool} {Pre : Machine → Prop} (h : P.Fits overflows) :
    Triple Pre (arithmetic P overflows) (fun _ => Pre) E A := by
  refine Triple.require (fun _ _ => id) fun hf => absurd hf ?_
  rcases h with h | h <;> rw [h] <;> cases P.overflowChecks <;> exact Bool.noConfusion

theorem lookupContext_spec :
    Triple (During m₀ pid id v) (lookupContext pid id)
      (fun context m => context = v.context ∧ During m₀ pid id v m) E A :=
  Triple.get_bind fun m hm => Triple.okOr
    (fun context hcontext s hs => by
      cases hs
      rw [hm.context] at hcontext
      cases hcontext
      exact ⟨rfl, hm⟩)
    fun hnone => by
      rw [hm.context] at hnone
      cases hnone

theorem updateContext_spec {f : AesContext → AesContext} :
    Triple (During m₀ pid id v) (updateContext pid id f)
      (fun _ => During m₀ pid id { v with context := f v.context }) E A := by
  refine Triple.modify fun m hm => ⟨?_, fun pid' id' hne => ?_, hm.lent, hm.aes, hm.power,
    hm.unclocked, hm.kept⟩
  · show (if pid = pid ∧ id = id then _ else _) = _
    rw [if_pos ⟨rfl, rfl⟩, hm.context]
    rfl
  · show (if pid' = pid ∧ id' = id then _ else _) = _
    rw [if_neg hne]
    exact hm.others pid' id' hne

theorem useAes_spec {f : Aes → Aes} :
    Triple (During m₀ pid id v) (useAes f)
      (fun _ => During m₀ pid id { v with
        aes := f v.aes
        unclocked := v.unclocked || !v.power.clock .aes }) E A :=
  Triple.modify fun m hm => by
    refine ⟨hm.context, hm.others, hm.lent, congrArg f hm.aes, hm.power, ?_, hm.kept⟩
    show (m.unclocked || !m.power.clock .aes) = _
    rw [hm.unclocked, hm.power]

theorem enablePeripheral_spec {peripheral : PeripheralId}
    (hE : ∀ e m, fates.enable.isSome → During m₀ pid id v m → E e m) :
    Triple (During m₀ pid id v) (enablePeripheral fates peripheral)
      (fun _ m => fates.enable = none ∧ During m₀ pid id { v with
        power := v.power.setPeripheralEnabled peripheral true } m) E A := by
  unfold enablePeripheral call
  split
  · next e he => exact Triple.throw fun m => hE _ m (by rw [he]; rfl)
  · next he =>
    exact Triple.modify fun m hm => ⟨he, hm.context, hm.others, hm.lent, hm.aes,
      congrArg (·.setPeripheralEnabled peripheral true) hm.power, hm.unclocked, hm.kept⟩

theorem disablePeripheral_spec {peripheral : PeripheralId} (h : fates.disable = none) :
    Triple (During m₀ pid id v) (disablePeripheral fates peripheral)
      (fun _ => During m₀ pid id { v with
        power := v.power.setPeripheralEnabled peripheral false }) E A := by
  unfold disablePeripheral call
  rw [h]
  exact Triple.modify fun m hm => ⟨hm.context, hm.others, hm.lent, hm.aes,
    congrArg (·.setPeripheralEnabled peripheral false) hm.power, hm.unclocked, hm.kept⟩

end Parts

/-! ## 3. The parts of `aes_execute` -/

/-- Nothing fails once the clock is on. -/
structure Fates.Calm (fates : Fates) : Prop where
  disable : fates.disable = none
  dmaTx : fates.dmaTx = none
  dmaRx : fates.dmaRx = none
  dmaWait : fates.dmaWait = none

/-- The key of a slot can be read. -/
structure Machine.Readable (m : Machine) (slot : Fin 32) (key : Bytes) : Prop where
  magic : m.securam.magic = true
  reads : (m.securam.aesKeys slot).bytes.take (m.securam.aesKeys slot).len = key
  size : isKeySize key.length = true

/-- What `aes_execute` has checked of a request. -/
structure Checked (m : Machine) (msg : AesExecute) (sender : Pid) (context : AesContext) : Prop where
  found : m.aesContexts sender msg.transferId = some context
  live : context.finalized = false
  whole : context.mode.isStream = false → msg.len.toNat % 16 = 0
  within : msg.offset.toNat + msg.len.toNat ≤ m.lent.length
  nonempty : msg.len ≠ 0

def runMode (key : Bytes) : AesContextMode → HwMode
  | .ecb => .ecb key
  | .cbc iv => .cbc key iv
  | .gcm _ _ iv ctr ghash => .gcm key iv ctr ghash
  | .ctr ctr => .counter key ctr

def AesContextMode.rollsOver (len : UInt32) : AesContextMode → Bool
  | .ctr counter => counter.isCtrRollover (len / 16)
  | _ => false

/-- The context before the data is replaced. -/
def AesContext.beforeRun (direction : Direction) (data : Bytes) (context : AesContext) :
    AesContext :=
  match context.mode with
  | .cbc _ =>
    if direction = .decrypt then { context with mode := .cbc (Words.ofBytes (lastBlock data)) }
    else context
  | _ => context

/-- The context after the data was replaced. -/
def AesContext.afterRun (direction : Direction) (len : UInt32) (data hash : Bytes)
    (context : AesContext) : AesContext :=
  match context.mode with
  | .ecb => context
  | .cbc _ =>
    if direction = .encrypt then { context with mode := .cbc (Words.ofBytes (lastBlock data)) }
    else context
  | .gcm aadlen datalen iv ctr _ =>
    { context with mode := .gcm aadlen (datalen + len) iv (ctr + len / 16) (Words.ofBytes hash) }
  | .ctr ctr => { context with mode := .ctr (ctr.add (len / 16)) }

/-- The sums of a run do not overflow, or are not checked. -/
def AesContextMode.SumsFit (P : Platform) (len : UInt32) : AesContextMode → Prop
  | .gcm _ datalen _ counter _ =>
    P.Fits (2 ^ 32 ≤ counter.toNat + len.toNat / 16) ∧ P.Fits (2 ^ 32 ≤ datalen.toNat + len.toNat)
  | _ => True

section Execute

variable {P : Platform} {fates : Fates} {m₀ : Machine} {pid : Pid} {msg : AesExecute} {v : View}
  {E : CryptoError → Machine → Prop} {A : Panic → Prop}

theorem checkExecute_spec
    (hfits : P.Fits (2 ^ 32 ≤ msg.offset.toNat + msg.len.toNat))
    (hE : ∀ e m, m = m₀ ∨ m = m₀.idle fates → E e m) :
    Triple (· = m₀) (checkExecute P fates msg pid)
      (fun context m => m = m₀.idle fates ∧ Checked m₀ msg pid context) E A := by
  have hcontexts : (m₀.idle fates).aesContexts = m₀.aesContexts := by
    unfold Machine.idle Machine.transferEnds
    split
    · split <;> rfl
    · rfl
  refine Triple.bind (arithmetic_spec hfits) fun _ => Triple.get_bind fun m hm => ?_
  subst hm
  refine Triple.ite (fun _ => Triple.throw fun s hs => hE _ s (.inl hs)) fun hlen => ?_
  refine Triple.bind (Q := fun _ s => s = m.idle fates)
    (Triple.modify fun s hs => by rw [hs]; rfl) fun _ => ?_
  refine Triple.bind (Q := fun context s => s = m.idle fates ∧
    m.aesContexts pid msg.transferId = some context) ?_ fun context => ?_
  · refine Triple.get_bind fun s hs => ?_
    subst hs
    rw [hcontexts]
    exact Triple.okOr (fun context hcontext s hs => ⟨hs, hcontext⟩)
      fun _ s hs => hE _ s (.inr hs)
  · refine Triple.ite (fun _ => Triple.throw fun s hs => hE _ s (.inr hs.1)) fun hlive => ?_
    refine Triple.ite (fun _ => Triple.throw fun s hs => hE _ s (.inr hs.1)) fun hwhole => ?_
    refine Triple.ite (fun _ => Triple.throw fun s hs => hE _ s (.inr hs.1)) fun hwithin => ?_
    refine Triple.pure fun s hs => ⟨hs.1, hs.2, Bool.eq_false_iff.2 hlive, fun hstream => ?_,
      Nat.le_of_not_lt hwithin, fun hzero => hlen (.inr hzero)⟩
    exact Decidable.byContradiction fun hmod => hwhole ⟨hstream, hmod⟩

theorem readAesKey_spec {id : UInt8} {key : Bytes} (h : m₀.Readable v.context.keySlot key) :
    Triple (During m₀ pid id v) (readAesKey v.context.keySlot)
      (fun k m => k = key ∧ During m₀ pid id v m) E A := by
  refine Triple.get_bind fun m hm => ?_
  have hsecuram : m.securam = m₀.securam := congrArg (·.1) hm.kept
  rw [hsecuram]
  refine Triple.bind (Q := fun _ s => s = m)
    (Triple.require (fun _ s hs => hs) fun hf => absurd h.magic (by rw [hf]; nofun)) fun _ => ?_
  refine Triple.bind (Q := fun _ s => s = m) (Triple.require (fun _ s hs => hs) fun hf => ?_)
    fun _ => Triple.pure fun s hs => ⟨h.reads, hs ▸ hm⟩
  rw [h.reads, h.size] at hf
  cases hf

theorem executeMode_spec {key : Bytes}
    (hE : ∀ e m, v.context.mode.rollsOver msg.len = true → During m₀ pid msg.transferId v m →
      E e m) :
    Triple (During m₀ pid msg.transferId v) (executeMode msg pid key v.context.mode)
      (fun hw m => hw = runMode key v.context.mode ∧ During m₀ pid msg.transferId
        { v with
          context := v.context.beforeRun msg.direction
            (part v.lent msg.offset.toNat msg.len.toNat) } m) E A := by
  obtain ⟨⟨keySlot, finalized, mode⟩, lent, aes, power, unclocked⟩ := v
  cases mode with
  | ecb => exact Triple.pure fun m hm => ⟨rfl, hm⟩
  | gcm aadlen datalen iv ctr ghash => exact Triple.pure fun m hm => ⟨rfl, hm⟩
  | ctr ctr =>
    exact Triple.ite (fun hover => Triple.throw fun m hm => hE _ m hover hm)
      fun _ => Triple.pure fun m hm => ⟨rfl, hm⟩
  | cbc iv =>
    refine Triple.get_bind fun m hm => ?_
    have hlent : m.lent = lent := hm.lent
    rw [hlent]
    refine Triple.pre (P := During m₀ pid msg.transferId _) ?_ fun s hs => hs ▸ hm
    unfold AesContext.beforeRun
    refine Triple.ite (fun hdirection => ?_) fun hdirection => ?_
    · rw [if_pos hdirection]
      exact Triple.bind updateContext_spec fun _ => Triple.pure fun s hs => ⟨rfl, hs⟩
    · rw [if_neg hdirection]
      exact Triple.pure fun s hs => ⟨rfl, hs⟩

/-- The view after the whole blocks. -/
def View.dma (P : Platform) (v : View) (offset len : Nat) : View :=
  let fed := v.aes.feedAll P.cipher (blocks 16 (part v.lent offset len))
  { v with lent := patch v.lent offset fed.1, aes := fed.2 }

theorem patch_nil (buf : Bytes) (offset : Nat) : patch buf offset [] = buf := by
  rw [patch, List.append_nil]
  exact List.take_append_drop offset buf

/-- A transfer that fails has replaced a part of the data at most. -/
theorem executeDma_spec {id : UInt8} (hclock : v.power.clock .aes = true) {offset len : Nat}
    (hE : ∀ e m moved, ¬fates.Calm →
      moved.length ≤ (v.aes.feedAll P.cipher (blocks 16 (part v.lent offset len))).1.length →
      During m₀ pid id { v with lent := patch v.lent offset moved } m → E e m) :
    Triple (During m₀ pid id v) (executeDma P fates offset len)
      (fun _ => During m₀ pid id (v.dma P offset len)) E A := by
  refine Triple.get_bind fun m hm => ?_
  rw [hm.lent, hm.aes]
  have hunclocked : (m.uses .aes).unclocked = v.unclocked := by
    show (m.unclocked || !m.power.clock .aes) = _
    rw [hm.unclocked, hm.power, hclock, Bool.not_true, Bool.or_false]
  have hbroken : ∀ e : DmaError, ¬fates.Calm → Triple (· = m) (do
      Prog.modify fun m : Machine =>
        { m with
          lent := patch m.lent offset
            ((v.aes.feedAll P.cipher (blocks 16 (part v.lent offset len))).1.take fates.moved) }
      (Prog.throw (convertDmaError e) : Serve Unit))
      (fun _ => During m₀ pid id (v.dma P offset len)) E A := by
    intro e hcalm
    refine Triple.bind (Q := fun _ => During m₀ pid id
      { v with
        lent := patch v.lent offset
          ((v.aes.feedAll P.cipher (blocks 16 (part v.lent offset len))).1.take fates.moved) })
      (Triple.modify fun s hs => ?_) fun _ =>
        Triple.throw fun s hs => hE _ s _ hcalm (List.length_take_le' _ _) hs
    subst hs
    exact ⟨hm.context, hm.others, congrArg (patch · offset _) hm.lent, hm.aes, hm.power,
      hm.unclocked, hm.kept⟩
  refine Triple.ite (fun _ => ?_) fun hzero => Triple.pure fun s hs => ?_
  · split
    · next e htx =>
      refine Triple.throw fun s hs => hE _ s [] (fun hcalm => ?_) (Nat.zero_le _) ?_
      · rw [hcalm.dmaTx] at htx
        cases htx
      · rw [patch_nil, hs]
        exact hm
    · next e _ hrx =>
      refine hbroken e fun hcalm => ?_
      rw [hcalm.dmaRx] at hrx
      cases hrx
    · next e _ _ hwait =>
      refine hbroken e fun hcalm => ?_
      rw [hcalm.dmaWait] at hwait
      cases hwait
    · refine Triple.modify fun s hs => ?_
      subst hs
      exact ⟨hm.context, hm.others, congrArg (patch · offset _) hm.lent, rfl, hm.power, hunclocked,
        hm.kept⟩
  · have hempty : v.dma P offset len = v := by
      have hpart : part v.lent offset len = [] := by
        rw [part, Nat.eq_zero_of_not_pos hzero, List.take_zero]
      unfold View.dma
      rw [hpart, blocks_nil]
      show { v with lent := patch v.lent offset [] } = v
      rw [patch_nil]
    rw [hempty, hs]
    exact hm

/-- The view after the block that is not whole. -/
def View.tail (P : Platform) (v : View) (offset len : Nat) : View :=
  if len = 0 then v
  else
    let fed := v.aes.feed P.cipher (pad (part v.lent offset len))
    { v with
      context := { v.context with finalized := true }
      lent := patch v.lent offset (fed.1.take len)
      aes := fed.2 }

theorem executeTail_spec (hclock : v.power.clock .aes = true) {offset len : Nat} :
    Triple (During m₀ pid msg.transferId v) (executeTail P msg pid offset len)
      (fun _ => During m₀ pid msg.transferId (v.tail P offset len)) E A := by
  unfold View.tail
  refine Triple.ite (fun hzero => ?_) fun hpos => ?_
  · rw [if_pos hzero]
    exact Triple.pure fun s hs => hs
  · rw [if_neg hpos]
    refine Triple.get_bind fun m hm => ?_
    rw [hm.lent, hm.aes]
    have hunclocked : (m.uses .aes).unclocked = v.unclocked := by
      show (m.unclocked || !m.power.clock .aes) = _
      rw [hm.unclocked, hm.power, hclock, Bool.not_true, Bool.or_false]
    refine Triple.bind (Q := fun _ => During m₀ pid msg.transferId
      { v with
        lent := patch v.lent offset ((v.aes.feed P.cipher (pad (part v.lent offset len))).1.take len)
        aes := (v.aes.feed P.cipher (pad (part v.lent offset len))).2 })
      (Triple.modify fun s hs => ?_) fun _ => updateContext_spec
    subst hs
    exact ⟨hm.context, hm.others, congrArg (patch · offset _) hm.lent, rfl, hm.power, hunclocked,
      hm.kept⟩

theorem advance_spec (hfits : v.context.mode.SumsFit P msg.len) :
    Triple (During m₀ pid msg.transferId v) (advance P msg pid)
      (fun _ => During m₀ pid msg.transferId
        { v with
          context := v.context.afterRun msg.direction msg.len
            (part v.lent msg.offset.toNat msg.len.toNat) v.aes.chain.hash }) E A := by
  refine Triple.bind lookupContext_spec fun context => Triple.assume fun hcontext => ?_
  subst hcontext
  refine Triple.get_bind fun m hm => ?_
  rw [hm.lent, hm.aes]
  refine Triple.pre (P := During m₀ pid msg.transferId v) ?_ fun s hs => hs ▸ hm
  obtain ⟨⟨keySlot, finalized, mode⟩, lent, aes, power, unclocked⟩ := v
  cases mode with
  | ecb => exact Triple.pure fun s hs => hs
  | ctr ctr => exact updateContext_spec
  | gcm aadlen datalen iv ctr ghash =>
    exact Triple.bind (arithmetic_spec hfits.1) fun _ =>
      Triple.bind (arithmetic_spec hfits.2) fun _ => updateContext_spec
  | cbc iv =>
    unfold AesContext.afterRun
    refine Triple.ite (fun hdirection => ?_) fun hdirection => ?_
    · rw [if_pos hdirection]
      exact updateContext_spec
    · rw [if_neg hdirection]
      exact Triple.pure fun s hs => hs

end Execute

/-! ## 4. `aes_execute` -/

/-- Every clock is as the power manager believes. -/
def PowerManager.Sound (pm : PowerManager) : Prop :=
  ∀ peripheral, pm.enabledPeripherals peripheral = pm.clock peripheral

section Power

variable {pm : PowerManager} {peripheral other : PeripheralId} {enabled : Bool}

theorem PowerManager.Sound.clock (h : pm.Sound) :
    (pm.setPeripheralEnabled peripheral enabled).clock other =
      if other = peripheral then enabled else pm.clock other := by
  have hclock := h peripheral
  unfold PowerManager.setPeripheralEnabled
  cases enabled <;> cases hon : pm.enabledPeripherals peripheral <;> rw [hon] at hclock <;>
    by_cases heq : other = peripheral <;> simp [heq, Function.update, ← hclock]

theorem PowerManager.Sound.set (h : pm.Sound) :
    (pm.setPeripheralEnabled peripheral enabled).Sound := by
  intro other
  have hother := h other
  unfold PowerManager.setPeripheralEnabled
  cases enabled <;> cases hon : pm.enabledPeripherals peripheral <;>
    by_cases heq : other = peripheral <;> simp [heq, Function.update, hother]
  all_goals exact heq ▸ hother

end Power

theorem Aes.init_good (encrypting : Bool) (mode : HwMode) :
    (Aes.init encrypting mode).chain.iv.length = 16 := by
  cases mode with
  | ecb key => rfl
  | cbc key iv => exact Words.length_toBytes iv
  | gcm key iv ctr ghash => exact Words.length_toBytes _
  | counter key ctr => exact Words.length_toBytes ctr

theorem runMode_fits {key : Bytes} {mode : AesContextMode} {encrypting : Bool} {text : Bytes}
    (h : mode.isStream = false → text.length % 16 = 0) :
    (Aes.init encrypting (runMode key mode)).kind.Fits text := by
  cases mode with
  | ecb => exact .inl (Nat.dvd_of_mod_eq_zero (h rfl))
  | cbc iv => exact .inl (Nat.dvd_of_mod_eq_zero (h rfl))
  | gcm aadlen datalen iv ctr ghash => exact .inr (.inr rfl)
  | ctr ctr => exact .inr (.inl rfl)

/-- What the peripheral makes of a piece of text. -/
def ranText (P : Platform) (direction : Direction) (key : Bytes) (mode : AesContextMode)
    (data : Bytes) : Bytes × Aes :=
  ((Aes.init (direction = .encrypt) (runMode key mode)).setupForDma data.length).feedText
    P.cipher data

/-- The view after a run. -/
def View.executed (P : Platform) (msg : AesExecute) (key : Bytes) (v : View) : View :=
  let data := part v.lent msg.offset.toNat msg.len.toNat
  let ran := ranText P msg.direction key v.context.mode data
  let before := v.context.beforeRun msg.direction data
  let context := if msg.len.toNat % 16 = 0 then before else { before with finalized := true }
  { context := context.afterRun msg.direction msg.len ran.1 ran.2.chain.hash
    lent := patch v.lent msg.offset.toNat ran.1
    aes := ran.2
    power := (v.power.setPeripheralEnabled .aes true).setPeripheralEnabled .aes false
    unclocked := v.unclocked }

/-- What is left when a request is refused. -/
inductive Refused (fates : Fates) (msg : AesExecute) (sender : Pid) (m₀ m : Machine) : Prop where
  | checked (h : m = m₀ ∨ m = m₀.idle fates)
  | rolledOver (context : AesContext) (h : During (m₀.idle fates) sender msg.transferId
      ⟨context, m₀.lent, m₀.aes, m₀.power, m₀.unclocked⟩ m)
      (hchecked : Checked m₀ msg sender context)
  | unclocked (hfails : fates.enable.isSome) (context : AesContext)
      (h : During (m₀.idle fates) sender msg.transferId
        ⟨context.beforeRun msg.direction (part m₀.lent msg.offset.toNat msg.len.toNat), m₀.lent,
          m₀.aes, m₀.power, m₀.unclocked⟩ m)
      (hchecked : Checked m₀ msg sender context)
  | broken (hfails : ¬fates.Calm) (context : AesContext) (moved : Bytes) (aes : Aes)
      (power : PowerManager) (hmoved : moved.length ≤ msg.len.toNat)
      (h : During (m₀.idle fates) sender msg.transferId
        ⟨context.beforeRun msg.direction (part m₀.lent msg.offset.toNat msg.len.toNat),
          patch m₀.lent msg.offset.toNat moved, aes, power, m₀.unclocked⟩ m)
      (hchecked : Checked m₀ msg sender context)

section Execute

variable {P : Platform} {fates : Fates} {m₀ : Machine} {sender : Pid} {msg : AesExecute}
  {v : View} {A : Panic → Prop}

theorem length_feedAll (hw : Aes) {text : Bytes} (hdvd : 16 ∣ text.length)
    (hs : hw.chain.iv.length = 16) (hclen : text.length ≤ hw.clen) :
    (hw.feedAll P.cipher (blocks 16 text)).1.length = text.length := by
  rw [Aes.feedAll_process P.cipher hdvd hw hs fun _ => hclen]
  exact (process_good _ _ _ hs (.inl hdvd)).1

theorem length_feedText (hw : Aes) {text : Bytes} (hs : hw.chain.iv.length = 16)
    (hclen : hw.clen = text.length) (hfits : hw.kind.Fits text) :
    (hw.feedText P.cipher text).1.length = text.length := by
  rw [(Aes.feedText_process P.cipher hw hs hclen hfits).1]
  exact (process_good _ _ _ hs hfits).1

theorem length_ranText {direction : Direction} {key data : Bytes} {mode : AesContextMode}
    (h : mode.isStream = false → data.length % 16 = 0) :
    (ranText P direction key mode data).1.length = data.length :=
  length_feedText ((Aes.init (direction = .encrypt) (runMode key mode)).setupForDma data.length)
    (Aes.init_good _ _) rfl (runMode_fits h)

/-- The whole blocks and then the rest. -/
theorem View.dma_tail (v : View) (offset len : Nat) (hwithin : offset + len ≤ v.lent.length)
    (hs : v.aes.chain.iv.length = 16) (hclen : v.aes.clen = len) :
    (v.dma P offset (len / 16 * 16)).tail P (offset + len / 16 * 16) (len - len / 16 * 16) =
      { v with
        context := if len % 16 = 0 then v.context else { v.context with finalized := true }
        lent := patch v.lent offset (v.aes.feedText P.cipher (part v.lent offset len)).1
        aes := (v.aes.feedText P.cipher (part v.lent offset len)).2 } := by
  have hlen : (part v.lent offset len).length = len := length_part hwithin
  have hle : len / 16 * 16 ≤ len := Nat.div_mul_le_self _ _
  have htake : (part v.lent offset len).take (len / 16 * 16) = part v.lent offset (len / 16 * 16) :=
    take_part hle
  have haligned : (part v.lent offset (len / 16 * 16)).length = len / 16 * 16 :=
    length_part (by omega)
  have hwhole : 16 ∣ (part v.lent offset (len / 16 * 16)).length := by
    rw [haligned]
    exact Nat.dvd_mul_left _ _
  have hfed := Aes.feedAll_process P.cipher hwhole v.aes hs fun _ => by omega
  have hfedlen : (v.aes.feedAll P.cipher (blocks 16 (part v.lent offset (len / 16 * 16)))).1.length =
      len / 16 * 16 := by
    rw [hfed]
    exact (process_good _ _ _ hs (.inl hwhole)).1.trans haligned
  have hzero : (len - len / 16 * 16 = 0) ↔ len % 16 = 0 := by omega
  unfold Aes.feedText View.tail View.dma
  dsimp only
  rw [hlen, htake]
  by_cases hrest : len % 16 = 0
  · rw [if_pos (hzero.2 hrest), if_pos (hzero.2 hrest), if_pos hrest]
  · have hwithin' : offset + (v.aes.feedAll P.cipher
        (blocks 16 (part v.lent offset (len / 16 * 16)))).1.length ≤ v.lent.length := by omega
    have hafter := part_patch_after (n := len - len / 16 * 16) hwithin'
    have hpatch := patch_patch (b := ((v.aes.feedAll P.cipher
      (blocks 16 (part v.lent offset (len / 16 * 16)))).2.feed P.cipher
        (pad (part v.lent (offset + len / 16 * 16) (len - len / 16 * 16)))).1.take
          (len - len / 16 * 16)) hwithin'
    rw [hfedlen] at hafter hpatch
    rw [if_neg (hrest ∘ hzero.1), if_neg (hrest ∘ hzero.1), if_neg hrest, drop_part, hafter, hpatch]

/-- Waiting for the disk-encryption transfer changes only that transfer. -/
theorem Machine.idle_eq (fates : Fates) (m : Machine) : ∃ transferring completed,
    m.idle fates = { m with transferring := transferring, completed := completed } := by
  unfold Machine.idle Machine.transferEnds
  split
  · split
    · exact ⟨_, _, rfl⟩
    · exact ⟨m.transferring, m.completed, rfl⟩
  · exact ⟨m.transferring, m.completed, rfl⟩

theorem beforeRun_sums {context : AesContext} {direction : Direction} {data : Bytes} {len : UInt32}
    (h : context.mode.SumsFit P len) : (context.beforeRun direction data).mode.SumsFit P len := by
  obtain ⟨keySlot, finalized, mode⟩ := context
  cases mode with
  | cbc iv =>
    unfold AesContext.beforeRun
    dsimp only
    split <;> trivial
  | ecb => exact h
  | gcm aadlen datalen iv ctr ghash => exact h
  | ctr ctr => exact h

theorem aesExecute_spec (hsound : m₀.power.Sound)
    (hfits : P.Fits (2 ^ 32 ≤ msg.offset.toNat + msg.len.toNat))
    (hchecks : ∀ context, Checked m₀ msg sender context →
      fates.disable = none ∧ context.mode.SumsFit P msg.len)
    {key : Bytes} (hkey : ∀ context, m₀.aesContexts sender msg.transferId = some context →
      m₀.Readable context.keySlot key) :
    Triple (· = m₀) (aesExecute P fates msg sender)
      (fun _ m => ∃ context, Checked m₀ msg sender context ∧
        context.mode.rollsOver msg.len = false ∧
        During (m₀.idle fates) sender msg.transferId
          (View.executed P msg key ⟨context, m₀.lent, m₀.aes, m₀.power, m₀.unclocked⟩) m)
      (fun _ m => Refused fates msg sender m₀ m) A := by
  obtain ⟨transferring, completed, hidle⟩ := m₀.idle_eq fates
  refine Triple.bind (checkExecute_spec hfits fun _ _ => .checked) fun context => ?_
  refine Triple.pre (P := fun m => Checked m₀ msg sender context ∧
    During (m₀.idle fates) sender msg.transferId
      ⟨context, m₀.lent, m₀.aes, m₀.power, m₀.unclocked⟩ m) (Triple.assume fun hchecked => ?_)
    fun m hm => ⟨hm.2, ?_⟩
  swap
  · rw [hm.1, hidle]
    exact ⟨hm.2.found, fun _ _ _ => rfl, rfl, rfl, rfl, rfl, rfl⟩
  have hreadable : (m₀.idle fates).Readable context.keySlot key := by
    have h := hkey context hchecked.found
    rw [hidle]
    exact ⟨h.magic, h.reads, h.size⟩
  refine Triple.bind (readAesKey_spec (v := ⟨context, m₀.lent, m₀.aes, m₀.power, m₀.unclocked⟩)
    hreadable) fun k => Triple.assume fun hk => ?_
  subst hk
  -- Whether the counter would roll over is known from here on.
  by_cases hroll : context.mode.rollsOver msg.len = true
  · refine Triple.bind (Q := fun _ _ => False) ?_ fun _ => fun _ hf => hf.elim
    obtain ⟨keySlot, finalized, mode⟩ := context
    cases mode with
    | ecb => cases hroll
    | cbc iv => cases hroll
    | gcm aadlen datalen iv ctr ghash => cases hroll
    | ctr ctr =>
      have hroll : ctr.isCtrRollover (msg.len / 16) = true := hroll
      show Triple _ (if ctr.isCtrRollover (msg.len / 16) = true then _ else _) _ _ _
      rw [if_pos hroll]
      exact Triple.throw fun m hm => .rolledOver _ hm hchecked
  have hroll : context.mode.rollsOver msg.len = false := Bool.eq_false_iff.2 hroll
  refine Triple.bind (executeMode_spec (v := ⟨context, m₀.lent, m₀.aes, m₀.power, m₀.unclocked⟩)
    fun e m hover => absurd hover (by rw [hroll]; nofun)) fun mode => Triple.assume fun hmode => ?_
  subst hmode
  refine Triple.bind (enablePeripheral_spec fun e m hfails hm =>
    .unclocked hfails context hm hchecked) fun _ => Triple.assume fun _ => ?_
  refine Triple.bind useAes_spec fun _ => ?_
  have hclock : (m₀.power.setPeripheralEnabled .aes true).clock .aes = true := by
    rw [hsound.clock, if_pos rfl]
  have hdata : (part m₀.lent msg.offset.toNat msg.len.toNat).length = msg.len.toNat :=
    length_part hchecked.within
  dsimp only
  rw [hclock, Bool.not_true, Bool.or_false]
  have haligned : (part m₀.lent msg.offset.toNat (msg.len.toNat / 16 * 16)).length =
      msg.len.toNat / 16 * 16 :=
    length_part (by have hle := Nat.div_mul_le_self msg.len.toNat 16; have hin := hchecked.within; omega)
  have hmoved : ∀ moved : Bytes, moved.length ≤ (((Aes.init (msg.direction = .encrypt)
      (runMode k context.mode)).setupForDma msg.len.toNat).feedAll P.cipher
        (blocks 16 (part m₀.lent msg.offset.toNat (msg.len.toNat / 16 * 16)))).1.length →
      moved.length ≤ msg.len.toNat := by
    intro moved hle
    have hdvd : 16 ∣ (part m₀.lent msg.offset.toNat (msg.len.toNat / 16 * 16)).length :=
      haligned.symm ▸ Nat.dvd_mul_left _ _
    have hclen : (part m₀.lent msg.offset.toNat (msg.len.toNat / 16 * 16)).length ≤
        msg.len.toNat := haligned.symm ▸ Nat.div_mul_le_self _ _
    rw [length_feedAll ((Aes.init (msg.direction = .encrypt) (runMode k context.mode)).setupForDma
      msg.len.toNat) hdvd (Aes.init_good _ _) hclen] at hle
    exact Nat.le_trans hle hclen
  refine Triple.bind (executeDma_spec hclock fun e m moved hfails hlen hm =>
    .broken hfails context moved _ _ (hmoved moved hlen) hm hchecked) fun _ =>
      Triple.bind (executeTail_spec hclock) fun _ => ?_
  rw [View.dma_tail _ _ msg.len.toNat hchecked.within (Aes.init_good _ _) rfl]
  dsimp only
  have hran : ((Aes.init (msg.direction = .encrypt) (runMode k context.mode)).setupForDma
      msg.len.toNat).feedText P.cipher (part m₀.lent msg.offset.toNat msg.len.toNat) =
      ranText P msg.direction k context.mode (part m₀.lent msg.offset.toNat msg.len.toNat) := by
    rw [ranText, hdata]
  rw [hran]
  have hout : (ranText P msg.direction k context.mode
      (part m₀.lent msg.offset.toNat msg.len.toNat)).1.length = msg.len.toNat := by
    rw [length_ranText fun hstream => ?_, hdata]
    rw [hdata]
    exact hchecked.whole hstream
  refine Triple.bind (advance_spec ?_) fun _ => Triple.bind
    (disablePeripheral_spec (hchecks context hchecked).1) fun _ => Triple.pure fun m hm => ⟨context, hchecked, hroll, ?_⟩
  · dsimp only
    split
    · exact beforeRun_sums (hchecks context hchecked).2
    · exact beforeRun_sums (hchecks context hchecked).2
  · have hwithin := hchecked.within
    rw [← hout] at hwithin
    have hpart := part_patch hwithin
    rw [hout] at hpart
    dsimp only at hm
    rw [hpart] at hm
    exact hm

end Execute

/-! ## 5. `aes_aad` and `aes_get_tag` -/

/-- The state of a GCM context. -/
structure GcmState where
  aadlen : UInt32
  datalen : UInt32
  iv : GcmIv
  ctr : UInt32
  ghash : Words

def GcmState.mode (g : GcmState) : AesContextMode := .gcm g.aadlen g.datalen g.iv g.ctr g.ghash

/-- The hash value after more is absorbed. -/
def GcmState.absorbed (P : Platform) (key : Bytes) (g : GcmState) (input : Bytes) : Words :=
  Words.ofBytes ((P.cipher key).hashText g.ghash.toBytes input)

/-- The view after additional data was absorbed. -/
def View.afterAad (P : Platform) (key aad : Bytes) (g : GcmState) (v : View) : View :=
  { v with
    context := { v.context with
      mode := { g with
        aadlen := g.aadlen + UInt32.ofNat aad.length
        ghash := g.absorbed P key aad : GcmState }.mode }
    aes := (Aes.init true (.gcm key g.iv g.ctr g.ghash)).processAad P.cipher aad
    power := (v.power.setPeripheralEnabled .aes true).setPeripheralEnabled .aes false }

/-- What `aes_get_tag` returns. -/
def GcmState.tag (P : Platform) (key : Bytes) (g : GcmState) : Bytes :=
  xor (g.absorbed P key (tagLengths g.aadlen g.datalen)).toBytes
    ((P.cipher key).encrypt (Iv.fromGcmParams g.iv 1).toBytes)

/-- A request that is refused leaves its context, or one that it has sealed. -/
structure LeftBe (fates : Fates) (pid : Pid) (id : UInt8) (m₀ m : Machine) (context : AesContext) :
    Prop where
  found : m₀.aesContexts pid id = some context
  during : ∃ finalized,
    (finalized = context.finalized ∨
      finalized = true ∧ fates.enable.isSome ∧ ∃ g : GcmState, context.mode = g.mode) ∧
    During (m₀.idle fates) pid id
      ⟨{ context with finalized := finalized }, m₀.lent, m₀.aes, m₀.power, m₀.unclocked⟩ m

section Gcm

variable {P : Platform} {fates : Fates} {m₀ : Machine} {sender : Pid} {id : UInt8} {aad : Bytes}
  {A : Panic → Prop}

/-- A context is looked up once the peripheral is idle. -/
theorem idleLookup_spec {α : Type} {f : AesContext → Serve α} {R : α → Machine → Prop}
    {E : CryptoError → Machine → Prop} (hE : ∀ e, E e (m₀.idle fates))
    (hf : ∀ context, m₀.aesContexts sender id = some context →
      Triple (During (m₀.idle fates) sender id
        ⟨context, m₀.lent, m₀.aes, m₀.power, m₀.unclocked⟩) (f context) R E A) :
    Triple (· = m₀) (do
      ensureAesIdle fates
      let context ← lookupContext sender id
      f context) R E A := by
  obtain ⟨transferring, completed, hidle⟩ := m₀.idle_eq fates
  refine Triple.bind (Q := fun _ s => s = m₀.idle fates)
    (Triple.modify fun s hs => by rw [hs]; rfl) fun _ => ?_
  refine Triple.bind (Q := fun context s => m₀.aesContexts sender id = some context ∧
    During (m₀.idle fates) sender id ⟨context, m₀.lent, m₀.aes, m₀.power, m₀.unclocked⟩ s) ?_
    fun context => Triple.assume fun hfound => hf context hfound
  refine Triple.get_bind fun s hs => ?_
  subst hs
  refine Triple.okOr (fun context hfound s hs => ?_) fun _ s hs => hs ▸ hE _
  rw [hidle] at hfound
  refine ⟨hfound, ?_⟩
  rw [hs, hidle]
  exact ⟨hfound, fun _ _ _ => rfl, rfl, rfl, rfl, rfl, rfl⟩

theorem readable_idle {slot : Fin 32} {key : Bytes} (h : m₀.Readable slot key) :
    (m₀.idle fates).Readable slot key := by
  obtain ⟨transferring, completed, hidle⟩ := m₀.idle_eq fates
  rw [hidle]
  exact ⟨h.magic, h.reads, h.size⟩

theorem aesAad_spec (hsound : m₀.power.Sound)
    (hchecks : ∀ context (g : GcmState), m₀.aesContexts sender id = some context →
      context.mode = g.mode → context.finalized = false → g.datalen = 0 → fates.enable = none →
        fates.disable = none ∧ P.Fits (2 ^ 32 ≤ g.aadlen.toNat + aad.length))
    {key : Bytes} (hkey : ∀ context, m₀.aesContexts sender id = some context →
      m₀.Readable context.keySlot key) :
    Triple (· = m₀) (aesAad P fates id aad sender)
      (fun _ m => fates.enable = none ∧ ∃ (context : AesContext) (g : GcmState),
        m₀.aesContexts sender id = some context ∧
        context.finalized = false ∧ context.mode = g.mode ∧ g.datalen = 0 ∧
        During (m₀.idle fates) sender id
          (View.afterAad P key aad g ⟨context, m₀.lent, m₀.aes, m₀.power, m₀.unclocked⟩) m)
      (fun _ m => m = m₀.idle fates ∨ ∃ context, m₀.aesContexts sender id = some context ∧
        During (m₀.idle fates) sender id
          ⟨context, m₀.lent, m₀.aes, m₀.power, m₀.unclocked⟩ m) A := by
  have hleft : ∀ context m, m₀.aesContexts sender id = some context →
      During (m₀.idle fates) sender id ⟨context, m₀.lent, m₀.aes, m₀.power, m₀.unclocked⟩ m →
      m = m₀.idle fates ∨ ∃ context, m₀.aesContexts sender id = some context ∧
        During (m₀.idle fates) sender id
          ⟨context, m₀.lent, m₀.aes, m₀.power, m₀.unclocked⟩ m :=
    fun context m hfound hm => .inr ⟨context, hfound, hm⟩
  refine idleLookup_spec (fun _ => .inl rfl) fun context hfound => ?_
  refine Triple.ite (fun _ => Triple.throw fun m hm => hleft _ m hfound hm) fun hlive => ?_
  refine Triple.bind (readAesKey_spec (v := ⟨context, m₀.lent, m₀.aes, m₀.power, m₀.unclocked⟩)
    (readable_idle (hkey context hfound))) fun k => Triple.assume fun hk => ?_
  subst hk
  obtain ⟨keySlot, finalized, mode⟩ := context
  cases mode with
  | ecb => exact Triple.throw fun m hm => hleft _ m hfound hm
  | cbc iv => exact Triple.throw fun m hm => hleft _ m hfound hm
  | ctr ctr => exact Triple.throw fun m hm => hleft _ m hfound hm
  | gcm aadlen datalen iv ctr ghash =>
    refine Triple.ite (fun _ => Triple.throw fun m hm => hleft _ m hfound hm) fun hnodata => ?_
    refine Triple.bind (enablePeripheral_spec fun e m hfails hm => hleft _ m hfound hm)
      fun _ => Triple.assume fun henable => Triple.bind useAes_spec fun _ =>
        Triple.get_bind fun m hm => ?_
    obtain ⟨hdisable, hfits⟩ := hchecks _ ⟨aadlen, datalen, iv, ctr, ghash⟩ hfound rfl
      (Bool.eq_false_iff.2 hlive) (Decidable.byContradiction hnodata) henable
    have hclock : (m₀.power.setPeripheralEnabled .aes true).clock .aes = true := by
      rw [hsound.clock, if_pos rfl]
    dsimp only at hm
    rw [hclock, Bool.not_true, Bool.or_false] at hm
    rw [hm.aes]
    refine Triple.pre (P := During (m₀.idle fates) sender id _) ?_ fun s hs => hs ▸ hm
    refine Triple.bind (arithmetic_spec hfits) fun _ =>
      Triple.bind updateContext_spec fun _ => ?_
    refine Triple.bind (disablePeripheral_spec hdisable) fun _ => Triple.pure fun s hs => ?_
    exact ⟨henable, _, ⟨aadlen, datalen, iv, ctr, ghash⟩, hfound, Bool.eq_false_iff.2 hlive, rfl,
      Decidable.byContradiction hnodata, hs⟩

/-- One block in counter mode. -/
theorem counter_block (P : Platform) (key : Bytes) (ctr : Iv) (w : Words) :
    ((Aes.init true (.counter key ctr)).feedAll P.cipher (blocks 16 w.toBytes)).1 =
      xor w.toBytes ((P.cipher key).encrypt ctr.toBytes) := by
  have hlen : w.toBytes.length = 16 := w.length_toBytes
  have hdvd : 16 ∣ w.toBytes.length := hlen ▸ Nat.dvd_refl _
  have hfed := Aes.feedAll_process P.cipher hdvd (Aes.init true (.counter key ctr)) (Aes.init_good _ _) nofun
  rw [hfed, Mode.process_short _ _ (List.length_pos_iff.1 (hlen ▸ by decide)) (Nat.le_of_eq hlen)]
  rfl

/-- The clock is left on. -/
theorem aesGetTag_spec (hsound : m₀.power.Sound)
    (hsums : fates.enable = none → ∀ context (g : GcmState), m₀.aesContexts sender id = some context →
      context.mode = g.mode → P.Fits (2 ^ 32 ≤ g.aadlen.toNat * 8) ∧
        P.Fits (2 ^ 32 ≤ g.datalen.toNat * 8))
    {key : Bytes} (hkey : ∀ context, m₀.aesContexts sender id = some context →
      m₀.Readable context.keySlot key) :
    Triple (· = m₀) (aesGetTag P fates id sender)
      (fun tag m => fates.enable = none ∧ ∃ (context : AesContext) (g : GcmState) (aes : Aes),
        m₀.aesContexts sender id = some context ∧ context.mode = g.mode ∧ tag = g.tag P key ∧
        During (m₀.idle fates) sender id
          ⟨{ context with finalized := true }, m₀.lent, aes,
            m₀.power.setPeripheralEnabled .aes true, m₀.unclocked⟩ m)
      (fun _ m => m = m₀.idle fates ∨ ∃ context, LeftBe fates sender id m₀ m context) A := by
  have hleft : ∀ context m, m₀.aesContexts sender id = some context →
      During (m₀.idle fates) sender id ⟨context, m₀.lent, m₀.aes, m₀.power, m₀.unclocked⟩ m →
      m = m₀.idle fates ∨ ∃ context, LeftBe fates sender id m₀ m context :=
    fun context m hfound hm => .inr ⟨context, hfound, context.finalized, .inl rfl, hm⟩
  refine idleLookup_spec (fun _ => .inl rfl) fun context hfound => ?_
  obtain ⟨keySlot, finalized, mode⟩ := context
  cases mode with
  | ecb => exact Triple.throw fun m hm => hleft _ m hfound hm
  | cbc iv => exact Triple.throw fun m hm => hleft _ m hfound hm
  | ctr ctr => exact Triple.throw fun m hm => hleft _ m hfound hm
  | gcm aadlen datalen iv ctr ghash =>
    have hclock : (m₀.power.setPeripheralEnabled .aes true).clock .aes = true := by
      rw [hsound.clock, if_pos rfl]
    have hreadable : (m₀.idle fates).Readable keySlot key := readable_idle (hkey _ hfound)
    refine Triple.bind updateContext_spec fun _ => ?_
    refine Triple.bind (readAesKey_spec (v := ⟨⟨keySlot, true, .gcm aadlen datalen iv ctr ghash⟩,
      m₀.lent, m₀.aes, m₀.power, m₀.unclocked⟩) hreadable) fun k => Triple.assume fun hk => ?_
    subst hk
    refine Triple.bind (enablePeripheral_spec fun e m hfails hm =>
      .inr ⟨_, hfound, true,
        .inr ⟨rfl, hfails, ⟨aadlen, datalen, iv, ctr, ghash⟩, rfl⟩, hm⟩) fun _ => Triple.assume fun henable => ?_
    have hfits := hsums henable _ ⟨aadlen, datalen, iv, ctr, ghash⟩ hfound rfl
    refine Triple.bind (arithmetic_spec hfits.1) fun _ => Triple.bind (arithmetic_spec hfits.2)
      fun _ => Triple.bind useAes_spec fun _ => Triple.get_bind fun m hm => ?_
    dsimp only at hm
    rw [hclock, Bool.not_true, Bool.or_false] at hm
    rw [hm.aes]
    refine Triple.pre (P := During (m₀.idle fates) sender id _) ?_ fun s hs => hs ▸ hm
    refine Triple.bind useAes_spec fun _ => Triple.get_bind fun m' hm' => ?_
    dsimp only at hm'
    rw [hclock, Bool.not_true, Bool.or_false] at hm'
    rw [hm'.aes]
    refine Triple.pre (P := During (m₀.idle fates) sender id _) ?_ fun s hs => hs ▸ hm'
    refine Triple.bind useAes_spec fun _ => Triple.pure fun s hs => ?_
    dsimp only at hs
    rw [hclock, Bool.not_true, Bool.or_false] at hs
    refine ⟨henable, _, ⟨aadlen, datalen, iv, ctr, ghash⟩, _, hfound, rfl, ?_, hs⟩
    exact counter_block P k _ _

end Gcm

end Crypto
