import KeyOS.Crypto.Contexts

/-!
# The clock of the AES peripheral

It is on whenever a disk-encryption transfer moves data, and off whenever none is in flight, in
every run in which no tag is computed, nothing fails once the clock is on and a wait for the
transfer succeeds.
-/

namespace Crypto

open BlockModes Exec Prog

/-! ## 1. The condition -/

/-- The id counter does not reach its end before a free id is found. -/
def IdFits (P : Platform) (m : Machine) (sender : Pid) : Prop :=
  P.overflowChecks = false ∨
    ∃ id, m.nextContextId ≤ id ∧ id < 255 ∧ m.aesContexts sender id = none

/-- A transfer that still moves data is waited for. -/
def Fates.Waits (fates : Fates) (m : Machine) : Prop :=
  m.transferring = true → fates.idleWait = false

namespace World

def Careful (P : Platform) (w : World) : Act → Prop
  | .aesSetup sender _ _ => IdFits P w.machine sender
  | .aesExecute sender msg _ fates =>
    fates.Calm ∧ P.Fits (2 ^ 32 ≤ (received msg).offset.toNat + msg.len.toNat) ∧
      ∀ context, w.machine.aesContexts sender (received msg).transferId = some context →
        fates.Waits w.machine ∧ context.mode.SumsFit P msg.len
  | .aesAad sender id aad fates =>
    fates.disable = none ∧
      ∀ context (g : GcmState), w.machine.aesContexts sender id = some context →
        context.mode = g.mode →
          fates.Waits w.machine ∧ P.Fits (2 ^ 32 ≤ g.aadlen.toNat + aad.length)
  -- No tag is computed.
  | .aesGcmTag sender id fates =>
    ∀ context (g : GcmState), w.machine.aesContexts sender id = some context →
      context.mode = g.mode → fates.enable.isSome
  | .shaSetContext _ msg _ =>
    msg.contextId = none → P.Fits (w.machine.lastShaContextId.toNat + 1 = 2 ^ 32)
  | .diskEncrypt _ fates => fates.disable = none
  | .transferComplete fates => fates.disable = none
  | _ => True

def CarefulRun (P : Platform) (w : World) : List Act → Prop
  | [] => True
  | act :: acts => Careful P w act ∧ CarefulRun P (w.step P act) acts

end World

/-! ## 2. What leaves the clocks alone -/

/-- What the clock of the AES peripheral depends on. -/
def Machine.clocks (m : Machine) :=
  (m.power.clock .aes, m.diskEncryptInFlight, m.transferring, m.completed)

structure Clocks (m : Machine) : Prop where
  during : m.transferring = true → m.power.clock .aes = true
  off : m.power.clock .aes = true → m.diskEncryptInFlight = true
  flight : m.transferring = true → m.diskEncryptInFlight = true
  pending : m.completed = true → m.diskEncryptInFlight = true ∧ m.transferring = false

/-- What a careful call leaves of the clocks. -/
def Settled (m₀ m : Machine) : Prop :=
  Clocks m ∧ m.diskEncryptInFlight = m₀.diskEncryptInFlight

theorem Clocks.congr {m m' : Machine} (h : Clocks m) (heq : m'.clocks = m.clocks) : Clocks m' := by
  obtain ⟨hpower, hflight, htransferring, hcompleted⟩ :
      m'.power.clock .aes = m.power.clock .aes ∧
      m'.diskEncryptInFlight = m.diskEncryptInFlight ∧ m'.transferring = m.transferring ∧
      m'.completed = m.completed := by
    simpa only [Machine.clocks, Prod.mk.injEq] using heq
  exact ⟨by rw [htransferring, hpower]; exact h.during, by rw [hpower, hflight]; exact h.off,
    by rw [htransferring, hflight]; exact h.flight,
    by rw [hcompleted, hflight, htransferring]; exact h.pending⟩

section Still

variable {P : Platform} {fates : Fates} {pid : Pid} {id : UInt8}
  {m₀ : Machine} {A : Panic → Prop}

/-- A context may have gone; none is new or changed. -/
def Fewer (m₀ m : Machine) : Prop :=
  ∀ pid id context, m.aesContexts pid id = some context → m₀.aesContexts pid id = some context

/-- Nothing has changed for the clock. -/
abbrev StillSound (m₀ m : Machine) : Prop :=
  m.power.Sound ∧ m.clocks = m₀.clocks ∧ Fewer m₀ m

theorem Clocks.still {m s : Machine} (h : Clocks m) (hs : StillSound m s) : Settled m s :=
  ⟨h.congr hs.2.1, congrArg (·.2.1) hs.2.1⟩

theorem setAesKey_still {slot : Fin 32} {key : Bytes} :
    Triple (StillSound m₀) (setAesKey slot key) (fun _ => StillSound m₀) (fun _ => StillSound m₀) fun _ => True := by
  refine Triple.get_bind fun m hm => ?_
  refine Triple.ite (fun _ => Triple.throw fun s hs => hs ▸ hm) fun _ => ?_
  refine Triple.bind (Q := fun _ => StillSound m₀)
    (Triple.require (fun _ s hs => hs ▸ hm) fun _ => trivial) fun _ => ?_
  exact Triple.modify fun s hs => hs

theorem fewer_none {m : Machine} (h : Fewer m₀ m) : Fewer m₀ (m.setContext pid id none) := by
  intro pid' id' context hcontext
  unfold Machine.setContext at hcontext
  dsimp only at hcontext
  split at hcontext
  · cases hcontext
  · exact h pid' id' context hcontext

theorem aesClear_still :
    Triple (StillSound m₀) (aesClear id pid) (fun _ => StillSound m₀) (fun _ => StillSound m₀) fun _ => True := by
  refine Triple.get_bind fun m hm => ?_
  split
  · refine Triple.bind (Q := fun _ => StillSound m₀) (Triple.modify fun s hs => ?_) fun _ => ?_
    · subst hs
      exact ⟨hm.1, hm.2.1, fewer_none hm.2.2⟩
    refine Triple.bind (Q := fun _ => StillSound m₀)
      (Triple.unwrap (setAesKey_still.conseq (fun _ hs => hs) (fun _ _ hs => hs)
        (fun _ _ _ => trivial) fun _ hp => hp)) fun _ => ?_
    exact Triple.modify fun s hs => hs
  · exact Triple.pure fun s hs => hs ▸ hm

/-- The SHA clock is another one. -/
theorem switchSha_still {fate : Option UInt32} {enabled : Bool} :
    Triple (StillSound m₀)
      (call .xousError fate <| Prog.modify fun m =>
        { m with power := m.power.setPeripheralEnabled .sha enabled })
      (fun _ => StillSound m₀) (fun _ => StillSound m₀) A := by
  refine call_keep (fun _ m hm => hm) (Triple.modify fun m hm => ⟨hm.1.set, ?_, hm.2.2⟩)
  refine Eq.trans ?_ hm.2.1
  show ((m.power.setPeripheralEnabled .sha enabled).clock .aes, _, _, _) = _
  rw [hm.1.clock, if_neg nofun]
  rfl

theorem hmac_still {algo : ShaAlgo} {key data : Bytes} :
    Triple (StillSound m₀) (hmac P fates algo key data) (fun _ => StillSound m₀)
      (fun _ => StillSound m₀) fun _ => True := by
  refine Triple.get_bind fun m hm => ?_
  refine Triple.bind (Q := fun _ => StillSound m₀) (Triple.pre (P := StillSound m₀)
    (Triple.onlyIf (fun _ => switchSha_still) fun _ s hs => hs) fun s hs => hs ▸ hm) fun _ => ?_
  refine Triple.bind (Q := fun _ => StillSound m₀) (Triple.modify fun s hs => hs) fun _ => ?_
  exact Triple.bind (Q := fun _ => StillSound m₀)
    (Triple.onlyIf (fun _ => switchSha_still) fun _ s hs => hs) fun _ => Triple.pure fun s hs => hs

theorem shaUpdate_still {contextId length : UInt32} :
    Triple (StillSound m₀) (shaUpdate P fates pid contextId length) (fun _ => StillSound m₀)
      (fun _ => StillSound m₀) fun _ => True := by
  have hcall : ∀ {ε : Type} (convert : ε → CryptoError) (fate : Option ε), Triple (StillSound m₀)
      (call convert fate (return ())) (fun _ => StillSound m₀) (fun _ => StillSound m₀)
      fun _ => True := fun convert fate => call_keep (fun _ s hs => hs) (Triple.pure fun s hs => hs)
  refine Triple.get_bind fun m hm => ?_
  refine Triple.bind (Q := fun _ => StillSound m₀)
    (Triple.okOr (fun _ _ s hs => hs ▸ hm) fun _ s hs => hs ▸ hm) fun context => ?_
  refine Triple.bind (Q := fun _ => StillSound m₀) (Triple.modify fun s hs => hs) fun _ => ?_
  refine Triple.ite (fun _ => Triple.throw fun s hs => hs) fun _ => ?_
  refine Triple.bind (hcall _ _) fun _ => Triple.bind (hcall _ _) fun _ =>
    Triple.bind (hcall _ _) fun _ => ?_
  exact Triple.bind (Q := fun _ => StillSound m₀) (Triple.modify fun s hs => hs) fun _ =>
    Triple.pure fun s hs => hs

theorem retainSha_still {keep : Pid × UInt32 → Bool} :
    Triple (StillSound m₀) (retainSha fates keep) (fun _ => StillSound m₀) (fun _ => StillSound m₀)
      fun _ => True := by
  refine Triple.get_bind fun m hm => ?_
  refine Triple.bind (Q := fun _ => StillSound m₀) (Triple.modify fun s hs => hs ▸ hm) fun _ => ?_
  exact Triple.onlyIf (fun _ => Triple.ignore switchSha_still) fun _ s hs => hs

/-- The id of a new context fits. -/
theorem shaSetContext_still {msg : ShaSetContext} {last : UInt32}
    (hfits : msg.contextId = none → P.Fits (last.toNat + 1 = 2 ^ 32)) :
    Triple (fun m => StillSound m₀ m ∧ m.lastShaContextId = last)
      (shaSetContext P fates pid msg) (fun _ => StillSound m₀) (fun _ => StillSound m₀)
      fun _ => False := by
  refine Triple.get_bind fun m hm => ?_
  obtain ⟨hstill, rfl⟩ := hm
  obtain ⟨contextId, algo, hashState⟩ := msg
  cases contextId with
  | some existingId =>
    refine Triple.ite (fun _ => ?_) fun _ => Triple.throw fun s hs => hs ▸ hstill
    exact Triple.bind (Q := fun _ => StillSound m₀) (Triple.modify fun s hs => hs ▸ hstill)
      fun _ => Triple.pure fun s hs => hs
  | none =>
    refine Triple.bind (Q := fun _ => StillSound m₀) (Triple.pre (P := StillSound m₀)
      (Triple.onlyIf (fun _ => switchSha_still) fun _ s hs => hs) fun s hs => hs ▸ hstill)
      fun _ => ?_
    refine Triple.bind (arithmetic_spec (hfits rfl)) fun _ => ?_
    exact Triple.bind (Q := fun _ => StillSound m₀) (Triple.modify fun s hs => hs) fun _ =>
      Triple.pure fun s hs => hs

theorem clearClientContexts_still :
    Triple (StillSound m₀) (clearClientContexts fates pid) (fun _ => StillSound m₀)
      (fun _ => StillSound m₀) fun _ => True :=
  Triple.bind (Triple.forEach fun _ _ => aesClear_still) fun _ => retainSha_still

/-- A free id is found before the counter is at its end. -/
theorem aesSetupRounds_still {key : Bytes} {mode : AesMode} (rounds : Nat) :
    Triple (fun m => StillSound m₀ m ∧ m.securam.magic = true ∧ IdFits P m pid)
      (aesSetupRounds P key mode pid rounds)
      (fun _ m => m.power.Sound ∧ m.clocks = m₀.clocks) (fun _ => StillSound m₀)
      fun _ => False := by
  induction rounds with
  | zero => exact Triple.throw fun s hs => hs.1
  | succ rounds ih =>
    refine Triple.get_bind fun m hm => ?_
    obtain ⟨hstill, hmagic, hfits⟩ := hm
    have hsum : P.Fits (m.nextContextId = 255) := by
      refine hfits.imp_right fun ⟨id, hle, hlt, _⟩ => decide_eq_false fun heq => ?_
      rw [heq] at hle
      exact absurd hlt (UInt8.not_lt.2 hle)
    refine Triple.bind (arithmetic_spec hsum) fun _ => ?_
    refine Triple.bind (Q := fun _ s => s = { m with nextContextId := m.nextContextId + 1 })
      (Triple.modify fun s hs => by rw [hs]) fun _ => ?_
    refine Triple.ite (fun htaken => Triple.pre ih fun s hs => ?_) fun _ => ?_
    · subst hs
      refine ⟨hstill, hmagic, hfits.imp_right fun ⟨id, hle, hlt, hfree⟩ => ⟨id, ?_, hlt, hfree⟩⟩
      have hne : m.nextContextId ≠ id := by
        rintro rfl
        rw [hfree] at htaken
        cases htaken
      rw [UInt8.le_iff_toNat_le] at hle ⊢
      rw [UInt8.lt_iff_toNat_lt] at hlt
      have hne : m.nextContextId.toNat ≠ id.toNat := fun heq => hne (UInt8.toNat_inj.1 heq)
      rw [UInt8.toNat_add]
      have hone : (1 : UInt8).toNat = 1 := rfl
      have hmax : (255 : UInt8).toNat = 255 := rfl
      omega
    · refine Triple.bind (allocateSecuramSlot_spec
        (m := { m with nextContextId := m.nextContextId + 1 }) hmagic fun _ => hstill) fun slot => ?_
      exact Triple.bind (Q := fun _ m => m.power.Sound ∧ m.clocks = m₀.clocks)
        (Triple.modify fun s hs => by rw [hs.2.2]; exact ⟨hstill.1, hstill.2.1⟩) fun _ =>
          Triple.pure fun s hs => hs

end Still

/-! ## 3. What uses the AES clock -/

section Uses

variable {P : Platform} {fates : Fates} {m₀ m : Machine} {pid : Pid} {id : UInt8} {v : View}

theorem idle_clocks (h : Clocks m₀) (hwaits : fates.Waits m₀) :
    (m₀.idle fates).transferring = false ∧
      (m₀.idle fates).diskEncryptInFlight = m₀.diskEncryptInFlight ∧
      ((m₀.idle fates).completed = true → m₀.diskEncryptInFlight = true) := by
  unfold Machine.idle Machine.transferEnds
  cases htransferring : m₀.transferring with
  | false =>
    rw [if_neg Bool.false_ne_true, ite_self]
    exact ⟨htransferring, rfl, fun hc => (h.pending hc).1⟩
  | true =>
    rw [h.flight htransferring, hwaits htransferring]
    exact ⟨rfl, rfl, fun _ => rfl⟩

/-- A call that has switched the clock off again, or never on. -/
theorem During.clocks (hm : During (m₀.idle fates) pid id v m) (h : Clocks m₀)
    (hwaits : fates.Waits m₀)
    (hclock : v.power.clock .aes = true → m₀.power.clock .aes = true) :
    Clocks m ∧ m.diskEncryptInFlight = m₀.diskEncryptInFlight := by
  obtain ⟨htransferring, hflight, hpending⟩ := idle_clocks h hwaits
  have hflight' : m.diskEncryptInFlight = m₀.diskEncryptInFlight :=
    (congrArg (·.2.2.2.2.2.2.1) hm.kept).trans hflight
  have htransferring' : m.transferring = false :=
    (congrArg (·.2.2.2.2.2.2.2.1) hm.kept).trans htransferring
  have hcompleted : m.completed = (m₀.idle fates).completed :=
    congrArg (·.2.2.2.2.2.2.2.2) hm.kept
  refine ⟨⟨fun ht => ?_, fun hon => ?_, fun ht => ?_, fun hc => ⟨?_, htransferring'⟩⟩, hflight'⟩
  · rw [htransferring'] at ht
    cases ht
  · rw [hm.power] at hon
    rw [hflight']
    exact h.off (hclock hon)
  · rw [htransferring'] at ht
    cases ht
  · rw [hcompleted] at hc
    rw [hflight']
    exact hpending hc

theorem Clocks.transferEnds (h : Clocks m₀) : Settled m₀ m₀.transferEnds := by
  unfold Machine.transferEnds
  split
  · next htransferring =>
    exact ⟨⟨nofun, h.off, nofun, fun _ => ⟨h.flight htransferring, rfl⟩⟩, rfl⟩
  · exact ⟨h, rfl⟩

theorem Clocks.idle (h : Clocks m₀) : Settled m₀ (m₀.idle fates) := by
  unfold Machine.idle
  split
  · exact h.transferEnds
  · exact ⟨h, rfl⟩

/-- A call that has not switched the clock. -/
theorem During.settled (hm : During (m₀.idle fates) pid id v m) (h : Clocks m₀)
    (hpower : v.power = m₀.power) : Settled m₀ m := by
  obtain ⟨transferring, completed, hidle⟩ := m₀.idle_eq fates
  have hpower' : m.power = (m₀.idle fates).power := by
    rw [hm.power, hpower, hidle]
  have hclocks : m.clocks = (m₀.idle fates).clocks := by
    have hkept := hm.kept
    simp only [Machine.kept, Prod.mk.injEq] at hkept
    obtain ⟨-, -, -, -, -, -, hflight, htransferring, hcompleted⟩ := hkept
    rw [Machine.clocks, hpower', hflight, htransferring, hcompleted, Machine.clocks]
  have hsettled := @Clocks.idle fates _ h
  exact ⟨hsettled.1.congr hclocks, (congrArg (·.2.1) hclocks).trans hsettled.2⟩

theorem off_again (hsound : m₀.power.Sound) :
    ((m₀.power.setPeripheralEnabled .aes true).setPeripheralEnabled .aes false).clock .aes = true →
      m₀.power.clock .aes = true := by
  rw [hsound.set.clock, if_pos rfl]
  exact nofun

/-- The key of a context can be read. -/
theorem Held.readableAt {keys : Keys} {used : Fin 32 → Bool} (hheld : Held keys used m₀) (pid : Pid)
    (id : UInt8) : ∃ key, ∀ context, m₀.aesContexts pid id = some context →
      m₀.Readable context.keySlot key := by
  cases hfound : m₀.aesContexts pid id with
  | none => exact ⟨[], nofun⟩
  | some context =>
    have hslot : m₀.slotOf pid id = some context.keySlot := by
      rw [Machine.slotOf, hfound]
      rfl
    obtain ⟨key, hkey⟩ := hheld.hasKey hslot
    refine ⟨key, ?_⟩
    rintro _ ⟨⟩
    exact hheld.readable hslot hkey

theorem aesExecute_settled {keys : Keys} {used : Fin 32 → Bool} {msg : AesExecute}
    (hheld : Held keys used m₀) (h : Clocks m₀) (hcalm : fates.Calm)
    (hfits : P.Fits (2 ^ 32 ≤ msg.offset.toNat + msg.len.toNat))
    (hfound : ∀ context, m₀.aesContexts pid msg.transferId = some context →
      fates.Waits m₀ ∧ context.mode.SumsFit P msg.len) :
    Triple (· = m₀) (aesExecute P fates msg pid) (fun _ => Settled m₀) (fun _ => Settled m₀)
      fun _ => False := by
  obtain ⟨key, hkey⟩ := hheld.readableAt pid msg.transferId
  refine (aesExecute_spec hheld.sound hfits
    (fun context hc => ⟨hcalm.disable, (hfound context hc.found).2⟩) hkey).conseq (fun _ hm => hm) ?_ ?_ fun _ hp => hp
  · rintro _ m ⟨context, hchecked, -, hm⟩
    exact hm.clocks h (hfound context hchecked.found).1 (off_again hheld.sound)
  · intro _ m hm
    cases hm with
    | checked heq =>
      rcases heq with rfl | rfl
      · exact ⟨h, rfl⟩
      · exact h.idle
    | rolledOver context hm _ => exact hm.settled h rfl
    | unclocked _ context hm _ => exact hm.settled h rfl
    | broken hfails => exact absurd hcalm hfails

theorem LeftBe.settled {context : AesContext} (hleft : LeftBe fates pid id m₀ m context)
    (h : Clocks m₀) : Settled m₀ m := by
  obtain ⟨-, finalized, -, hm⟩ := hleft
  exact hm.settled h rfl

theorem aesAad_settled {keys : Keys} {used : Fin 32 → Bool} {aad : Bytes}
    (hheld : Held keys used m₀) (h : Clocks m₀) (hdisable : fates.disable = none)
    (hfound : ∀ context (g : GcmState), m₀.aesContexts pid id = some context →
      context.mode = g.mode →
        fates.Waits m₀ ∧ P.Fits (2 ^ 32 ≤ g.aadlen.toNat + aad.length)) :
    Triple (· = m₀) (aesAad P fates id aad pid) (fun _ => Settled m₀) (fun _ => Settled m₀)
      fun _ => False := by
  obtain ⟨key, hkey⟩ := hheld.readableAt pid id
  refine (aesAad_spec hheld.sound
    (fun context g hc hg _ _ _ => ⟨hdisable, (hfound context g hc hg).2⟩) hkey).conseq (fun _ hm => hm) ?_ ?_ fun _ hp => hp
  · rintro _ m ⟨-, context, g, hc, -, hg, -, hm⟩
    exact hm.clocks h (hfound context g hc hg).1 (off_again hheld.sound)
  · rintro _ m (rfl | ⟨context, -, hm⟩)
    · exact h.idle
    · exact hm.settled h rfl

/-- No tag is computed where the clock cannot be switched on. -/
theorem aesGetTag_settled {keys : Keys} {used : Fin 32 → Bool}
    (hheld : Held keys used m₀) (h : Clocks m₀)
    (hnone : ∀ context (g : GcmState), m₀.aesContexts pid id = some context →
      context.mode = g.mode → fates.enable.isSome) :
    Triple (· = m₀) (aesGetTag P fates id pid) (fun _ => Settled m₀) (fun _ => Settled m₀)
      fun _ => False := by
  obtain ⟨key, hkey⟩ := hheld.readableAt pid id
  refine (aesGetTag_spec hheld.sound (fun henable context g hfound hmode => ?_) hkey).conseq
    (fun _ hm => hm) ?_ ?_ fun _ hp => hp
  · have hsome := hnone context g hfound hmode
    rw [henable] at hsome
    cases hsome
  · rintro _ m ⟨henable, context, g, -, hfound, hmode, -, -⟩
    have hsome := hnone context g hfound hmode
    rw [henable] at hsome
    cases hsome
  · rintro _ m (rfl | ⟨context, hleft⟩)
    · exact h.idle
    · exact hleft.settled h

/-- The clock is on and nothing is in flight. -/
structure Starting (m : Machine) : Prop where
  sound : m.power.Sound
  on : m.power.clock .aes = true
  idle : m.diskEncryptInFlight = false ∧ m.transferring = false ∧ m.completed = false

theorem startDiskEncryptDmas_spec {msg : DiskEncryptUnsafe} :
    Triple Starting (startDiskEncryptDmas fates msg)
      (fun _ m => Starting { m with transferring := false }) (fun _ => Starting)
      fun _ => True := by
  have hcall : Triple Starting (call (fun _ => .dmaError) fates.dmaTx (return ()))
      (fun _ => Starting) (fun _ => Starting) fun _ => True :=
    call_keep (fun _ s hs => hs) (Triple.pure fun s hs => hs)
  refine Triple.get_bind fun m hm => ?_
  refine Triple.bind (Q := fun _ => Starting)
    (Triple.require (fun _ s hs => hs ▸ hm) fun _ => trivial) fun _ => ?_
  refine Triple.ite (fun _ => Triple.throw fun s hs => hs) fun _ => ?_
  refine Triple.bind (Q := fun _ => Starting)
    (Triple.modify fun s hs => ⟨hs.sound, hs.on, hs.idle⟩) fun _ => ?_
  refine Triple.ite (fun _ => Triple.throw fun s hs => hs) fun _ => Triple.bind hcall fun _ => ?_
  exact call_keep (fun _ s hs => hs) (Triple.modify fun s hs =>
    ⟨hs.sound, hs.on, hs.idle.1, rfl, hs.idle.2.2⟩)

theorem diskEncryptStart_settled {msg : DiskEncryptUnsafe} (h : Clocks m₀)
    (hsound : m₀.power.Sound) (hidle : m₀.diskEncryptInFlight = false)
    (hdisable : fates.disable = none) :
    Triple (· = m₀) (diskEncryptStart fates msg) (fun _ => Clocks) (fun _ => Settled m₀)
      fun _ => True := by
  have htransferring : m₀.transferring = false := by
    cases ht : m₀.transferring with
    | false => rfl
    | true => rw [h.flight ht] at hidle; cases hidle
  have hcompleted : m₀.completed = false := by
    cases hc : m₀.completed with
    | false => rfl
    | true => rw [(h.pending hc).1] at hidle; cases hidle
  have hsame : ∀ s, s = m₀ → Settled m₀ s := by
    rintro _ rfl
    exact ⟨h, rfl⟩
  refine Triple.ite (fun _ => Triple.throw hsame) fun _ => ?_
  refine Triple.bind (Q := fun _ => Starting) ?_ fun _ => ?_
  · refine call_keep (fun _ => hsame) (Triple.modify fun s hs => ?_)
    subst hs
    refine ⟨hsound.set, ?_, hidle, htransferring, hcompleted⟩
    show (s.power.setPeripheralEnabled .aes true).clock .aes = true
    rw [hsound.clock, if_pos rfl]
  refine Triple.bind (Q := fun _ => Starting) (Triple.modify fun s hs => ?_) fun _ => ?_
  · rw [hs.idle.1]
    exact hs
  refine Triple.bind (Q := onResult (fun _ m => Starting { m with transferring := false })
    fun _ => Starting) (Triple.attempt startDiskEncryptDmas_spec) fun started => ?_
  cases started with
  | ok u =>
    exact Triple.modify fun s hs => ⟨fun _ => hs.on, fun _ => rfl, fun _ => rfl,
      fun hc => absurd hc (by rw [show s.completed = false from hs.idle.2.2]; intro h; cases h)⟩
  | error e =>
    refine Triple.bind (Q := fun _ => Settled m₀) (Triple.ignore ?_) fun _ =>
      Triple.throw fun s hs => hs
    unfold disablePeripheral call
    rw [hdisable]
    refine Triple.modify fun s hs => ?_
    have hoff : (s.power.setPeripheralEnabled .aes false).clock .aes = false := by
      rw [hs.sound.clock, if_pos rfl]
    refine ⟨⟨fun ht => ?_, fun hon => ?_, fun ht => ?_, fun hc => ?_⟩, hs.idle.1.trans hidle.symm⟩
    · exact absurd ht (by rw [show s.transferring = false from hs.idle.2.1]; intro h; cases h)
    · exact absurd hon (by dsimp only; rw [hoff]; intro h; cases h)
    · exact absurd ht (by rw [show s.transferring = false from hs.idle.2.1]; intro h; cases h)
    · exact absurd hc (by rw [show s.completed = false from hs.idle.2.2]; intro h; cases h)

/-- The event ends what was in flight. -/
theorem onDmaTransferComplete_settled (h : Clocks m₀) (hsound : m₀.power.Sound)
    (hcompleted : m₀.completed = true) (hdisable : fates.disable = none) :
    Triple (· = { m₀ with completed := false }) (onDmaTransferComplete fates)
      (fun _ m => Clocks m ∧ m.diskEncryptInFlight = false)
      (fun _ m => Clocks m ∧ m.diskEncryptInFlight = false) fun _ => True := by
  obtain ⟨hflight, htransferring⟩ := h.pending hcompleted
  refine Triple.get_bind fun m hm => ?_
  subst hm
  dsimp only
  rw [hflight, if_neg nofun]
  refine Triple.bind (Q := fun _ s => s =
    { m₀ with completed := false, diskEncryptInFlight := false })
    (Triple.modify fun s hs => by rw [hs]) fun _ => ?_
  refine Triple.bind (Q := fun _ m => Clocks m ∧ m.diskEncryptInFlight = false)
    (Triple.ignore ?_) fun _ => Triple.pure fun s hs => hs
  unfold disablePeripheral call
  rw [hdisable]
  refine Triple.modify fun s hs => ?_
  subst hs
  have hoff : (m₀.power.setPeripheralEnabled .aes false).clock .aes = false := by
    rw [hsound.clock, if_pos rfl]
  refine ⟨⟨fun ht => ?_, fun hon => ?_, fun ht => ?_, nofun⟩, rfl⟩
  · exact absurd ht (by dsimp only; rw [htransferring]; nofun)
  · exact absurd hon (by dsimp only; rw [hoff]; nofun)
  · exact absurd ht (by dsimp only; rw [htransferring]; nofun)

end Uses

/-! ## 4. Runs -/

namespace World

/-- The server runs, and its clock is right. -/
structure Clocked (w : World) : Prop where
  live : w.crashed = false
  clocks : Clocks w.machine
  awaits : w.machine.diskEncryptInFlight = true → w.awaiting = true

section Clocked

variable {P : Platform} {w : World}

theorem serve_cases {α : Type} {x : Serve α} {recorded : α → Machine → World → World}
    {Q : α → Machine → Prop} {E : CryptoError → Machine → Prop} {A : Panic → Prop}
    {C : World → Prop} (hx : Triple (· = w.machine) x Q E A)
    (hok : ∀ a m used, Q a m → C (recorded a m { w with machine := m, used := used }))
    (herr : ∀ e m, E e m → C { w with machine := m })
    (hpanic : ∀ p m, A p → C { w with machine := m, crashed := true }) :
    C (w.serve x recorded) := by
  have h := hx w.machine rfl
  revert h
  unfold World.serve
  rcases x w.machine with ⟨outcome, m⟩
  cases outcome with
  | ok a => exact hok a m _
  | err e => exact herr e m
  | panic p => exact hpanic p m

/-- A request after which the clock is settled. -/
theorem Clocked.settle {α : Type} {x : Serve α} {recorded : α → Machine → World → World}
    (h : Clocked w) (hx : Triple (· = w.machine) x (fun _ => Settled w.machine)
      (fun _ => Settled w.machine) fun _ => False)
    (hrecorded : ∀ a m v, (recorded a m v).machine = v.machine ∧
      (recorded a m v).crashed = v.crashed ∧ (recorded a m v).awaiting = v.awaiting) :
    Clocked (w.serve x recorded) := by
  refine serve_cases hx (fun a m used hm => ?_)
    (fun e m hm => ⟨h.live, hm.1, fun hflight => h.awaits (hm.2 ▸ hflight)⟩) fun _ _ hp => hp.elim
  obtain ⟨hmachine, hcrashed, hawaiting⟩ := hrecorded a m { w with machine := m, used := used }
  refine ⟨hcrashed.trans h.live, by rw [hmachine]; exact hm.1, fun hflight => ?_⟩
  rw [hmachine] at hflight
  rw [hawaiting]
  exact h.awaits (hm.2 ▸ hflight)

/-- What keeps the slots and leaves the clock alone. -/
theorem still_settled {α : Type} {x : Serve α} {m : Machine} {keys : Keys} {used : Fin 32 → Bool}
    {Q : α → Machine → Prop} (hheld : Held keys used m) (h : Clocks m)
    (hkeep : Triple (Held keys used) x Q (fun _ => Held keys used) fun _ => False)
    (hstill : Triple (StillSound m) x (fun _ => StillSound m) (fun _ => StillSound m)
      fun _ => True) :
    Triple (· = m) x (fun _ => Settled m) (fun _ => Settled m) fun _ => False := by
  refine (hkeep.and hstill).conseq ?_ (fun _ s hs => h.still hs.2)
    (fun _ s hs => h.still hs.2) fun _ hp => hp
  rintro _ rfl
  exact ⟨hheld, hheld.sound, rfl, fun _ _ _ hfound => hfound⟩

theorem setup_settled {m : Machine} {keys : Keys} {used : Fin 32 → Bool} {pid : Pid}
    {key : Bytes} {mode : AesMode} (hheld : Held keys used m) (h : Clocks m)
    (hfits : IdFits P m pid) :
    Triple (· = m) (Crypto.aesSetup P key mode pid) (fun _ => Settled m) (fun _ => Settled m)
      fun _ => False := by
  refine (aesSetupRounds_still 255).conseq ?_
    (fun _ _ hs => ⟨h.congr hs.2, congrArg (·.2.1) hs.2⟩) (fun _ _ hs => h.still hs)
    fun _ hp => hp
  rintro _ rfl
  exact ⟨⟨hheld.sound, rfl, fun _ _ _ hfound => hfound⟩, hheld.magic, hfits⟩

theorem Clocked.request (h : Clocked w) (hs : Sound P w) {act : Act} (hc : Careful P w act) :
    Clocked (w.request P act) := by
  have hheld := hs.held h.live
  have hrest : ∀ {v : World} {pid : Pid} {id : UInt8} {f : Session → Session},
      (v.record pid id f).machine = v.machine ∧ (v.record pid id f).crashed = v.crashed ∧
        (v.record pid id f).awaiting = v.awaiting := ⟨rfl, rfl, rfl⟩
  have hunrecorded : ∀ {α : Type} (a : α) (m : Machine) (v : World),
      (unrecorded a m v).machine = v.machine ∧ (unrecorded a m v).crashed = v.crashed ∧
        (unrecorded a m v).awaiting = v.awaiting := fun _ _ _ => ⟨rfl, rfl, rfl⟩
  have hlend : ∀ buf, Clocked (w.lend buf) := fun buf => ⟨h.live, h.clocks.congr rfl, h.awaits⟩
  have hlent : ∀ buf, Held w.keys w.used (w.lend buf).machine := fun buf => hheld.congr rfl
  have hsettled : ∀ s, StillSound w.machine s → Settled w.machine s := fun s hs =>
    h.clocks.still hs
  unfold World.request
  cases act with
  | aesSetup sender key mode =>
    dsimp only
    exact h.settle (setup_settled hheld h.clocks hc) fun _ _ _ => ⟨rfl, rfl, rfl⟩
  | aesExecute sender msg buf fates =>
    obtain ⟨hcalm, hfits, hfound⟩ := hc
    dsimp only
    exact (hlend buf).settle (aesExecute_settled (hlent buf) (hlend buf).clocks hcalm hfits
      hfound) fun _ _ _ => hrest
  | aesAad sender id aad fates =>
    obtain ⟨hdisable, hfound⟩ := hc
    dsimp only
    exact h.settle (aesAad_settled hheld h.clocks hdisable hfound) fun _ _ _ => hrest
  | aesGcmTag sender id fates =>
    dsimp only
    exact h.settle (aesGetTag_settled hheld h.clocks hc) fun _ _ _ => hrest
  | aesClear sender id =>
    dsimp only
    exact h.settle (still_settled hheld h.clocks aesClear_keep aesClear_still)
      fun _ _ _ => ⟨rfl, rfl, rfl⟩
  | shaSetContext sender msg fates =>
    dsimp only
    refine h.settle ((shaSetContext_still hc).conseq ?_ (fun _ => hsettled)
      (fun _ => hsettled) fun _ hp => hp) hunrecorded
    rintro _ rfl
    exact ⟨⟨hheld.sound, rfl, fun _ _ _ hfound => hfound⟩, rfl⟩
  | shaUpdate sender contextId length buf fates =>
    dsimp only
    exact (hlend buf).settle (still_settled (hlent buf) (hlend buf).clocks shaUpdate_keep
      shaUpdate_still) hunrecorded
  | shaGetContext sender contextId =>
    dsimp only
    refine h.settle ?_ hunrecorded
    refine Triple.get_bind fun m hm => Triple.okOr (fun _ _ s hs => ?_) fun _ s hs => ?_
    · rw [hs, hm]
      exact ⟨h.clocks, rfl⟩
    · rw [hs, hm]
      exact ⟨h.clocks, rfl⟩
  | shaDrop sender contextId fates =>
    dsimp only
    exact h.settle (still_settled hheld h.clocks retainSha_keep retainSha_still) hunrecorded
  | hmac algo key data fates =>
    dsimp only
    exact h.settle (still_settled hheld h.clocks hmac_keep hmac_still) hunrecorded
  | clientDisconnected pid fates =>
    dsimp only
    exact h.settle (still_settled hheld h.clocks clearClientContexts_keep
      clearClientContexts_still) fun _ _ _ => ⟨rfl, rfl, rfl⟩
  | subscribeDiskEncryptComplete => exact ⟨h.live, h.clocks.congr rfl, h.awaits⟩
  | diskEncrypt msg fates =>
    dsimp only
    split
    · exact h
    · next hawaiting =>
      have hidle : w.machine.diskEncryptInFlight = false := by
        cases hflight : w.machine.diskEncryptInFlight with
        | false => rfl
        | true => exact absurd (h.awaits hflight) hawaiting
      have hkeep : Triple (Held w.keys w.used) (diskEncryptStart fates msg)
        (fun _ => Held w.keys w.used) (fun _ => Held w.keys w.used) fun _ => False :=
        diskEncryptStart_keep
      have hx := hkeep.and (diskEncryptStart_settled h.clocks hheld.sound hidle hc)
      refine serve_cases (hx.pre fun s hs => ⟨hs ▸ hheld, hs⟩) (fun _ m used hm => ?_)
        (fun _ m hm => ⟨h.live, hm.2.1, fun hflight => h.awaits (hm.2.2 ▸ hflight)⟩)
        fun _ _ hp => hp.elim
      exact ⟨h.live, hm.2, fun _ => rfl⟩
  | dmaCompletes =>
    have hends := h.clocks.transferEnds
    exact ⟨h.live, hends.1, fun hflight => h.awaits (hends.2 ▸ hflight)⟩
  | transferComplete fates =>
    dsimp only
    split
    · next hcompleted =>
      have hkeep : Triple (Held w.keys w.used) (onDmaTransferComplete fates)
        (fun _ => Held w.keys w.used) (fun _ => Held w.keys w.used) fun _ => False :=
        onDmaTransferComplete_keep
      have hx := hkeep.and (onDmaTransferComplete_settled h.clocks hheld.sound hcompleted hc)
      refine serve_cases (w := { w with machine := { w.machine with completed := false } })
        (hx.pre fun s hs => ⟨hs ▸ hheld.congr rfl, hs⟩) (fun told m used hm => ?_)
        (fun _ m hm => ⟨h.live, hm.2.1, fun hflight => absurd hflight (by
          dsimp only
          rw [hm.2.2]
          nofun)⟩) fun _ _ hp => hp.elim
      have hidle : m.diskEncryptInFlight = true → False := by rw [hm.2.2]; nofun
      cases told with
      | true => exact ⟨h.live, hm.2.1, fun hflight => (hidle hflight).elim⟩
      | false => exact ⟨h.live, hm.2.1, fun hflight => (hidle hflight).elim⟩
    · exact h

theorem Clocked.step (h : Clocked w) (hs : Sound P w) {act : Act} (hc : Careful P w act) :
    Clocked (w.step P act) := by
  unfold World.step
  rw [if_neg (by rw [h.live]; nofun)]
  exact h.request hs hc

theorem Clocked.run (h : Clocked w) (hs : Sound P w) {acts : List Act}
    (hc : CarefulRun P w acts) : Clocked (w.run P acts) := by
  induction acts generalizing w with
  | nil => exact h
  | cons act acts ih => exact ih (h.step hs hc.1) (hs.step act) hc.2

theorem started_clocked (aesKeys : Fin 32 → AesKey) (diskEncryptionKeys : Bytes × Bytes) :
    Clocked (started aesKeys diskEncryptionKeys) :=
  ⟨rfl, ⟨nofun, nofun, nofun, nofun⟩, nofun⟩

end Clocked

/-! ## 5. What the server is to keep -/

/-- The slots, the contexts and the SHA clock. -/
structure Orderly (w : World) : Prop where
  occupied : ∀ slot, w.machine.securamSlotOccupied slot = true ↔
    ∃! owner : Pid × UInt8, w.machine.slotOf owner.1 owner.2 = some slot
  wiped : ∀ slot, w.used slot = true → w.machine.securamSlotOccupied slot = false →
    (w.machine.securam.aesKeys slot).bytes = zeroes
  /-- A client reaches what it has set up and not cleared. -/
  reached : ∀ pid id, (w.machine.aesContexts pid id).isSome = (w.sessions pid id).isSome
  ownKey : ∀ pid id slot session, w.machine.slotOf pid id = some slot →
    w.sessions pid id = some session → w.machine.securam.aesKeys slot = storedKey session.key
  shaClock : w.machine.shaContexts ≠ [] → w.machine.power.clock .sha = true
  /-- The clock was on during every operation. -/
  clocked : w.machine.unclocked = false

structure Consistent (w : World) : Prop extends Orderly w where
  live : w.crashed = false
  transferClock : w.machine.transferring = true → w.machine.power.clock .aes = true
  clockOff : w.machine.power.clock .aes = true → w.machine.diskEncryptInFlight = true

section Consistent

variable {P : Platform} {aesKeys : Fin 32 → AesKey} {diskEncryptionKeys : Bytes × Bytes}

theorem Sound.orderly {w : World} (h : Sound P w) (hlive : w.crashed = false) : Orderly w := by
  have hheld := h.held hlive
  refine ⟨fun slot => ?_, hheld.wiped, fun pid id => ?_,
    fun pid id slot session hslot hsession => ?_, hheld.sha, hheld.clocked⟩
  · rw [hheld.occupied]
    constructor
    · rintro ⟨pid, id, hslot⟩
      refine ⟨(pid, id), hslot, fun owner howner => ?_⟩
      obtain ⟨hpid, hid⟩ := hheld.own _ _ _ _ slot howner hslot
      exact Prod.ext hpid hid
    · rintro ⟨owner, howner, -⟩
      exact ⟨_, _, howner⟩
  · have hsetUp := hheld.setUp pid id
    rw [Machine.slotOf, keys, Option.isSome_map, Option.isSome_map] at hsetUp
    exact hsetUp
  · refine (hheld.key pid id slot session.key hslot ?_).2
    rw [keys, hsession]
    rfl

/-- In every run, careful or not. -/
theorem orderly_run (acts : List Act) :
    ((started aesKeys diskEncryptionKeys).run P acts).crashed = false →
      Orderly ((started aesKeys diskEncryptionKeys).run P acts) :=
  ((started_sound aesKeys diskEncryptionKeys).run acts).orderly

/-- Where sums wrap nothing panics. -/
theorem live_run (hwraps : P.overflowChecks = false) (acts : List Act) :
    ((started aesKeys diskEncryptionKeys).run P acts).crashed = false := by
  refine Bool.eq_false_iff.2 fun hcrashed => ?_
  rw [((started_sound aesKeys diskEncryptionKeys).run acts).crash hcrashed] at hwraps
  cases hwraps

theorem consistent_careful {acts : List Act}
    (hcareful : CarefulRun P (started aesKeys diskEncryptionKeys) acts) :
    Consistent ((started aesKeys diskEncryptionKeys).run P acts) := by
  have hsound := started_sound (P := P) aesKeys diskEncryptionKeys
  have hclocked := (started_clocked aesKeys diskEncryptionKeys).run hsound hcareful
  exact ⟨(hsound.run acts).orderly hclocked.live, hclocked.live, hclocked.clocks.during,
    hclocked.clocks.off⟩

/-- AES with the key of sixteen zeroes, where its answers are known. -/
def zeroKeyAnswers : List (Bytes × Bytes) :=
  [(List.replicate 16 0,
      [102, 233, 75, 212, 239, 138, 44, 59, 136, 76, 250, 89, 202, 52, 43, 46]),
    (List.replicate 15 0 ++ [1],
      [88, 226, 252, 206, 250, 126, 48, 97, 54, 127, 29, 87, 164, 231, 69, 90]),
    (List.replicate 15 0 ++ [2],
      [3, 136, 218, 206, 96, 182, 163, 146, 243, 40, 194, 185, 113, 178, 254, 120]),
    (List.replicate 15 0 ++ [3],
      [247, 149, 170, 171, 73, 75, 89, 35, 247, 253, 137, 255, 148, 139, 193, 224]),
    ([1] ++ List.replicate 15 0,
      [71, 113, 24, 22, 233, 29, 111, 240, 89, 187, 191, 43, 245, 142, 15, 211])]

/-- Products with the hash key, which is the first of the answers. -/
def zeroKeyProducts : List (Bytes × Bytes) :=
  [([3, 136, 218, 206, 96, 182, 163, 146, 243, 40, 194, 185, 113, 178, 254, 120],
      [94, 46, 199, 70, 145, 112, 98, 136, 44, 133, 176, 104, 83, 83, 222, 183]),
    ([169, 187, 109, 237, 216, 59, 59, 171, 219, 120, 57, 151, 199, 216, 31, 87],
      [216, 91, 80, 179, 168, 168, 127, 166, 49, 151, 171, 68, 111, 182, 207, 71]),
    ([216, 91, 80, 179, 168, 168, 127, 38, 49, 151, 171, 68, 111, 182, 206, 71],
      [97, 139, 225, 212, 77, 116, 18, 105, 124, 150, 46, 43, 205, 155, 126, 180])]

def answer (answers : List (Bytes × Bytes)) (block : Bytes) : Bytes :=
  (answers.lookup block).getD (List.replicate 16 0)

theorem length_answer {answers : List (Bytes × Bytes)} (block : Bytes)
    (h : ∀ entry ∈ answers, entry.2.length = 16) : (answer answers block).length = 16 := by
  induction answers with
  | nil => rfl
  | cons entry answers ih =>
    unfold answer List.lookup
    split
    · exact h entry List.mem_cons_self
    · exact ih fun entry hentry => h entry (List.mem_cons_of_mem _ hentry)

def zeroKeyCipher : BlockCipher where
  encrypt := answer zeroKeyAnswers
  decrypt := answer (zeroKeyAnswers.map Prod.swap)
  hashMul := answer zeroKeyProducts
  length_encrypt := fun block _ => length_answer block (by decide)
  length_decrypt := fun block _ => length_answer block (by decide)
  length_hashMul := fun block _ => length_answer block (by decide)

/-- The device, whose build wraps. -/
def device : Platform where
  cipher := fun _ => zeroKeyCipher
  shaBlocks := fun _ hashState _ => hashState
  hmac := fun _ _ _ => []
  overflowChecks := false

theorem sumsFit_device (len : UInt32) (mode : AesContextMode) : mode.SumsFit device len := by
  cases mode with
  | gcm aadlen datalen iv ctr ghash => exact ⟨.inl rfl, .inl rfl⟩
  | ecb => trivial
  | cbc iv => trivial
  | ctr counter => trivial

def zeroKey : Bytes := List.replicate 16 0

/-- A device that has just started. -/
def fresh : World := started (fun _ => ⟨0, zeroes⟩) ([], [])

/-- A context is set up, used and cleared. -/
theorem consistent_after_clear :
    Consistent (fresh.run device [.aesSetup 1 zeroKey .ecb,
      .aesExecute 1 ⟨1, .encrypt, 0, 16⟩ (List.replicate 16 0) .quiet, .aesClear 1 1]) := by
  exact consistent_careful ⟨.inl rfl, ⟨⟨rfl, rfl, rfl, rfl⟩, .inl rfl,
    fun context _ => ⟨fun _ => rfl, sumsFit_device 16 context.mode⟩⟩, trivial, trivial⟩

theorem live_after_setup : (fresh.run device [.aesSetup 1 zeroKey .ecb]).crashed = false :=
  live_run rfl _

theorem orderly_after_tag : Orderly (fresh.run device
    [.aesSetup 1 zeroKey (.gcm ⟨List.replicate 12 0, rfl⟩), .aesGcmTag 1 1 .quiet]) :=
  orderly_run _ rfl

/-- A tag is computed, and the clock stays on. -/
theorem tag_leaves_clock_on :
    ¬Consistent (fresh.run device [.aesSetup 1 zeroKey (.gcm ⟨List.replicate 12 0, rfl⟩),
      .aesGcmTag 1 1 .quiet]) := by
  intro h
  have hflight := h.clockOff rfl
  cases hflight

end Consistent

end World

end Crypto
