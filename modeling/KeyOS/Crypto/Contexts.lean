import KeyOS.Crypto.Calls

/-!
# Contexts, key slots and clocks

Every request keeps the table of the key slots in step with the contexts, and the contexts in step
with what the clients have set up. The clock of the AES peripheral is another matter: a tag, and an
error once the clock is on, leave it running.
-/

namespace Crypto

open BlockModes Exec Prog

/-! ## 1. The slots -/

/-- The slot of each context. -/
def Machine.slotOf (m : Machine) (pid : Pid) (id : UInt8) : Option (Fin 32) :=
  (m.aesContexts pid id).map (·.keySlot)

/-- The keys of the contexts that clients have set up. -/
abbrev Keys := Pid → UInt8 → Option Bytes

def Keys.set (keys : Keys) (pid : Pid) (id : UInt8) (key : Option Bytes) : Keys := fun pid' id' =>
  if pid' = pid ∧ id' = id then key else keys pid' id'

def storedKey (key : Bytes) : AesKey := ⟨key.length, key ++ List.replicate (32 - key.length) 0⟩

def zeroes : Bytes := List.replicate 32 0

structure Held (keys : Keys) (used : Fin 32 → Bool) (m : Machine) : Prop where
  magic : m.securam.magic = true
  setUp : ∀ pid id, (m.slotOf pid id).isSome = (keys pid id).isSome
  key : ∀ pid id slot key, m.slotOf pid id = some slot → keys pid id = some key →
    isKeySize key.length = true ∧ m.securam.aesKeys slot = storedKey key
  own : ∀ pid id pid' id' slot, m.slotOf pid id = some slot → m.slotOf pid' id' = some slot →
    pid = pid' ∧ id = id'
  occupied : ∀ slot, m.securamSlotOccupied slot = true ↔ ∃ pid id, m.slotOf pid id = some slot
  wiped : ∀ slot, used slot = true → m.securamSlotOccupied slot = false →
    (m.securam.aesKeys slot).bytes = zeroes
  sha : m.shaContexts ≠ [] → m.power.clock .sha = true
  sound : m.power.Sound
  clocked : m.unclocked = false

/-- What `Held` reads. -/
def Machine.held (m : Machine) :=
  (m.slotOf, m.securam, m.securamSlotOccupied, m.shaContexts, m.power, m.unclocked)

/-- With checks, a sum that overflows panics; nothing else does. -/
def Platform.Panics (P : Platform) : Panic → Prop := fun p =>
  p = .overflow ∧ P.overflowChecks = true

section Held

variable {keys : Keys} {used : Fin 32 → Bool} {m m' : Machine} {pid : Pid} {id : UInt8}
  {slot : Fin 32}

theorem Held.congr (h : Held keys used m) (heq : m'.held = m.held) : Held keys used m' := by
  obtain ⟨hslot, hsecuram, hoccupied, hsha, hpower, hunclocked⟩ :
      m'.slotOf = m.slotOf ∧ m'.securam = m.securam ∧
      m'.securamSlotOccupied = m.securamSlotOccupied ∧ m'.shaContexts = m.shaContexts ∧
      m'.power = m.power ∧ m'.unclocked = m.unclocked := by
    simpa only [Machine.held, Prod.mk.injEq] using heq
  obtain ⟨hmagic, hsetUp, hkey, hown, hocc, hwiped, hshaClock, hsound, hclocked⟩ := h
  exact ⟨by rw [hsecuram]; exact hmagic, by rw [hslot]; exact hsetUp,
    by rw [hslot, hsecuram]; exact hkey, by rw [hslot]; exact hown,
    by rw [hoccupied, hslot]; exact hocc, by rw [hsecuram, hoccupied]; exact hwiped,
    by rw [hsha, hpower]; exact hshaClock, by rw [hpower]; exact hsound,
    by rw [hunclocked]; exact hclocked⟩

theorem Held.readable (h : Held keys used m) {key : Bytes} (hslot : m.slotOf pid id = some slot)
    (hkey : keys pid id = some key) : m.Readable slot key := by
  obtain ⟨hsize, hstored⟩ := h.key pid id slot key hslot hkey
  refine ⟨h.magic, ?_, hsize⟩
  rw [hstored]
  exact List.take_left' rfl

theorem Held.hasKey (h : Held keys used m) (hslot : m.slotOf pid id = some slot) :
    ∃ key, keys pid id = some key := by
  refine Option.isSome_iff_exists.1 ?_
  rw [← h.setUp, hslot]
  rfl

/-- A clock is switched; that of SHA only while it has no context. -/
theorem Held.setPower (h : Held keys used m) {peripheral : PeripheralId} {enabled : Bool}
    (hsha : m.shaContexts ≠ [] → peripheral = .sha → enabled = true) :
    Held keys used { m with power := m.power.setPeripheralEnabled peripheral enabled } := by
  refine ⟨h.magic, h.setUp, h.key, h.own, h.occupied, h.wiped, fun hcontexts => ?_, h.sound.set,
    h.clocked⟩
  show (m.power.setPeripheralEnabled peripheral enabled).clock .sha = true
  rw [h.sound.clock]
  split
  · next heq => exact hsha hcontexts heq.symm
  · exact h.sha hcontexts

theorem Held.uses (h : Held keys used m) {peripheral : PeripheralId}
    (hclock : m.power.clock peripheral = true) : Held keys used (m.uses peripheral) := by
  refine ⟨h.magic, h.setUp, h.key, h.own, h.occupied, h.wiped, h.sha, h.sound, ?_⟩
  show (m.unclocked || !m.power.clock peripheral) = false
  rw [h.clocked, hclock]
  rfl

theorem slotOf_setContext {context : Option AesContext} (pid' : Pid) (id' : UInt8) :
    (m.setContext pid id context).slotOf pid' id' =
      if pid' = pid ∧ id' = id then context.map (·.keySlot) else m.slotOf pid' id' := by
  unfold Machine.slotOf Machine.setContext
  dsimp only
  split <;> rfl

/-- A context is edited, and keeps its slot. -/
theorem slotOf_edit {f : AesContext → AesContext} (hf : ∀ c, (f c).keySlot = c.keySlot) :
    (m.setContext pid id ((m.aesContexts pid id).map f)).slotOf = m.slotOf := by
  funext pid' id'
  rw [slotOf_setContext]
  split
  · next heq =>
    obtain ⟨rfl, rfl⟩ := heq
    unfold Machine.slotOf
    cases m.aesContexts pid' id' with
    | none => rfl
    | some context => exact congrArg some (hf context)
  · rfl

/-- A new context takes a free slot. -/
theorem Held.insert (h : Held keys used m) {key : Bytes} {context : AesContext}
    (hnone : m.slotOf pid id = none) (hfree : m.securamSlotOccupied context.keySlot = false)
    (hsize : isKeySize key.length = true) :
    Held (keys.set pid id (some key)) used
      ({ m with
        securam := { m.securam with
          aesKeys := Function.update m.securam.aesKeys context.keySlot (storedKey key) }
        securamSlotOccupied := Function.update m.securamSlotOccupied context.keySlot true
      }.setContext pid id (some context)) := by
  have hother : ∀ pid' id' slot, m.slotOf pid' id' = some slot → slot ≠ context.keySlot := by
    rintro pid' id' _ hslot rfl
    rw [(h.occupied _).2 ⟨pid', id', hslot⟩] at hfree
    cases hfree
  refine ⟨h.magic, fun pid' id' => ?_, fun pid' id' slot key' hslot hkey => ?_,
    fun p i p' i' slot hslot hslot' => ?_, fun slot => ?_, fun slot hused hfree' => ?_, h.sha,
    h.sound, h.clocked⟩
  · rw [slotOf_setContext, Keys.set]
    split
    · rfl
    · exact h.setUp pid' id'
  · rw [slotOf_setContext] at hslot
    rw [Keys.set] at hkey
    show _ ∧ Function.update m.securam.aesKeys context.keySlot (storedKey key) slot = storedKey key'
    split at hslot
    · next heq =>
      rw [if_pos heq] at hkey
      cases hslot
      cases hkey
      exact ⟨hsize, Function.update_self ..⟩
    · next hne =>
      rw [if_neg hne] at hkey
      rw [Function.update_of_ne (hother pid' id' slot hslot)]
      exact h.key pid' id' slot key' hslot hkey
  · rw [slotOf_setContext] at hslot hslot'
    split at hslot
    · next heq =>
      obtain ⟨rfl, rfl⟩ := heq
      split at hslot'
      · next heq' => exact ⟨heq'.1.symm, heq'.2.symm⟩
      · cases hslot
        exact absurd rfl (hother p' i' _ hslot')
    · split at hslot'
      · cases hslot'
        exact absurd rfl (hother p i _ hslot)
      · exact h.own p i p' i' slot hslot hslot'
  · show Function.update m.securamSlotOccupied context.keySlot true slot = true ↔ _
    by_cases heq : slot = context.keySlot
    · subst heq
      rw [Function.update_self]
      exact iff_of_true rfl ⟨pid, id, by rw [slotOf_setContext, if_pos ⟨rfl, rfl⟩]; rfl⟩
    · rw [Function.update_of_ne heq, h.occupied]
      refine exists_congr fun pid' => exists_congr fun id' => ?_
      rw [slotOf_setContext]
      split
      · next howner =>
        obtain ⟨rfl, rfl⟩ := howner
        refine iff_of_false (by rw [hnone]; nofun) fun hslot => heq ?_
        cases hslot
        rfl
      · rfl
  · have hfree' : Function.update m.securamSlotOccupied context.keySlot true slot = false := hfree'
    show (Function.update m.securam.aesKeys context.keySlot (storedKey key) slot).bytes = zeroes
    by_cases heq : slot = context.keySlot
    · subst heq
      rw [Function.update_self] at hfree'
      cases hfree'
    · rw [Function.update_of_ne heq] at hfree' ⊢
      exact h.wiped slot hused hfree'

/-- A context is removed and its slot wiped. -/
theorem Held.remove (h : Held keys used m) (hslot : m.slotOf pid id = some slot) :
    Held (keys.set pid id none) used
      { m.setContext pid id none with
        securam := { m.securam with
          aesKeys := Function.update m.securam.aesKeys slot (storedKey zeroes) }
        securamSlotOccupied := Function.update m.securamSlotOccupied slot false } := by
  have hother : ∀ pid' id' slot', ¬(pid' = pid ∧ id' = id) → m.slotOf pid' id' = some slot' →
      slot' ≠ slot := by
    rintro pid' id' _ hne hslot' rfl
    exact hne (h.own pid' id' pid id _ hslot' hslot)
  have hslotOf : ∀ pid' id', (m.setContext pid id none).slotOf pid' id' =
      if pid' = pid ∧ id' = id then none else m.slotOf pid' id' := slotOf_setContext
  refine ⟨h.magic, fun pid' id' => ?_, fun pid' id' slot' key hslot' hkey => ?_,
    fun p i p' i' slot' hs hs' => ?_, fun slot' => ?_, fun slot' hused hfree => ?_, h.sha, h.sound,
    h.clocked⟩
  · show ((m.setContext pid id none).slotOf pid' id').isSome = _
    rw [hslotOf, Keys.set]
    split
    · rfl
    · exact h.setUp pid' id'
  · have hslot' : (m.setContext pid id none).slotOf pid' id' = some slot' := hslot'
    rw [hslotOf] at hslot'
    rw [Keys.set] at hkey
    show _ ∧ Function.update m.securam.aesKeys slot (storedKey zeroes) slot' = storedKey key
    split at hslot'
    · cases hslot'
    · next hne =>
      rw [if_neg hne] at hkey
      rw [Function.update_of_ne (hother pid' id' slot' hne hslot')]
      exact h.key pid' id' slot' key hslot' hkey
  · have hs : (m.setContext pid id none).slotOf p i = some slot' := hs
    have hs' : (m.setContext pid id none).slotOf p' i' = some slot' := hs'
    rw [hslotOf] at hs hs'
    split at hs
    · cases hs
    · split at hs'
      · cases hs'
      · exact h.own p i p' i' slot' hs hs'
  · show Function.update m.securamSlotOccupied slot false slot' = true ↔
      ∃ pid' id', (m.setContext pid id none).slotOf pid' id' = some slot'
    simp only [hslotOf]
    by_cases heq : slot' = slot
    · subst heq
      rw [Function.update_self]
      refine iff_of_false Bool.false_ne_true ?_
      rintro ⟨pid', id', hslot'⟩
      split at hslot'
      · cases hslot'
      · next hne => exact hother pid' id' slot' hne hslot' rfl
    · rw [Function.update_of_ne heq, h.occupied]
      refine exists_congr fun pid' => exists_congr fun id' => ?_
      split
      · next howner =>
        obtain ⟨rfl, rfl⟩ := howner
        refine iff_of_false (fun hslot' => heq ?_) nofun
        rw [hslot] at hslot'
        cases hslot'
        rfl
      · rfl
  · have hfree : Function.update m.securamSlotOccupied slot false slot' = false := hfree
    show (Function.update m.securam.aesKeys slot (storedKey zeroes) slot').bytes = zeroes
    by_cases heq : slot' = slot
    · subst heq
      rw [Function.update_self]
      rfl
    · rw [Function.update_of_ne heq] at hfree ⊢
      exact h.wiped slot' hused hfree

end Held

/-! ## 2. The requests keep the slots -/

section Keep

variable {P : Platform} {fates : Fates} {keys : Keys} {used : Fin 32 → Bool} {pid : Pid}
  {id : UInt8} {A : Panic → Prop}

/-- A context is in its slot. -/
def Placed (keys : Keys) (used : Fin 32 → Bool) (pid : Pid) (id : UInt8) (slot : Fin 32)
    (m : Machine) : Prop :=
  Held keys used m ∧ m.slotOf pid id = some slot

/-- The clock of the AES peripheral is on. -/
def Lit (keys : Keys) (used : Fin 32 → Bool) (m : Machine) : Prop :=
  Held keys used m ∧ m.power.clock .aes = true

theorem Held.modify {f : Machine → Machine} {E : CryptoError → Machine → Prop}
    (hf : ∀ m, (f m).held = m.held) :
    Triple (Held keys used) (Prog.modify f) (fun _ => Held keys used) E A :=
  Triple.modify fun m hm => hm.congr (hf m)

theorem arithmetic_keep {Pre : Machine → Prop} {E : CryptoError → Machine → Prop} (b : Bool) :
    Triple Pre (arithmetic P b) (fun _ => Pre) E P.Panics :=
  Triple.require (fun _ _ hm => hm) fun hf => by
    have hboth : P.overflowChecks = true ∧ b = true := by simpa using hf
    exact ⟨rfl, hboth.1⟩

theorem idle_held (m : Machine) : (m.idle fates).held = m.held := by
  obtain ⟨transferring, completed, hidle⟩ := m.idle_eq fates
  rw [hidle]
  rfl

theorem ensureAesIdle_keep :
    Triple (Held keys used) (ensureAesIdle fates) (fun _ => Held keys used)
      (fun _ => Held keys used) A :=
  Held.modify fun m => idle_held m

theorem lookupContext_keep :
    Triple (Held keys used) (lookupContext pid id)
      (fun context => Placed keys used pid id context.keySlot) (fun _ => Held keys used)
      A :=
  Triple.get_bind fun m hm => Triple.okOr
    (fun context hfound s hs => by
      subst hs
      refine ⟨hm, ?_⟩
      rw [Machine.slotOf, hfound]
      rfl) fun _ s hs => hs ▸ hm

theorem readAesKey_keep {slot : Fin 32} :
    Triple (Placed keys used pid id slot) (readAesKey slot)
      (fun _ => Held keys used) (fun _ => Held keys used) A := by
  refine Triple.get_bind fun m hm => ?_
  obtain ⟨key, hkey⟩ := hm.1.hasKey hm.2
  have hreadable := hm.1.readable hm.2 hkey
  refine Triple.bind (Q := fun _ s => s = m)
    (Triple.require (fun _ s hs => hs) fun hf => absurd hreadable.magic (by rw [hf]; nofun))
    fun _ => ?_
  refine Triple.bind (Q := fun _ s => s = m) (Triple.require (fun _ s hs => hs) fun hf => ?_)
    fun _ => Triple.pure fun s hs => hs ▸ hm.1
  rw [hreadable.reads, hreadable.size] at hf
  cases hf

theorem updateContext_held {f : AesContext → AesContext} (hf : ∀ c, (f c).keySlot = c.keySlot)
    (m : Machine) : (m.setContext pid id ((m.aesContexts pid id).map f)).held = m.held := by
  show (_, _) = (_, _)
  rw [slotOf_edit hf]
  rfl

theorem updateContext_keep {f : AesContext → AesContext} (hf : ∀ c, (f c).keySlot = c.keySlot) :
    Triple (Held keys used) (updateContext pid id f) (fun _ => Held keys used)
      (fun _ => Held keys used) A :=
  Held.modify fun m => updateContext_held hf m

theorem updateContext_lit {f : AesContext → AesContext} (hf : ∀ c, (f c).keySlot = c.keySlot) :
    Triple (Lit keys used) (updateContext pid id f) (fun _ => Lit keys used)
      (fun _ => Held keys used) A :=
  Triple.modify fun m hm => ⟨hm.1.congr (updateContext_held hf m), hm.2⟩

theorem enableAes_keep :
    Triple (Held keys used) (enablePeripheral fates .aes) (fun _ => Lit keys used)
      (fun _ => Held keys used) A := by
  unfold enablePeripheral call
  split
  · exact Triple.throw fun m hm => hm
  · exact Triple.modify fun m hm =>
      ⟨hm.setPower fun _ h => (nomatch h), by rw [hm.sound.clock, if_pos rfl]⟩

theorem disableAes_keep :
    Triple (Held keys used) (disablePeripheral fates .aes) (fun _ => Held keys used)
      (fun _ => Held keys used) A := by
  unfold disablePeripheral call
  split
  · exact Triple.throw fun m hm => hm
  · exact Triple.modify fun m hm => hm.setPower fun _ h => (nomatch h)

theorem Lit.uses {m : Machine} (h : Lit keys used m) : Lit keys used (m.uses .aes) :=
  ⟨h.1.uses h.2, h.2⟩

theorem useAes_lit {f : Aes → Aes} :
    Triple (Lit keys used) (useAes f) (fun _ => Lit keys used) (fun _ => Held keys used)
      A :=
  Triple.modify fun _ hm => ⟨hm.uses.1.congr rfl, hm.2⟩

theorem checkExecute_keep {msg : AesExecute} :
    Triple (Held keys used) (checkExecute P fates msg pid)
      (fun context => Placed keys used pid msg.transferId context.keySlot)
      (fun _ => Held keys used) P.Panics := by
  refine Triple.bind (arithmetic_keep _) fun _ => Triple.get_bind fun m hm => ?_
  refine Triple.ite (fun _ => Triple.throw fun s hs => hs ▸ hm) fun _ => ?_
  refine Triple.bind (Triple.pre ensureAesIdle_keep fun s hs => hs ▸ hm) fun _ => ?_
  refine Triple.bind lookupContext_keep fun context => ?_
  refine Triple.ite (fun _ => Triple.throw fun s hs => hs.1) fun _ => ?_
  refine Triple.ite (fun _ => Triple.throw fun s hs => hs.1) fun _ => ?_
  exact Triple.ite (fun _ => Triple.throw fun s hs => hs.1) fun _ => Triple.pure fun s hs => hs

theorem executeMode_keep {msg : AesExecute} {key : Bytes} {mode : AesContextMode} :
    Triple (Held keys used) (executeMode msg pid key mode) (fun _ => Held keys used)
      (fun _ => Held keys used) A := by
  cases mode with
  | ecb => exact Triple.pure fun s hs => hs
  | gcm aadlen datalen iv ctr ghash => exact Triple.pure fun s hs => hs
  | ctr ctr =>
    exact Triple.ite (fun _ => Triple.throw fun s hs => hs) fun _ => Triple.pure fun s hs => hs
  | cbc iv =>
    refine Triple.get_bind fun m hm => ?_
    refine Triple.ite (fun _ => ?_) fun _ => Triple.pure fun s hs => hs ▸ hm
    exact Triple.bind (Triple.pre (updateContext_keep fun _ => rfl) fun s hs => hs ▸ hm) fun _ =>
      Triple.pure fun s hs => hs

theorem executeDma_lit {offset len : Nat} :
    Triple (Lit keys used) (executeDma P fates offset len) (fun _ => Lit keys used)
      (fun _ => Held keys used) A := by
  refine Triple.get_bind fun m hm => ?_
  refine Triple.ite (fun _ => ?_) fun _ => Triple.pure fun s hs => hs ▸ hm
  split
  · exact Triple.throw fun s hs => hs ▸ hm.1
  · exact Triple.bind (Q := fun _ => Held keys used)
      (Triple.modify fun s hs => by subst hs; exact hm.1.congr rfl) fun _ =>
        Triple.throw fun s hs => hs
  · exact Triple.bind (Q := fun _ => Held keys used)
      (Triple.modify fun s hs => by subst hs; exact hm.1.congr rfl) fun _ =>
        Triple.throw fun s hs => hs
  · exact Triple.modify fun s hs => by subst hs; exact ⟨hm.uses.1.congr rfl, hm.2⟩

theorem executeTail_lit {msg : AesExecute} {offset len : Nat} :
    Triple (Lit keys used) (executeTail P msg pid offset len) (fun _ => Lit keys used)
      (fun _ => Held keys used) A := by
  refine Triple.ite (fun _ => Triple.pure fun s hs => hs) fun _ => Triple.get_bind fun m hm => ?_
  refine Triple.bind (Q := fun _ => Lit keys used)
    (Triple.modify fun s hs => by subst hs; exact ⟨hm.uses.1.congr rfl, hm.2⟩) fun _ => ?_
  exact updateContext_lit fun _ => rfl

theorem advance_lit {msg : AesExecute} :
    Triple (Lit keys used) (advance P msg pid) (fun _ => Lit keys used)
      (fun _ => Held keys used) P.Panics := by
  refine Triple.bind (Q := fun _ => Lit keys used) (Triple.get_bind fun m hm =>
    Triple.okOr (fun _ _ s hs => hs ▸ hm) fun _ s hs => hs ▸ hm.1) fun context => ?_
  refine Triple.get_bind fun m hm => ?_
  obtain ⟨keySlot, finalized, mode⟩ := context
  cases mode with
  | ecb => exact Triple.pure fun _ hs => hs ▸ hm
  | ctr ctr => exact Triple.pre (updateContext_lit fun _ => rfl) fun _ hs => hs ▸ hm
  | gcm aadlen datalen iv ctr ghash =>
    refine Triple.bind (arithmetic_keep _) fun _ => Triple.bind (arithmetic_keep _) fun _ => ?_
    exact Triple.pre (updateContext_lit fun _ => rfl) fun _ hs => hs ▸ hm
  | cbc iv =>
    refine Triple.ite (fun _ => ?_) fun _ => Triple.pure fun _ hs => hs ▸ hm
    exact Triple.pre (updateContext_lit fun _ => rfl) fun _ hs => hs ▸ hm

theorem aesExecute_keep {msg : AesExecute} :
    Triple (Held keys used) (aesExecute P fates msg pid) (fun _ => Held keys used)
      (fun _ => Held keys used) P.Panics := by
  refine Triple.bind checkExecute_keep fun context => Triple.bind readAesKey_keep fun key =>
    Triple.bind executeMode_keep fun mode => Triple.bind enableAes_keep fun _ => ?_
  refine Triple.bind useAes_lit fun _ => Triple.bind executeDma_lit fun _ =>
    Triple.bind executeTail_lit fun _ => Triple.bind advance_lit fun _ => ?_
  exact Triple.bind (Triple.pre disableAes_keep fun s hs => hs.1) fun _ =>
    Triple.pure fun s hs => hs

theorem aesAad_keep {aad : Bytes} :
    Triple (Held keys used) (aesAad P fates id aad pid) (fun _ => Held keys used)
      (fun _ => Held keys used) P.Panics := by
  refine Triple.bind ensureAesIdle_keep fun _ => Triple.bind lookupContext_keep fun context => ?_
  refine Triple.ite (fun _ => Triple.throw fun s hs => hs.1) fun _ => ?_
  refine Triple.bind readAesKey_keep fun key => ?_
  obtain ⟨keySlot, finalized, mode⟩ := context
  cases mode with
  | ecb => exact Triple.throw fun s hs => hs
  | cbc iv => exact Triple.throw fun s hs => hs
  | ctr ctr => exact Triple.throw fun s hs => hs
  | gcm aadlen datalen iv ctr ghash =>
    refine Triple.ite (fun _ => Triple.throw fun s hs => hs) fun _ => ?_
    refine Triple.bind enableAes_keep fun _ => Triple.bind useAes_lit fun _ =>
      Triple.get_bind fun m hm => ?_
    refine Triple.bind (arithmetic_keep _) fun _ => ?_
    refine Triple.bind (Triple.pre (updateContext_lit fun _ => rfl) fun s hs => hs ▸ hm) fun _ => ?_
    exact Triple.bind (Triple.pre disableAes_keep fun s hs => hs.1) fun _ =>
      Triple.pure fun s hs => hs

theorem aesGetTag_keep :
    Triple (Held keys used) (aesGetTag P fates id pid) (fun _ => Held keys used)
      (fun _ => Held keys used) P.Panics := by
  refine Triple.bind ensureAesIdle_keep fun _ => Triple.bind lookupContext_keep fun context => ?_
  obtain ⟨keySlot, finalized, mode⟩ := context
  cases mode with
  | ecb => exact Triple.throw fun s hs => hs.1
  | cbc iv => exact Triple.throw fun s hs => hs.1
  | ctr ctr => exact Triple.throw fun s hs => hs.1
  | gcm aadlen datalen iv ctr ghash =>
    refine Triple.bind (Q := fun _ => Placed keys used pid id keySlot)
      (Triple.modify fun s hs => ⟨hs.1.congr (updateContext_held (f := fun c => { c with finalized := true }) (fun _ => rfl) s), ?_⟩)
      fun _ => ?_
    · exact (congrFun (congrFun (slotOf_edit (f := fun c => { c with finalized := true }) fun _ => rfl) pid) id).trans hs.2
    refine Triple.bind readAesKey_keep fun key => Triple.bind enableAes_keep fun _ => ?_
    refine Triple.bind (arithmetic_keep _) fun _ => Triple.bind (arithmetic_keep _) fun _ => ?_
    refine Triple.bind useAes_lit fun _ => Triple.get_bind fun m hm => ?_
    refine Triple.bind (Triple.pre useAes_lit fun s hs => hs ▸ hm) fun _ =>
      Triple.get_bind fun m' hm' => ?_
    exact Triple.bind (Triple.pre useAes_lit fun s hs => hs ▸ hm') fun _ =>
      Triple.pure fun s hs => hs.1

theorem setAesKey_spec {m : Machine} {slot : Fin 32} {key : Bytes}
    {E : CryptoError → Machine → Prop} (hmagic : m.securam.magic = true) (hE : ∀ e, E e m)
    :
    Triple (· = m) (setAesKey slot key)
      (fun _ s => isKeySize key.length = true ∧ s = { m with
        securam := { m.securam with
          aesKeys := Function.update m.securam.aesKeys slot (storedKey key) } }) E A := by
  refine Triple.get_bind fun s hs => ?_
  subst hs
  refine Triple.ite (fun _ => Triple.throw fun s hs => hs ▸ hE _) fun hsize => ?_
  refine Triple.bind (Q := fun _ t => t = s)
    (Triple.require (fun _ t ht => ht) fun hf => absurd hmagic (by rw [hf]; nofun)) fun _ => ?_
  refine Triple.modify fun t ht => ⟨?_, ht ▸ rfl⟩
  refine decide_eq_true ?_
  by_cases h16 : key.length = 16
  · exact .inl h16
  · by_cases h24 : key.length = 24
    · exact .inr (.inl h24)
    · by_cases h32 : key.length = 32
      · exact .inr (.inr h32)
      · exact absurd ⟨h16, h24, h32⟩ hsize

theorem allocateSecuramSlot_spec {m : Machine} {key : Bytes} {E : CryptoError → Machine → Prop}
    (hmagic : m.securam.magic = true) (hE : ∀ e, E e m) :
    Triple (· = m) (allocateSecuramSlot key)
      (fun slot s => m.securamSlotOccupied slot = false ∧ isKeySize key.length = true ∧
        s = { m with
          securam := { m.securam with
            aesKeys := Function.update m.securam.aesKeys slot (storedKey key) }
          securamSlotOccupied := Function.update m.securamSlotOccupied slot true }) E A := by
  refine Triple.get_bind fun s hs => ?_
  subst hs
  refine Triple.bind (Q := fun slot t => s.securamSlotOccupied slot = false ∧ t = s)
    (Triple.okOr (fun slot hfind t ht => ⟨?_, ht⟩) fun _ t ht => ht ▸ hE _) fun slot =>
      Triple.assume fun hfree => ?_
  · simpa using List.find?_some hfind
  refine Triple.bind (setAesKey_spec hmagic hE) fun _ => Triple.assume fun hsize => ?_
  exact Triple.bind (Q := fun _ t => t = _) (Triple.modify fun t ht => by rw [ht]) fun _ =>
    Triple.pure fun t ht => ⟨hfree, hsize, ht⟩

theorem aesSetupRounds_keep {key : Bytes} {mode : AesMode} (rounds : Nat) :
    Triple (Held keys used) (aesSetupRounds P key mode pid rounds)
      (fun id => Held (keys.set pid id (some key)) used) (fun _ => Held keys used) P.Panics := by
  induction rounds with
  | zero => exact Triple.throw fun s hs => hs
  | succ rounds ih =>
    refine Triple.get_bind fun m hm => Triple.bind (arithmetic_keep _) fun _ => ?_
    refine Triple.bind (Q := fun _ s => s = { m with nextContextId := m.nextContextId + 1 })
      (Triple.modify fun s hs => by rw [hs]) fun _ => ?_
    have hnext : Held keys used { m with nextContextId := m.nextContextId + 1 } := hm.congr rfl
    refine Triple.ite (fun _ => Triple.pre ih fun s hs => hs ▸ hnext) fun hfree => ?_
    have hnone : m.slotOf pid m.nextContextId = none := by
      rw [Machine.slotOf, Option.not_isSome_iff_eq_none.1 hfree]
      rfl
    refine Triple.bind (allocateSecuramSlot_spec hnext.magic fun _ => hnext) fun slot => ?_
    refine Triple.bind (Q := fun _ => Held (keys.set pid m.nextContextId (some key)) used)
      (Triple.modify fun s hs => ?_) fun _ => Triple.pure fun s hs => hs
    obtain ⟨hslot, hsize, rfl⟩ := hs
    exact @Held.insert _ _ _ _ _ hnext _ ⟨slot, false, mode.start⟩ hnone hslot hsize

theorem deallocateSecuramSlot_spec {m : Machine} {slot : Fin 32}
    {E : CryptoError → Machine → Prop} (hmagic : m.securam.magic = true) :
    Triple (· = m) (deallocateSecuramSlot slot)
      (fun _ s => s = { m with
        securam := { m.securam with
          aesKeys := Function.update m.securam.aesKeys slot (storedKey zeroes) }
        securamSlotOccupied := Function.update m.securamSlotOccupied slot false }) E A := by
  refine Triple.bind (Q := fun _ s => s = { m with
    securam := { m.securam with
      aesKeys := Function.update m.securam.aesKeys slot (storedKey zeroes) } })
    (Triple.unwrap ?_) fun _ => Triple.modify fun s hs => by rw [hs]
  intro s hs
  subst hs
  unfold setAesKey
  rw [bind_run, get_run]
  dsimp only
  rw [if_neg (by decide), bind_ok _ (require_run _ hmagic _)]
  rfl

/-- A context is cleared without an error. -/
theorem aesClear_keep {E : CryptoError → Machine → Prop} :
    Triple (Held keys used) (aesClear id pid) (fun _ => Held (keys.set pid id none) used) E
      A := by
  refine Triple.get_bind fun m hm => ?_
  split
  · next context hfound =>
    have hslot : m.slotOf pid id = some context.keySlot := by
      rw [Machine.slotOf, hfound]
      rfl
    refine Triple.bind (Q := fun _ s => s = m.setContext pid id none)
      (Triple.modify fun s hs => by rw [hs]) fun _ => ?_
    refine (deallocateSecuramSlot_spec (m := m.setContext pid id none) hm.magic).post
      fun _ s hs => ?_
    rw [hs]
    exact hm.remove hslot
  · next hnone =>
    refine Triple.pure fun s hs => ?_
    subst hs
    have hkeys : keys.set pid id none = keys := by
      funext pid' id'
      unfold Keys.set
      split
      · next heq =>
        obtain ⟨rfl, rfl⟩ := heq
        refine (Option.isSome_eq_false_iff.1 ?_ |> Option.isNone_iff_eq_none.1).symm
        rw [← hm.setUp, Machine.slotOf, hnone]
        rfl
      · rfl
    rw [hkeys]
    exact hm

theorem Held.withSha {m : Machine} (h : Held keys used m)
    {contexts : List ((Pid × UInt32) × ShaContext)} (hsha : contexts ≠ [] → m.power.clock .sha = true) :
    Held keys used { m with shaContexts := contexts } :=
  ⟨h.magic, h.setUp, h.key, h.own, h.occupied, h.wiped, hsha, h.sound, h.clocked⟩

/-- The SHA clock is switched off, if the call goes through. -/
theorem disableSha_keep :
    Triple (fun m => Held keys used m ∧ m.shaContexts = []) (disablePeripheral fates .sha)
      (fun _ => Held keys used) (fun _ => Held keys used) A := by
  unfold disablePeripheral call
  split
  · exact Triple.throw fun m hm => hm.1
  · exact Triple.modify fun m hm => hm.1.setPower fun hne _ => absurd hm.2 hne

theorem enableSha_keep {contexts : List ((Pid × UInt32) × ShaContext)} :
    Triple (fun m => Held keys used m ∧ m.shaContexts = contexts)
      (onlyIf contexts.isEmpty (enablePeripheral fates .sha))
      (fun _ m => Held keys used m ∧ m.shaContexts = contexts ∧ m.power.clock .sha = true)
      (fun _ => Held keys used) A := by
  refine Triple.onlyIf (fun _ => ?_) fun hne m hm => ⟨hm.1, hm.2, hm.1.sha fun hnil => hne ?_⟩
  · unfold enablePeripheral call
    split
    · exact Triple.throw fun m hm => hm.1
    · refine Triple.modify fun m hm => ⟨hm.1.setPower fun _ _ => rfl, hm.2, ?_⟩
      rw [hm.1.sound.clock, if_pos rfl]
  · rw [← hm.2, hnil]
    rfl

theorem hmac_keep {algo : ShaAlgo} {key data : Bytes} :
    Triple (Held keys used) (hmac P fates algo key data) (fun _ => Held keys used)
      (fun _ => Held keys used) A := by
  refine Triple.get_bind fun m hm => ?_
  refine Triple.bind (Triple.pre enableSha_keep fun s hs => ⟨hs ▸ hm, hs ▸ rfl⟩) fun _ => ?_
  refine Triple.bind (Q := fun _ s => Held keys used s ∧ s.shaContexts = m.shaContexts)
    (Triple.modify fun s hs => ⟨hs.1.uses hs.2.2, hs.2.1⟩) fun _ => ?_
  refine Triple.bind (Q := fun _ => Held keys used) ?_ fun _ => Triple.pure fun s hs => hs
  refine Triple.onlyIf (fun hempty => Triple.pre disableSha_keep fun s hs => ⟨hs.1, ?_⟩)
    fun _ s hs => hs.1
  exact hs.2.trans (List.isEmpty_iff.1 hempty)

theorem setHashState_ne_nil {key : Pid × UInt32} {hashState : Bytes}
    {contexts : List ((Pid × UInt32) × ShaContext)}
    (h : setHashState key hashState contexts ≠ []) : contexts ≠ [] := by
  rintro rfl
  exact h rfl

theorem shaSetContext_keep {msg : ShaSetContext} :
    Triple (Held keys used) (shaSetContext P fates pid msg) (fun _ => Held keys used)
      (fun _ => Held keys used) P.Panics := by
  refine Triple.get_bind fun m hm => ?_
  obtain ⟨contextId, algo, hashState⟩ := msg
  cases contextId with
  | some existingId =>
    refine Triple.ite (fun _ => ?_) fun _ => Triple.throw fun s hs => hs ▸ hm
    refine Triple.bind (Q := fun _ => Held keys used) (Triple.modify fun s hs => ?_) fun _ =>
      Triple.pure fun s hs => hs
    subst hs
    exact hm.withSha fun hne => hm.sha (setHashState_ne_nil hne)
  | none =>
    refine Triple.bind (Triple.pre enableSha_keep fun s hs => ⟨hs ▸ hm, hs ▸ rfl⟩) fun _ => ?_
    refine Triple.bind (arithmetic_keep _) fun _ => ?_
    refine Triple.bind (Q := fun _ => Held keys used) (Triple.modify fun s hs => ?_) fun _ =>
      Triple.pure fun s hs => hs
    exact (hs.1.withSha fun _ => hs.2.2).congr rfl

theorem call_keep {ε α : Type} {Pre : Machine → Prop} {convert : ε → CryptoError}
    {fate : Option ε} {done : Serve α} {Q : α → Machine → Prop} {E : CryptoError → Machine → Prop}
    (hE : ∀ e m, Pre m → E e m) (h : Triple Pre done Q E A) :
    Triple Pre (call convert fate done) Q E A := by
  unfold call
  split
  · exact Triple.throw fun m hm => hE _ m hm
  · exact h

theorem shaUpdate_keep {contextId length : UInt32} :
    Triple (Held keys used) (shaUpdate P fates pid contextId length) (fun _ => Held keys used)
      (fun _ => Held keys used) A := by
  refine Triple.get_bind fun m hm => ?_
  refine Triple.bind (Q := fun _ s => s = m ∧ m.shaContexts ≠ []) (Triple.okOr
    (fun context hfind s hs => ⟨hs, fun hnil => by rw [hnil] at hfind; cases hfind⟩)
    fun _ s hs => hs ▸ hm) fun context => ?_
  let On : Machine → Prop := fun s => Held keys used s ∧ s.power.clock .sha = true
  have hcall : ∀ {ε : Type} (convert : ε → CryptoError) (fate : Option ε), Triple On
      (call convert fate (return ())) (fun _ => On) (fun _ => Held keys used) A :=
    fun convert fate => call_keep (fun _ s hs => hs.1) (Triple.pure fun s hs => hs)
  refine Triple.bind (Q := fun _ => On) (Triple.modify fun s hs => ?_) fun _ => ?_
  · obtain ⟨rfl, hne⟩ := hs
    exact ⟨hm.uses (hm.sha hne), hm.sha hne⟩
  refine Triple.ite (fun _ => Triple.throw fun s hs => hs.1) fun _ => ?_
  refine Triple.bind (hcall _ _) fun _ => Triple.bind (hcall _ _) fun _ =>
    Triple.bind (hcall _ _) fun _ => ?_
  exact Triple.bind (Q := fun _ => Held keys used)
    (Triple.modify fun s hs => hs.1.withSha fun _ => hs.2) fun _ => Triple.pure fun s hs => hs

theorem shaGetContext_keep {contextId : UInt32} :
    Triple (Held keys used) (shaGetContext pid contextId) (fun _ => Held keys used)
      (fun _ => Held keys used) A :=
  Triple.get_bind fun _ hm => Triple.okOr (fun _ _ _ hs => hs ▸ hm) fun _ _ hs => hs ▸ hm

theorem retainSha_keep {keep : Pid × UInt32 → Bool} {E : CryptoError → Machine → Prop} :
    Triple (Held keys used) (retainSha fates keep) (fun _ => Held keys used) E A := by
  refine Triple.get_bind fun m hm => ?_
  have hleft : Held keys used
      { m with shaContexts := m.shaContexts.filter fun entry => keep entry.1 } :=
    hm.withSha fun hne => hm.sha fun hnil => hne (by rw [hnil]; rfl)
  refine Triple.bind (Q := fun _ s => s =
    { m with shaContexts := m.shaContexts.filter fun entry => keep entry.1 })
    (Triple.modify fun s hs => by rw [hs]) fun _ => ?_
  refine Triple.onlyIf (fun hempty => Triple.ignore ?_) fun _ s hs => hs ▸ hleft
  exact Triple.pre disableSha_keep fun s hs => ⟨hs ▸ hleft, by rw [hs]; exact hempty.2⟩

theorem startDiskEncryptDmas_keep {msg : DiskEncryptUnsafe} :
    Triple (Lit keys used) (startDiskEncryptDmas fates msg) (fun _ => Held keys used)
      (fun _ => Held keys used) A := by
  refine Triple.get_bind fun m hm => ?_
  refine Triple.bind (Q := fun _ => Lit keys used)
    (Triple.require (fun _ s hs => hs ▸ hm) fun hf => absurd hm.1.magic (by rw [hf]; nofun))
    fun _ => ?_
  refine Triple.ite (fun _ => Triple.throw fun s hs => hs.1) fun _ => ?_
  refine Triple.bind useAes_lit fun _ => ?_
  refine Triple.ite (fun _ => Triple.throw fun s hs => hs.1) fun _ => ?_
  refine Triple.bind (Q := fun _ => Lit keys used)
    (call_keep (fun _ s hs => hs.1) (Triple.pure fun s hs => hs)) fun _ => ?_
  exact call_keep (fun _ s hs => hs.1) (Triple.modify fun s hs => hs.1.congr rfl)

theorem diskEncryptStart_keep {msg : DiskEncryptUnsafe} :
    Triple (Held keys used) (diskEncryptStart fates msg) (fun _ => Held keys used)
      (fun _ => Held keys used) A := by
  refine Triple.ite (fun _ => Triple.throw fun s hs => hs) fun _ => ?_
  refine Triple.bind enableAes_keep fun _ => ?_
  refine Triple.bind (Q := fun _ => Lit keys used) (Triple.modify fun s hs => ?_) fun _ => ?_
  · refine ⟨hs.1.congr (idle_held s), ?_⟩
    have hpower : (s.idle fates).power = s.power := congrArg (·.2.2.2.2.1) (idle_held s)
    show (s.idle fates).power.clock .aes = true
    rw [hpower]
    exact hs.2
  refine Triple.bind (Q := fun _ => Held keys used)
    (Triple.attempt startDiskEncryptDmas_keep) fun started => ?_
  cases started with
  | ok u => exact Triple.modify fun s hs => hs.congr rfl
  | error e =>
    exact Triple.bind (Triple.ignore disableAes_keep) fun _ => Triple.throw fun s hs => hs

theorem onDmaTransferComplete_keep :
    Triple (Held keys used) (onDmaTransferComplete fates) (fun _ => Held keys used)
      (fun _ => Held keys used) A := by
  refine Triple.get_bind fun m hm => ?_
  refine Triple.ite (fun _ => Triple.pure fun s hs => hs ▸ hm) fun _ => ?_
  refine Triple.bind (Q := fun _ => Held keys used)
    (Triple.modify fun s hs => by subst hs; exact hm.congr rfl) fun _ => ?_
  exact Triple.bind (Triple.ignore disableAes_keep) fun _ => Triple.pure fun s hs => hs

/-- Some contexts of a client are cleared, the rest are still to do. -/
structure Clearing (keys : Keys) (used : Fin 32 → Bool) (pid : Pid) (rest : List UInt8)
    (m : Machine) : Prop where
  held : ∃ keys' : Keys, Held keys' used m ∧ (∀ pid' id, pid' ≠ pid → keys' pid' id = keys pid' id) ∧
    ∀ id, id ∉ rest → keys' pid id = none

/-- The contexts of a client are cleared without an error. -/
theorem clearClientContexts_keep {E : CryptoError → Machine → Prop} :
    Triple (Held keys used) (clearClientContexts fates pid)
      (fun _ => Held (fun pid' id => if pid' = pid then none else keys pid' id) used) E
      A := by
  have hloop : Triple (Clearing keys used pid contextIds)
      (forEach contextIds fun id => aesClear id pid) (fun _ => Clearing keys used pid []) E
      A := by
    refine Triple.forEach_rest fun i rest s hs => ?_
    obtain ⟨⟨keys', hheld, hothers, hdone⟩⟩ := hs
    have hclear := (aesClear_keep : Triple (Held keys' used) (aesClear i pid) _ (fun _ _ => False)
      A) s hheld
    revert hclear
    rcases aesClear i pid s with ⟨outcome, t⟩
    cases outcome with
    | ok u =>
      refine fun hcleared => ⟨_, hcleared, fun pid' id' hne => ?_, fun id' hid => ?_⟩
      · rw [Keys.set, if_neg fun h => hne h.1]
        exact hothers pid' id' hne
      · rw [Keys.set]
        split
        · rfl
        · next hne =>
          refine hdone id' fun hmem => ?_
          rcases List.mem_cons.1 hmem with rfl | hmem
          · exact hne ⟨rfl, rfl⟩
          · exact hid hmem
    | err e => exact False.elim
    | panic p => exact fun hp => hp
  have hall : ∀ id : UInt8, id ∈ contextIds := fun id =>
    List.mem_map.2 ⟨id.toNat, List.mem_range.2 id.toNat_lt, UInt8.ofNat_toNat⟩
  refine Triple.bind (Triple.pre hloop fun m hm =>
    ⟨keys, hm, fun _ _ _ => rfl, fun id hid => absurd (hall id) hid⟩) fun _ => ?_
  refine Triple.conseq (P := Held (fun pid' id => if pid' = pid then none else keys pid' id) used)
    retainSha_keep (fun m hm => ?_) (fun _ _ hm => hm) (fun _ _ hm => hm) fun _ hp => hp
  obtain ⟨⟨keys', hheld, hothers, hdone⟩⟩ := hm
  have hkeys : keys' = fun pid' id => if pid' = pid then none else keys pid' id := by
    funext pid' id
    split
    · next heq => exact heq ▸ hdone id List.not_mem_nil
    · next hne => exact hothers pid' id hne
  exact hkeys ▸ hheld

end Keep

/-! ## 3. Runs -/

namespace World

def keys (w : World) : Keys := fun pid id => (w.sessions pid id).map (·.key)

/-- While it runs, the server holds the keys that its clients have set up; only a sum can have
crashed it. -/
structure Sound (P : Platform) (w : World) : Prop where
  held : w.crashed = false → Held w.keys w.used w.machine
  crash : w.crashed = true → P.overflowChecks = true

section Sound

variable {P : Platform} {w : World}

theorem Held.mark {keys : Keys} {used : Fin 32 → Bool} {m : Machine} (h : Held keys used m) :
    Held keys (fun slot => used slot || m.securamSlotOccupied slot) m := by
  refine ⟨h.magic, h.setUp, h.key, h.own, h.occupied, fun slot hused hfree => ?_, h.sha, h.sound,
    h.clocked⟩
  rw [hfree, Bool.or_false] at hused
  exact h.wiped slot hused hfree

/-- A request that is served and recorded. -/
theorem Sound.serve {α : Type} {x : Serve α} {recorded : α → Machine → World → World}
    {keys : α → Keys} (hlive : w.crashed = false)
    (hx : Triple (Held w.keys w.used) x (fun a => Held (keys a) w.used)
      (fun _ => Held w.keys w.used) P.Panics)
    (hheld : Held w.keys w.used w.machine)
    (hkeys : ∀ a m v, v.keys = w.keys → (recorded a m v).keys = keys a)
    (hrest : ∀ a m v, (recorded a m v).machine = v.machine ∧ (recorded a m v).used = v.used ∧
      (recorded a m v).crashed = v.crashed) : Sound P (w.serve x recorded) := by
  have h := hx w.machine hheld
  revert h
  unfold World.serve
  rcases x w.machine with ⟨outcome, m⟩
  cases outcome with
  | ok a =>
    intro hm
    obtain ⟨hmachine, hused, hcrashed⟩ := hrest a m
      { w with machine := m, used := fun s => w.used s || m.securamSlotOccupied s }
    refine ⟨fun _ => ?_, fun hcrash => ?_⟩
    · have hkeys := hkeys a m
        { w with machine := m, used := fun s => w.used s || m.securamSlotOccupied s } rfl
      dsimp only
      rw [hkeys, hmachine, hused]
      exact Held.mark hm
    · have hcrash : (recorded a m _).crashed = true := hcrash
      rw [hcrashed] at hcrash
      exact absurd hcrash (by rw [hlive]; nofun)
  | err e =>
    exact fun hm => ⟨fun _ => hm, fun hcrash => absurd hcrash (by dsimp only; rw [hlive]; nofun)⟩
  | panic p => exact fun hp => ⟨nofun, fun _ => hp.2⟩

theorem unrecorded_rest {α : Type} (a : α) (m : Machine) (v : World) :
    (unrecorded a m v).machine = v.machine ∧ (unrecorded a m v).used = v.used ∧
      (unrecorded a m v).crashed = v.crashed := ⟨rfl, rfl, rfl⟩

/-- Of a session only its key counts. -/
theorem record_keys {v : World} {pid : Pid} {id : UInt8} {f : Session → Session}
    (hf : ∀ session, (f session).key = session.key) : (v.record pid id f).keys = v.keys := by
  funext pid' id'
  unfold World.keys World.record Sessions.record Sessions.set
  dsimp only
  split
  · next heq =>
    obtain ⟨rfl, rfl⟩ := heq
    rw [Option.map_map]
    congr 1
    exact funext hf
  · rfl

theorem set_keys {v : World} {pid : Pid} {id : UInt8} {session : Option Session} :
    ({ v with sessions := Sessions.set v.sessions pid id session } : World).keys =
      v.keys.set pid id (session.map (·.key)) := by
  funext pid' id'
  unfold World.keys Sessions.set Keys.set
  dsimp only
  split <;> rfl

theorem Sound.request (h : Sound P w) (hlive : w.crashed = false) (act : Act) :
    Sound P (w.request P act) := by
  have hheld := h.held hlive
  have hlend : ∀ buf, Held (w.lend buf).keys (w.lend buf).used (w.lend buf).machine :=
    fun buf => hheld.congr rfl
  have hlive' : w.crashed ≠ true := by rw [hlive]; nofun
  have hrecord : ∀ (v : World) {pid id} {f : Session → Session}, (∀ session, (f session).key = session.key) →
      v.keys = w.keys → (v.record pid id f).keys = w.keys :=
    fun v _ _ _ hf hv => (record_keys hf).trans hv
  unfold World.request
  cases act with
  | aesSetup sender key mode =>
    dsimp only
    exact Sound.serve hlive (aesSetupRounds_keep 255) hheld
      (fun id m v hv => set_keys.trans (by rw [hv]; rfl)) fun _ _ _ => ⟨rfl, rfl, rfl⟩
  | aesExecute sender msg buf fates =>
    dsimp only
    exact Sound.serve hlive aesExecute_keep (hlend buf)
      (fun _ m v hv => hrecord v (fun _ => rfl) hv) fun _ _ _ => ⟨rfl, rfl, rfl⟩
  | aesAad sender id aad fates =>
    dsimp only
    exact Sound.serve hlive aesAad_keep hheld
      (fun _ m v hv => hrecord v (fun _ => rfl) hv) fun _ _ _ => ⟨rfl, rfl, rfl⟩
  | aesGcmTag sender id fates =>
    dsimp only
    exact Sound.serve hlive aesGetTag_keep hheld
      (fun _ m v hv => hrecord v (fun _ => rfl) hv) fun _ _ _ => ⟨rfl, rfl, rfl⟩
  | aesClear sender id =>
    dsimp only
    exact Sound.serve hlive aesClear_keep hheld
      (fun _ m v hv => set_keys.trans (by rw [hv]; rfl)) fun _ _ _ => ⟨rfl, rfl, rfl⟩
  | shaSetContext sender msg fates =>
    dsimp only
    exact Sound.serve hlive shaSetContext_keep hheld (fun _ _ v hv => hv) unrecorded_rest
  | shaUpdate sender contextId length buf fates =>
    dsimp only
    exact Sound.serve hlive shaUpdate_keep (hlend buf) (fun _ _ v hv => hv) unrecorded_rest
  | shaGetContext sender contextId =>
    dsimp only
    exact Sound.serve hlive shaGetContext_keep hheld (fun _ _ v hv => hv) unrecorded_rest
  | shaDrop sender contextId fates =>
    dsimp only
    exact Sound.serve hlive retainSha_keep hheld (fun _ _ v hv => hv) unrecorded_rest
  | hmac algo key data fates =>
    dsimp only
    exact Sound.serve hlive hmac_keep hheld (fun _ _ v hv => hv) unrecorded_rest
  | clientDisconnected pid fates =>
    dsimp only
    refine Sound.serve hlive clearClientContexts_keep hheld (fun _ m v hv => ?_)
      fun _ _ _ => ⟨rfl, rfl, rfl⟩
    funext pid' id
    have hv : (v.sessions pid' id).map (·.key) = w.keys pid' id := congrFun (congrFun hv pid') id
    show Option.map _ (if pid' = pid then none else v.sessions pid' id) = _
    rw [← hv]
    split <;> rfl
  | subscribeDiskEncryptComplete => exact ⟨fun _ => hheld.congr rfl, fun hc => absurd hc hlive'⟩
  | diskEncrypt msg fates =>
    dsimp only
    split
    · exact h
    · exact Sound.serve hlive diskEncryptStart_keep hheld (fun _ _ v hv => hv)
        fun _ _ _ => ⟨rfl, rfl, rfl⟩
  | dmaCompletes =>
    refine ⟨fun _ => ?_, fun hc => absurd hc hlive'⟩
    refine hheld.congr ?_
    show w.machine.transferEnds.held = _
    unfold Machine.transferEnds
    split <;> rfl
  | transferComplete fates =>
    dsimp only
    split
    · refine Sound.serve (w := { w with machine := { w.machine with completed := false } }) hlive
        onDmaTransferComplete_keep (hheld.congr rfl) (fun told _ v hv => ?_) fun told _ v => ?_
      · cases told <;> exact hv
      · cases told <;> exact ⟨rfl, rfl, rfl⟩
    · exact h

theorem Sound.step (h : Sound P w) (act : Act) : Sound P (w.step P act) := by
  unfold World.step
  split
  · exact h
  · next hlive => exact h.request (Bool.eq_false_iff.2 hlive) act

theorem Sound.run (h : Sound P w) (acts : List Act) : Sound P (w.run P acts) := by
  induction acts generalizing w with
  | nil => exact h
  | cons act acts ih => exact ih (h.step act)

theorem started_sound (aesKeys : Fin 32 → AesKey) (diskEncryptionKeys : Bytes × Bytes) :
    Sound P (started aesKeys diskEncryptionKeys) :=
  ⟨fun _ => ⟨rfl, fun _ _ => rfl, nofun, nofun, fun _ => ⟨nofun, fun ⟨_, _, h⟩ => nomatch h⟩, nofun,
    nofun, fun _ => rfl, rfl⟩, nofun⟩

end Sound

end World

end Crypto
