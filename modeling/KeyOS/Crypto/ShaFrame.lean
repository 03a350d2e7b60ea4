import KeyOS.Crypto.Contexts
import KeyOS.Crypto.StreamingCalls
import KeyOS.Crypto.Streams

/-!
# What requests leave of the hash states

A request on a SHA context changes the entry of that context. A request of another kind changes no
entry; the entries of a process are lost when it has gone, and all of them when the server crashes.
-/

namespace Crypto

open BlockModes Exec Prog

/-! ## 1. The table of hash states -/

section Table

variable {contexts : List ((Pid × UInt32) × ShaContext)} {key key' : Pid × UInt32}
  {context : ShaContext} {hashState : Bytes}

theorem findSha_cons {entry : (Pid × UInt32) × ShaContext} :
    findSha (entry :: contexts) key =
      if entry.1 = key then some entry.2 else findSha contexts key := by
  unfold findSha
  by_cases h : entry.1 = key <;> simp [h]

theorem findSha_filter {keep : Pid × UInt32 → Bool} :
    findSha (contexts.filter fun entry => keep entry.1) key =
      if keep key then findSha contexts key else none := by
  induction contexts with
  | nil => simp [findSha]
  | cons entry contexts ih =>
    rw [List.filter_cons]
    by_cases hkeep : keep entry.1
    · rw [if_pos hkeep, findSha_cons, findSha_cons, ih]
      by_cases hkey : entry.1 = key
      · rw [if_pos hkey, if_pos hkey, ← hkey, if_pos hkeep]
      · rw [if_neg hkey, if_neg hkey]
    · rw [if_neg hkeep, ih, findSha_cons]
      by_cases hkey : entry.1 = key
      · rw [← hkey, if_neg hkeep, if_neg hkeep]
      · rw [if_neg hkey]

theorem findSha_insertSha :
    findSha (insertSha contexts key context) key' =
      if key = key' then some context else findSha contexts key' := by
  have hfilter := @findSha_filter contexts key' fun k => k ≠ key
  rw [insertSha, findSha_cons]
  split
  · rfl
  · next hne =>
    rw [hfilter, if_pos]
    exact decide_eq_true fun heq => hne heq.symm

theorem findSha_setHashState :
    findSha (setHashState key hashState contexts) key' =
      if key = key' then
        (findSha contexts key').map fun context => { context with hashState := hashState }
      else findSha contexts key' := by
  induction contexts with
  | nil => simp [setHashState, findSha]
  | cons entry contexts ih =>
    show findSha ((if entry.1 = key then _ else entry) :: setHashState key hashState contexts)
      key' = _
    rw [findSha_cons, ih, findSha_cons]
    by_cases hentry : entry.1 = key
    · rw [if_pos hentry]
      by_cases hkey : entry.1 = key'
      · rw [if_pos hkey, if_pos (hentry.symm.trans hkey), if_pos hkey]
        rfl
      · rw [if_neg hkey, if_neg hkey]
    · rw [if_neg hentry]
      by_cases hkey : entry.1 = key'
      · rw [if_pos hkey, if_pos hkey, if_neg fun heq => hentry (hkey.trans heq.symm)]
      · rw [if_neg hkey, if_neg hkey]

end Table

/-! ## 2. What a request does to the table -/

/-- Nothing but the entry under `key` has changed. -/
def OnlyAt (m : Machine) (key : Pid × UInt32) (m' : Machine) : Prop :=
  ∀ key', key' ≠ key → findSha m'.shaContexts key' = findSha m.shaContexts key'

section Requests

variable {P : Platform} {fates : Fates} {m : Machine} {pid : Pid} {A : Panic → Prop}

theorem enableSha_spec :
    Triple (· = m) (onlyIf m.shaContexts.isEmpty (enablePeripheral fates .sha))
      (fun _ m' => m'.shaContexts = m.shaContexts ∧ m'.lastShaContextId = m.lastShaContextId)
      (fun _ m' => m'.shaContexts = m.shaContexts) A := by
  refine Triple.onlyIf (fun _ => call_keep (fun _ s hs => hs ▸ rfl) ?_) fun _ s hs =>
    hs ▸ ⟨rfl, rfl⟩
  exact Triple.modify fun s hs => hs ▸ ⟨rfl, rfl⟩

theorem shaSetContext_spec {msg : ShaSetContext} :
    Triple (· = m) (shaSetContext P fates pid msg)
      (fun id m' => OnlyAt m (pid, id) m' ∧
        (msg.contextId = none → id = m.lastShaContextId + 1) ∧
        msg.Answered (msg.contextId.bind fun id => findSha m.shaContexts (pid, id)) id
          (findSha m'.shaContexts (pid, id)))
      (fun _ m' => m'.shaContexts = m.shaContexts) fun _ => True := by
  obtain ⟨contextId, algo, hashState⟩ := msg
  refine Triple.get_bind fun m₀ hm₀ => ?_
  subst hm₀
  cases contextId with
  | some existingId =>
    refine Triple.ite (fun hsome => ?_) fun _ => Triple.throw fun s hs => hs ▸ rfl
    obtain ⟨context, hcontext⟩ := Option.isSome_iff_exists.1 hsome
    refine Triple.bind (Q := fun _ s => s.shaContexts =
      setHashState (pid, existingId) hashState m₀.shaContexts)
      (Triple.modify fun s hs => hs ▸ rfl) fun _ => Triple.pure fun s hs => ?_
    refine ⟨fun key' hne => ?_, fun hnone => absurd hnone (Option.some_ne_none _),
      Or.inr ⟨rfl, context, hcontext, ?_⟩⟩
    · rw [hs, findSha_setHashState, if_neg hne.symm]
    · rw [hs, findSha_setHashState, if_pos rfl, hcontext]
      rfl
  | none =>
    refine Triple.bind enableSha_spec fun _ => ?_
    refine Triple.bind (Q := fun _ s => s.shaContexts = m₀.shaContexts)
      (Triple.require (fun _ s hs => hs.1) fun _ => trivial) fun _ => ?_
    refine Triple.bind (Q := fun _ s => s.shaContexts =
      insertSha m₀.shaContexts (pid, m₀.lastShaContextId + 1) ⟨algo, hashState⟩)
      (Triple.modify fun s hs => ?_) fun _ => Triple.pure fun s hs => ?_
    · show insertSha s.shaContexts _ _ = _
      rw [hs]
    · refine ⟨fun key' hne => ?_, fun _ => rfl, Or.inl ⟨rfl, ?_⟩⟩
      · rw [hs, findSha_insertSha, if_neg hne.symm]
      · rw [hs, findSha_insertSha, if_pos rfl]

theorem shaUpdate_spec {contextId length : UInt32} :
    Triple (· = m) (shaUpdate P fates pid contextId length)
      (fun _ m' => OnlyAt m (pid, contextId) m' ∧
        ∃ context, findSha m.shaContexts (pid, contextId) = some context ∧
          findSha m'.shaContexts (pid, contextId) = some { context with
            hashState := P.shaBlocks context.algo context.hashState (m.lent.take length.toNat) })
      (fun _ m' => m'.shaContexts = m.shaContexts) fun _ => True := by
  have hcall {ε : Type} (convert : ε → CryptoError) (fate : Option ε) :
      Triple (fun s => s.shaContexts = m.shaContexts ∧ s.lent = m.lent)
        (call convert fate (return ())) (fun _ s => s.shaContexts = m.shaContexts ∧ s.lent = m.lent)
        (fun _ s => s.shaContexts = m.shaContexts) fun _ => True :=
    call_keep (fun _ s hs => hs.1) (Triple.pure fun s hs => hs)
  refine Triple.get_bind fun m₀ hm₀ => ?_
  subst hm₀
  refine Triple.bind (Q := fun context s => s = m₀ ∧
    findSha m₀.shaContexts (pid, contextId) = some context)
    (Triple.okOr (fun context hcontext s hs => ⟨hs, hcontext⟩) fun _ s hs => hs ▸ rfl)
    fun context => ?_
  refine Triple.pre (Triple.assume (c := findSha m₀.shaContexts (pid, contextId) = some context)
    (P := (· = m₀)) fun hcontext => ?_) fun s hs => ⟨hs.2, hs.1⟩
  refine Triple.bind (Q := fun _ s => s.shaContexts = m₀.shaContexts ∧ s.lent = m₀.lent)
    (Triple.modify fun s hs => hs ▸ ⟨rfl, rfl⟩) fun _ => ?_
  refine Triple.ite (fun _ => Triple.throw fun s hs => hs.1) fun _ => ?_
  refine Triple.bind (hcall _ _) fun _ => Triple.bind (hcall _ _) fun _ =>
    Triple.bind (hcall _ _) fun _ => ?_
  refine Triple.bind (Q := fun _ s => s.shaContexts = setHashState (pid, contextId)
    (P.shaBlocks context.algo context.hashState (m₀.lent.take length.toNat)) m₀.shaContexts)
    (Triple.modify fun s hs => ?_) fun _ => Triple.pure fun s hs => ?_
  · show setHashState _ _ s.shaContexts = _
    rw [hs.1]
  · refine ⟨fun key' hne => ?_, context, hcontext, ?_⟩
    · rw [hs, findSha_setHashState, if_neg hne.symm]
    · rw [hs, findSha_setHashState, if_pos rfl, hcontext]
      rfl

theorem shaGetContext_spec {contextId : UInt32} :
    Triple (· = m) (shaGetContext pid contextId)
      (fun context m' => m' = m ∧ findSha m.shaContexts (pid, contextId) = some context)
      (fun _ m' => m'.shaContexts = m.shaContexts) A :=
  Triple.get_bind fun _ hm => Triple.okOr (fun _ hcontext _ hs => ⟨hs.trans hm, hm ▸ hcontext⟩)
    fun _ _ hs => hs ▸ hm ▸ rfl

end Requests

/-! ## 3. Other requests -/

/-- A program that does not touch the table. -/
abbrev Spares {α : Type} (contexts : List ((Pid × UInt32) × ShaContext)) (x : Serve α) : Prop :=
  Keeps (fun m => m.shaContexts = contexts) x fun _ => True

section Spares

variable {α β : Type} {contexts : List ((Pid × UInt32) × ShaContext)} {P : Platform} {fates : Fates}
  {pid : Pid} {id : UInt8} {msg : AesExecute}

theorem Spares.pure {a : α} : Spares contexts (Pure.pure a : Serve α) := Triple.pure fun _ hs => hs

theorem Spares.throw {e : CryptoError} : Spares contexts (Prog.throw e : Serve α) :=
  Triple.throw fun _ hs => hs

theorem Spares.get : Spares contexts (Prog.get : Serve Machine) := Triple.get fun _ hs => hs

theorem Spares.modify {f : Machine → Machine} (h : ∀ m, (f m).shaContexts = m.shaContexts) :
    Spares contexts (Prog.modify f) := Triple.modify fun m hm => (h m).trans hm

theorem Spares.require {p : Panic} {c : Bool} : Spares contexts (Prog.require p c) :=
  Triple.require (fun _ _ hs => hs) fun _ => trivial

theorem Spares.okOr {e : CryptoError} {x : Option α} : Spares contexts (Prog.okOr e x) :=
  Triple.okOr (fun _ _ _ hs => hs) fun _ _ hs => hs

theorem Spares.bind {x : Serve α} {f : α → Serve β} (hx : Spares contexts x)
    (hf : ∀ a, Spares contexts (f a)) : Spares contexts (x >>= f) := Triple.bind hx hf

theorem Spares.ite {c : Prop} [Decidable c] {x y : Serve α} (hx : Spares contexts x)
    (hy : Spares contexts y) : Spares contexts (if c then x else y) :=
  Triple.ite (fun _ => hx) fun _ => hy

theorem Spares.call {ε : Type} {convert : ε → CryptoError} {fate : Option ε} {done : Serve α}
    (h : Spares contexts done) : Spares contexts (call convert fate done) :=
  call_keep (fun _ _ hs => hs) h

theorem Spares.ignore {x : Serve α} (h : Spares contexts x) : Spares contexts (Prog.ignore x) :=
  Triple.ignore h

theorem enable_spares {peripheral : PeripheralId} :
    Spares contexts (enablePeripheral fates peripheral) := .call (.modify fun _ => rfl)

theorem disable_spares {peripheral : PeripheralId} :
    Spares contexts (disablePeripheral fates peripheral) := .call (.modify fun _ => rfl)

theorem useAes_spares {f : Aes → Aes} : Spares contexts (useAes f) := .modify fun _ => rfl

theorem transferEnds_shaContexts (m : Machine) : m.transferEnds.shaContexts = m.shaContexts := by
  unfold Machine.transferEnds
  split <;> rfl

theorem ensureAesIdle_spares : Spares contexts (ensureAesIdle fates) := by
  refine .modify fun m => ?_
  split
  · exact transferEnds_shaContexts m
  · rfl

theorem setAesKey_spares {slot : Fin 32} {key : Bytes} : Spares contexts (setAesKey slot key) :=
  .bind .get fun _ => .ite .throw (.bind .require fun _ => .modify fun _ => rfl)

theorem lookupContext_spares : Spares contexts (lookupContext pid id) := .bind .get fun _ => .okOr

theorem readAesKey_spares {slot : Fin 32} : Spares contexts (readAesKey slot) :=
  .bind .get fun _ => .bind .require fun _ => .bind .require fun _ => .pure

theorem updateContext_spares {f : AesContext → AesContext} :
    Spares contexts (updateContext pid id f) := .modify fun _ => rfl

theorem allocateSecuramSlot_spares {key : Bytes} : Spares contexts (allocateSecuramSlot key) :=
  .bind .get fun _ => .bind .okOr fun _ => .bind setAesKey_spares fun _ =>
    .bind (.modify fun _ => rfl) fun _ => .pure

theorem aesSetupRounds_spares {key : Bytes} {mode : AesMode} (rounds : Nat) :
    Spares contexts (aesSetupRounds P key mode pid rounds) := by
  induction rounds with
  | zero => exact .throw
  | succ rounds ih =>
    refine .bind .get fun m => .bind .require fun _ => .bind (.modify fun _ => rfl) fun _ => ?_
    exact .ite ih (.bind allocateSecuramSlot_spares fun _ =>
      .bind (.modify fun _ => rfl) fun _ => .pure)

theorem checkExecute_spares : Spares contexts (checkExecute P fates msg pid) :=
  .bind .require fun _ => .bind .get fun _ => .ite .throw (.bind ensureAesIdle_spares fun _ =>
    .bind lookupContext_spares fun _ => .ite .throw (.ite .throw (.ite .throw .pure)))

theorem executeMode_spares {key : Bytes} {mode : AesContextMode} :
    Spares contexts (executeMode msg pid key mode) := by
  cases mode with
  | ecb => exact .pure
  | cbc iv => exact .bind .get fun _ => .ite (.bind updateContext_spares fun _ => .pure) .pure
  | gcm aadlen datalen iv ctr ghash => exact .pure
  | ctr iv => exact .ite .throw .pure

theorem executeDma_spares {offset len : Nat} : Spares contexts (executeDma P fates offset len) := by
  refine .bind .get fun m => .ite ?_ .pure
  split
  · exact .throw
  · exact .bind (.modify fun _ => rfl) fun _ => .throw
  · exact .bind (.modify fun _ => rfl) fun _ => .throw
  · exact .modify fun _ => rfl

theorem executeTail_spares {offset len : Nat} :
    Spares contexts (executeTail P msg pid offset len) :=
  .ite .pure (.bind .get fun _ => .bind (.modify fun _ => rfl) fun _ => updateContext_spares)

theorem advance_spares : Spares contexts (advance P msg pid) := by
  refine .bind lookupContext_spares fun context => .bind .get fun m => ?_
  split
  · exact .pure
  · exact .ite updateContext_spares .pure
  · exact .bind .require fun _ => .bind .require fun _ => updateContext_spares
  · exact updateContext_spares

theorem aesExecute_spares : Spares contexts (aesExecute P fates msg pid) :=
  .bind checkExecute_spares fun _ => .bind readAesKey_spares fun _ =>
    .bind executeMode_spares fun _ => .bind enable_spares fun _ => .bind useAes_spares fun _ =>
      .bind executeDma_spares fun _ => .bind executeTail_spares fun _ =>
        .bind advance_spares fun _ => .bind disable_spares fun _ => .pure

theorem aesAad_spares {aad : Bytes} : Spares contexts (aesAad P fates id aad pid) := by
  refine .bind ensureAesIdle_spares fun _ =>
    .bind lookupContext_spares fun context => .ite .throw ?_
  refine .bind readAesKey_spares fun key => ?_
  split
  · exact .ite .throw (.bind enable_spares fun _ => .bind useAes_spares fun _ => .bind .get fun _ =>
      .bind .require fun _ => .bind updateContext_spares fun _ =>
        .bind disable_spares fun _ => .pure)
  · exact .throw

theorem aesGetTag_spares : Spares contexts (aesGetTag P fates id pid) := by
  refine .bind ensureAesIdle_spares fun _ => .bind lookupContext_spares fun context => ?_
  split
  · refine .bind updateContext_spares fun _ => .bind readAesKey_spares fun _ =>
      .bind enable_spares fun _ => .bind .require fun _ => .bind .require fun _ => ?_
    exact .bind useAes_spares fun _ => .bind .get fun _ => .bind useAes_spares fun _ =>
      .bind .get fun _ => .bind useAes_spares fun _ => .pure
  · exact .throw

theorem aesClear_spares : Spares contexts (aesClear id pid) := by
  refine .bind .get fun m => ?_
  split
  · exact .bind (.modify fun _ => rfl) fun _ => .bind
      (Triple.unwrap (setAesKey_spares.conseq (fun _ hs => hs) (fun _ _ hs => hs)
        (fun _ _ _ => trivial) fun _ hp => hp)) fun _ => .modify fun _ => rfl
  · exact .pure

theorem diskEncryptStart_spares {msg : DiskEncryptUnsafe} :
    Spares contexts (diskEncryptStart fates msg) := by
  have hstart : Spares contexts (startDiskEncryptDmas fates msg) :=
    .bind .get fun _ => .bind .require fun _ => .ite .throw (.bind useAes_spares fun _ =>
      .ite .throw (.bind (.call .pure) fun _ => .call (.modify fun _ => rfl)))
  refine .ite .throw (.bind enable_spares fun _ => .bind ensureAesIdle_spares fun _ =>
    .bind (Triple.attempt hstart) fun started => ?_)
  cases started with
  | ok _ => exact .modify fun _ => rfl
  | error e => exact .bind (.ignore disable_spares) fun _ => .throw

theorem onDmaTransferComplete_spares : Spares contexts (onDmaTransferComplete fates) :=
  .bind .get fun _ => .ite .pure (.bind (.modify fun _ => rfl) fun _ =>
    .bind (.ignore disable_spares) fun _ => .pure)

theorem hmac_spares {algo : ShaAlgo} {key data : Bytes} :
    Spares contexts (hmac P fates algo key data) := by
  refine .bind .get fun m => .bind (.ite enable_spares .pure) fun _ =>
    .bind (.modify fun _ => rfl) fun _ => .bind (.ite disable_spares .pure) fun _ => .pure

end Spares

/-! ## 4. What is lost -/

section Lost

variable {P : Platform} {fates : Fates} {w w' : World} {key : Pid × UInt32} {act : Act}

/-- What is under a key is as it was, or it is lost, because its process or the server has gone. -/
def Lost (gone : Option Pid) (w w' : World) : Prop :=
  ∀ key, w'.find key = w.find key ∨ w'.find key = none ∧ (w'.crashed = true ∨ gone = some key.1)

theorem find_crashed (h : w.crashed = true) : w.find key = none := by
  rw [World.find, if_pos h]

theorem find_of_live (h : w.crashed = false) : w.find key = findSha w.machine.shaContexts key := by
  rw [World.find, h]
  rfl

/-- Nothing but the sessions differs. -/
theorem find_congr (hmachine : w'.machine.shaContexts = w.machine.shaContexts)
    (hcrashed : w'.crashed = w.crashed) : w'.find key = w.find key := by
  rw [World.find, World.find, hmachine, hcrashed]

theorem Lost.of_eq {gone : Option Pid} (hmachine : w'.machine.shaContexts = w.machine.shaContexts)
    (hcrashed : w'.crashed = w.crashed) : Lost gone w w' :=
  fun _ => .inl (find_congr hmachine hcrashed)

/-- What a request has done to an entry, when it has not panicked. -/
theorem find_serve {α : Type} {R : Option ShaContext → Prop} {x : Serve α}
    {recorded : α → Machine → World → World} (hlive : w.crashed = false)
    (hrecorded : ∀ a m w, (recorded a m w).machine = w.machine ∧
      (recorded a m w).crashed = w.crashed)
    (hx : Triple (· = w.machine) x (fun _ m => R (findSha m.shaContexts key))
      (fun _ m => R (findSha m.shaContexts key)) fun _ => True) :
    R ((w.serve x recorded).find key) ∨
      (w.serve x recorded).find key = none ∧ (w.serve x recorded).crashed = true := by
  have hrun := hx w.machine rfl
  rw [World.serve]
  revert hrun
  rcases x w.machine with ⟨o, m⟩
  cases o with
  | ok a =>
    intro hrun
    obtain ⟨hmachine, hcrashed⟩ := hrecorded a m { w with
      machine := m, used := fun s => w.used s || m.securamSlotOccupied s }
    dsimp only
    rw [find_of_live (hcrashed.trans hlive), hmachine]
    exact .inl hrun
  | err e =>
    intro hrun
    dsimp only
    rw [find_of_live (w := { w with machine := m }) hlive]
    exact .inl hrun
  | panic p => exact fun _ => .inr ⟨find_crashed rfl, rfl⟩

theorem Lost.serve {α : Type} {gone : Option Pid} {x : Serve α}
    {recorded : α → Machine → World → World} (hlive : w.crashed = false)
    (hrecorded : ∀ a m w, (recorded a m w).machine = w.machine ∧
      (recorded a m w).crashed = w.crashed)
    (hx : Triple (· = w.machine) x
      (fun _ m => ∀ key, findSha m.shaContexts key = findSha w.machine.shaContexts key ∨
        findSha m.shaContexts key = none ∧ gone = some key.1)
      (fun _ m => ∀ key, findSha m.shaContexts key = findSha w.machine.shaContexts key ∨
        findSha m.shaContexts key = none ∧ gone = some key.1) fun _ => True) :
    Lost gone w (w.serve x recorded) := by
  intro key
  have hentry := find_serve (R := fun entry => entry = findSha w.machine.shaContexts key ∨
    entry = none ∧ gone = some key.1) hlive hrecorded
    (hx.conseq (fun _ hs => hs) (fun _ _ hm => hm key) (fun _ _ hm => hm key) fun _ hp => hp)
  rw [find_of_live hlive]
  rcases hentry with (hsame | ⟨hnone, hgone⟩) | ⟨hnone, hcrashed⟩
  · exact .inl hsame
  · exact .inr ⟨hnone, .inr hgone⟩
  · exact .inr ⟨hnone, .inl hcrashed⟩

theorem Lost.spares {α : Type} {gone : Option Pid} {x : Serve α}
    {recorded : α → Machine → World → World} (hlive : w.crashed = false)
    (hrecorded : ∀ a m w, (recorded a m w).machine = w.machine ∧
      (recorded a m w).crashed = w.crashed)
    (hx : Spares w.machine.shaContexts x) : Lost gone w (w.serve x recorded) :=
  Lost.serve hlive hrecorded (hx.conseq (fun _ hs => hs ▸ rfl) (fun _ _ hs _ => .inl (hs ▸ rfl))
    (fun _ _ hs _ => .inl (hs ▸ rfl)) fun _ _ => trivial)

theorem retainSha_spec {m : Machine} {keep : Pid × UInt32 → Bool} :
    Triple (fun s => s.shaContexts = m.shaContexts) (retainSha fates keep)
      (fun _ s => s.shaContexts = m.shaContexts.filter fun entry => keep entry.1)
      (fun _ s => s.shaContexts = m.shaContexts.filter fun entry => keep entry.1)
      fun _ => True := by
  refine Triple.get_bind fun m₀ hm₀ => ?_
  rw [← hm₀]
  refine Triple.bind
    (Q := fun _ s => s.shaContexts = m₀.shaContexts.filter fun entry => keep entry.1)
    (Triple.modify fun s hs => rfl) fun _ => ?_
  exact Triple.onlyIf (fun _ => Triple.ignore disable_spares) fun _ _ hs => hs

theorem unrecorded_keeps {α : Type} (a : α) (m : Machine) (w : World) :
    (World.unrecorded a m w).machine = w.machine ∧ (World.unrecorded a m w).crashed = w.crashed :=
  ⟨rfl, rfl⟩

theorem other_lost (hlive : w.crashed = false) (hother : act.streaming = false) :
    Lost act.leaves w (w.request P act) := by
  cases act with
  | aesSetup sender key mode =>
    exact Lost.spares hlive (fun _ _ _ => ⟨rfl, rfl⟩) (aesSetupRounds_spares 255)
  | aesExecute sender msg buf fates =>
    exact @Lost.spares (w.lend buf) _ _ _ _ hlive (fun _ _ _ => ⟨rfl, rfl⟩) aesExecute_spares
  | aesAad sender id aad fates =>
    exact Lost.spares hlive (fun _ _ _ => ⟨rfl, rfl⟩) aesAad_spares
  | aesGcmTag sender id fates =>
    exact Lost.spares hlive (fun _ _ _ => ⟨rfl, rfl⟩) aesGetTag_spares
  | aesClear sender id => exact Lost.spares hlive (fun _ _ _ => ⟨rfl, rfl⟩) aesClear_spares
  | hmac algo key data fates => exact Lost.spares hlive unrecorded_keeps hmac_spares
  | clientDisconnected pid fates =>
    have hfewer (s : Machine)
        (hs : s.shaContexts = w.machine.shaContexts.filter fun entry => entry.1.1 ≠ pid)
        (key : Pid × UInt32) : findSha s.shaContexts key = findSha w.machine.shaContexts key ∨
          findSha s.shaContexts key = none ∧ some pid = some key.1 := by
      have hfilter := @findSha_filter w.machine.shaContexts key fun key => key.1 ≠ pid
      rw [hs, hfilter]
      by_cases hpid : key.1 = pid
      · exact .inr ⟨by simp [hpid], by rw [hpid]⟩
      · exact .inl (by simp [hpid])
    refine Lost.serve hlive (fun _ _ _ => ⟨rfl, rfl⟩)
      (Triple.bind (Q := fun _ s => s.shaContexts = w.machine.shaContexts) ?_ fun _ => ?_)
    · have hclear : Spares w.machine.shaContexts (forEach contextIds fun id => aesClear id pid) :=
        Triple.forEach fun _ _ => aesClear_spares
      exact hclear.conseq (fun s hs => hs ▸ rfl) (fun _ _ hs => hs)
        (fun _ s hs key => .inl (hs ▸ rfl)) fun _ hp => hp
    · exact retainSha_spec.conseq (fun _ hs => hs) (fun _ => hfewer) (fun _ => hfewer)
        fun _ hp => hp
  | subscribeDiskEncryptComplete => exact Lost.of_eq rfl rfl
  | diskEncrypt msg fates =>
    show Lost none w (if w.awaiting then _ else _)
    split
    · exact Lost.of_eq rfl rfl
    · exact Lost.spares hlive (fun _ _ _ => ⟨rfl, rfl⟩) diskEncryptStart_spares
  | dmaCompletes => exact Lost.of_eq (transferEnds_shaContexts _) rfl
  | transferComplete fates =>
    show Lost none w (if w.machine.completed then _ else _)
    split
    · refine @Lost.spares { w with machine := { w.machine with completed := false } } _ _ _ _ hlive
        (fun told m w => ?_) onDmaTransferComplete_spares
      split <;> exact ⟨rfl, rfl⟩
    · exact Lost.of_eq rfl rfl
  | shaSetContext sender msg fates => cases hother
  | shaUpdate sender contextId length buf fates => cases hother
  | shaGetContext sender contextId => cases hother
  | shaDrop sender contextId fates => cases hother

theorem step_lost (hother : act.streaming = false) : Lost act.leaves w (w.step P act) := by
  unfold World.step
  split
  · exact Lost.of_eq rfl rfl
  · next hlive => exact other_lost (by simpa using hlive) hother

/-- A `ShaDrop` takes the entry that it names. -/
theorem shaDrop_find {pid : Pid} {id : UInt32} (hne : key ≠ (pid, id)) :
    (w.step P (.shaDrop pid id fates)).find key = w.find key ∨
      (w.step P (.shaDrop pid id fates)).find key = none ∧
        (w.step P (.shaDrop pid id fates)).crashed = true := by
  unfold World.step
  split
  · exact .inl rfl
  · next hcrashed =>
    have hlive : w.crashed = false := by simpa using hcrashed
    have hfilter (s : Machine)
        (hs : s.shaContexts = w.machine.shaContexts.filter fun entry => entry.1 ≠ (pid, id)) :
        findSha s.shaContexts key = w.find key := by
      have hkeep := @findSha_filter w.machine.shaContexts key fun key => key ≠ (pid, id)
      rw [hs, hkeep, if_pos (by simpa using hne), find_of_live hlive]
    exact find_serve (R := (· = w.find key)) hlive unrecorded_keeps
      (retainSha_spec.conseq (fun s hs => hs ▸ rfl) (fun _ => hfilter) (fun _ => hfilter)
        fun _ hp => hp)

theorem live_of_step (h : (w.step P act).crashed = false) : w.crashed = false := by
  unfold World.step at h
  split at h
  · exact h
  · next hlive => simpa using hlive

end Lost

end Crypto
