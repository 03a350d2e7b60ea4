import KeyOS.QuantumLink.Server
import KeyOS.Lib.History

/-!
# Only the paired device is obeyed, and once

Bytes are delivered in any order and as often as anyone likes. What the server has acted on is
read off the history: the device paired at the time, the heartbeat sent last, and the envelopes
that took effect. An envelope that was dispatched is either remembered by the id cache or expired,
unless the clock is moved back under an id that the cache has forgotten.
-/

namespace QuantumLink

open History

variable {X A : Type}

/-! ## 1. What a history says -/

namespace Event

/-- The envelope that the event acts on. -/
def source : Event X A → Option (Bytes × UnsealedEnvoyMessage X A)
  | .clockSet bytes u => some (bytes, u)
  | .paired bytes u => some (bytes, u)
  | .dispatched bytes u => some (bytes, u)
  | _ => none

/-- The envelope takes effect. -/
def Effect (bytes : Bytes) : Event X A → Prop
  | .paired b _ => b = bytes
  | .dispatched b _ => b = bytes
  | _ => False

def pairedAfter (device : Option X) : Event X A → Option X
  | .paired _ u => some u.sender
  | .unpaired => none
  | _ => device

def heartbeatAfter (sent : Option RequestId) : Event X A → Option RequestId
  | .heartbeatSent requestId => some requestId
  | _ => sent

/-- A device is paired by a pairing request and by nothing else. -/
def KindMatches : Event X A → Prop
  | .paired _ u => ∃ request, u.message = .pairingRequest request
  | .dispatched _ u => ∀ request, u.message ≠ .pairingRequest request
  | _ => True

end Event

open Event (Effect pairedAfter heartbeatAfter)

def pairedIn (es : List (Event X A)) : Option X := es.foldl pairedAfter none

def lastHeartbeat (es : List (Event X A)) : Option RequestId := es.foldl heartbeatAfter none

/-- A message is dispatched only while its sender is the paired device. -/
def FromPaired (es : List (Event X A)) : Prop :=
  ∀ i bytes u, At es i (.dispatched bytes u) → pairedIn (es.take i) = some u.sender

def TakesEffectOnce (es : List (Event X A)) : Prop :=
  ∀ i j (e e' : Event X A) bytes,
    At es i e → At es j e' → e.Effect bytes → e'.Effect bytes → i = j

/-- The clock is set at `i` by a pairing request that succeeds, or by the paired device's reply to
the heartbeat sent last. -/
def ClockReason (es : List (Event X A)) (i : Nat) (bytes : Bytes)
    (u : UnsealedEnvoyMessage X A) : Prop :=
  (∃ request, u.message = .pairingRequest request ∧
    At es (i + 1) (.paired bytes u) ∧ At es (i + 2) (.pairingComplete bytes)) ∨
  (∃ requestId timestampMs, u.message = .heartbeat ⟨some requestId, some timestampMs⟩ ∧
    lastHeartbeat (es.take i) = some requestId ∧ pairedIn (es.take i) = some u.sender)

def ClockTraced (es : List (Event X A)) : Prop :=
  ∀ i bytes u, At es i (.clockSet bytes u) → ClockReason es i bytes u

section Histories

variable {es new : List (Event X A)} {e : Event X A} {i : Nat} {bytes : Bytes}
  {u : UnsealedEnvoyMessage X A}

theorem pairedIn_snoc : pairedIn (es ++ [e]) = pairedAfter (pairedIn es) e := by
  simp [pairedIn]

theorem lastHeartbeat_snoc : lastHeartbeat (es ++ [e]) = heartbeatAfter (lastHeartbeat es) e := by
  simp [lastHeartbeat]

theorem take_append (h : i < es.length) : (es ++ new).take i = es.take i :=
  List.take_append_of_le_length (Nat.le_of_lt h)

/-- The event at a position of a history that is one event longer. -/
theorem at_snoc {e' : Event X A} (h : At (es ++ [e]) i e') :
    At es i e' ∨ i = es.length ∧ e' = e := by
  rcases at_or_new h with hold | ⟨hle, hmem⟩
  · exact .inl hold
  · have hlt := lt_of_at h
    rw [List.length_append, List.length_singleton] at hlt
    exact .inr ⟨by omega, List.mem_singleton.1 hmem⟩

theorem FromPaired.snoc (h : FromPaired es)
    (he : ∀ bytes u, e = .dispatched bytes u → pairedIn es = some u.sender) :
    FromPaired (es ++ [e]) := by
  intro i bytes u hat
  rcases at_snoc hat with hold | ⟨rfl, hnew⟩
  · rw [take_append (lt_of_at hold)]
    exact h i bytes u hold
  · rw [List.take_left']
    · exact he bytes u hnew.symm
    · rfl

theorem TakesEffectOnce.snoc (h : TakesEffectOnce es)
    (he : ∀ bytes, e.Effect bytes → ∀ e' ∈ es, ¬ e'.Effect bytes) :
    TakesEffectOnce (es ++ [e]) := by
  intro i j a b bytes hi hj ha hb
  rcases at_snoc hi with oldi | ⟨newi, rfl⟩
  · rcases at_snoc hj with oldj | ⟨newj, rfl⟩
    · exact h i j a b bytes oldi oldj ha hb
    · exact absurd ha (he bytes hb a (List.mem_of_getElem? oldi))
  · rcases at_snoc hj with oldj | ⟨newj, rfl⟩
    · exact absurd hb (he bytes ha b (List.mem_of_getElem? oldj))
    · exact newi.trans newj.symm

theorem ClockReason.append (h : ClockReason es i bytes u) (hi : i < es.length) :
    ClockReason (es ++ new) i bytes u := by
  rcases h with ⟨request, hm, hp, hc⟩ | ⟨requestId, ms, hm, hb, hp⟩
  · exact .inl ⟨request, hm, at_append hp, at_append hc⟩
  · rw [← @take_append _ _ _ new _ hi] at hb hp
    exact .inr ⟨requestId, ms, hm, hb, hp⟩

theorem ClockTraced.append (h : ClockTraced es)
    (hnew : ∀ i bytes u, es.length ≤ i → At (es ++ new) i (.clockSet bytes u) →
      ClockReason (es ++ new) i bytes u) : ClockTraced (es ++ new) := by
  intro i bytes u hat
  rcases at_or_new hat with hold | ⟨hle, -⟩
  · exact (h i bytes u hold).append (lt_of_at hold)
  · exact hnew i bytes u hle hat

/-- Events that do not set the clock. -/
theorem ClockTraced.others (h : ClockTraced es) (hnew : ∀ bytes u, .clockSet bytes u ∉ new) :
    ClockTraced (es ++ new) :=
  h.append fun _ bytes u hle hat => by
    rcases at_or_new hat with hold | ⟨-, hmem⟩
    · exact absurd (lt_of_at hold) (Nat.not_lt.2 hle)
    · exact absurd hmem (hnew bytes u)

end Histories

/-! ## 2. The invariant -/

/-- Every envelope dispatched is remembered, or expired at the instant. -/
def Remembered (w : World X A) (t : Int) : Prop :=
  ∀ bytes u, .dispatched bytes u ∈ w.history →
    (u.arid, u.expiresAt) ∈ w.server.aridCache ∨ u.expiresAt ≤ t

structure Guarded (w : World X A) : Prop where
  authentic : ∀ e ∈ w.history, ∀ bytes u, e.source = some (bytes, u) →
    w.sealed.lookup bytes = some u
  device : pairedIn w.history = w.server.pairedDevice.map PairedDevice.xid
  beat : ∀ requestId, w.server.heartbeatState.timeSync = some requestId →
    lastHeartbeat w.history = some requestId
  kinds : ∀ e ∈ w.history, e.KindMatches
  fromPaired : FromPaired w.history
  once : TakesEffectOnce w.history
  remembered : Remembered w w.now

/-- What the server does between two events: the clock goes forward, and a heartbeat that is
waited for may be given up. -/
theorem Guarded.quiet {w w' : World X A} (h : Guarded w) (hhist : w'.history = w.history)
    (hsealed : w'.sealed = w.sealed)
    (hdevice : w'.server.pairedDevice = w.server.pairedDevice)
    (hcache : w'.server.aridCache = w.server.aridCache)
    (hbeat : w'.server.heartbeatState.timeSync = none ∨
      w'.server.heartbeatState.timeSync = w.server.heartbeatState.timeSync)
    (hnow : w.now ≤ w'.now) : Guarded w' where
  authentic := by rw [hhist, hsealed]; exact h.authentic
  device := by rw [hhist, hdevice]; exact h.device
  beat := by
    intro requestId hsync
    rw [hhist]
    rcases hbeat with hnone | hsame
    · rw [hnone] at hsync
      cases hsync
    · exact h.beat requestId (hsame ▸ hsync)
  kinds := by rw [hhist]; exact h.kinds
  fromPaired := by rw [hhist]; exact h.fromPaired
  once := by rw [hhist]; exact h.once
  remembered := by
    intro bytes u hmem
    rw [hcache]
    rw [hhist] at hmem
    exact (h.remembered bytes u hmem).imp_right fun hle => Int.le_trans hle hnow

/-- One event more, with what the server is after it. -/
theorem Guarded.event {w w' : World X A} (h : Guarded w) (e : Event X A)
    (hhist : w'.history = w.history ++ [e]) (hsealed : w'.sealed = w.sealed)
    (hauth : ∀ bytes u, e.source = some (bytes, u) → w.sealed.lookup bytes = some u)
    (hdevice : pairedAfter (w.server.pairedDevice.map PairedDevice.xid) e =
      w'.server.pairedDevice.map PairedDevice.xid)
    (hbeat : ∀ requestId, w'.server.heartbeatState.timeSync = some requestId →
      heartbeatAfter w.server.heartbeatState.timeSync e = some requestId)
    (hkind : e.KindMatches)
    (hfrom : ∀ bytes u, e = .dispatched bytes u →
      w.server.pairedDevice.map PairedDevice.xid = some u.sender)
    (hfresh : ∀ bytes, e.Effect bytes → ∀ e' ∈ w.history, ¬ e'.Effect bytes)
    (hkept : Remembered w' w'.now) : Guarded w' where
  authentic := by
    intro e' hmem bytes u hsource
    rw [hsealed]
    rw [hhist, List.mem_append, List.mem_singleton] at hmem
    rcases hmem with hold | rfl
    · exact h.authentic e' hold bytes u hsource
    · exact hauth bytes u hsource
  device := by rw [hhist, pairedIn_snoc, h.device, hdevice]
  beat := by
    intro requestId hsync
    have hnew := hbeat requestId hsync
    rw [hhist, lastHeartbeat_snoc]
    cases e with
    | heartbeatSent id => exact hnew
    | _ => exact h.beat requestId hnew
  kinds := by
    intro e' hmem
    rw [hhist, List.mem_append, List.mem_singleton] at hmem
    rcases hmem with hold | rfl
    · exact h.kinds e' hold
    · exact hkind
  fromPaired := by
    rw [hhist]
    exact h.fromPaired.snoc fun bytes u heq => h.device.trans (hfrom bytes u heq)
  once := by
    rw [hhist]
    exact h.once.snoc hfresh
  remembered := hkept

/-- An event about no envelope leaves what is remembered. -/
theorem Remembered.event {w w' : World X A} {t : Int} {e : Event X A} (h : Remembered w t)
    (hhist : w'.history = w.history ++ [e])
    (hcache : w'.server.aridCache = w.server.aridCache)
    (he : ∀ bytes u, e ≠ .dispatched bytes u) : Remembered w' t := by
  intro bytes u hmem
  rw [hhist, List.mem_append, List.mem_singleton] at hmem
  rw [hcache]
  rcases hmem with hold | hnew
  · exact h bytes u hold
  · exact absurd hnew.symm (he bytes u)

/-- An event about no envelope. -/
theorem Guarded.note {w w' : World X A} (h : Guarded w) (e : Event X A)
    (he : e.source = none) (hhist : w'.history = w.history ++ [e]) (hsealed : w'.sealed = w.sealed)
    (hdevice : pairedAfter (w.server.pairedDevice.map PairedDevice.xid) e =
      w'.server.pairedDevice.map PairedDevice.xid)
    (hbeat : ∀ requestId, w'.server.heartbeatState.timeSync = some requestId →
      heartbeatAfter w.server.heartbeatState.timeSync e = some requestId)
    (hcache : w'.server.aridCache = w.server.aridCache) (hnow : w'.now = w.now) : Guarded w' := by
  have hnot : ∀ bytes u, e ≠ .dispatched bytes u := by
    rintro bytes u rfl
    cases he
  refine h.event e hhist hsealed ?_ hdevice hbeat ?_ ?_ ?_ ?_
  · intro bytes u hsource
    rw [he] at hsource
    cases hsource
  · cases e with
    | paired _ _ => cases he
    | dispatched _ _ => cases he
    | _ => trivial
  · intro bytes u heq
    exact absurd heq (hnot bytes u)
  · intro bytes heffect
    cases e with
    | paired _ _ => cases he
    | dispatched _ _ => cases he
    | _ => exact heffect.elim
  · rw [hnow]
    exact h.remembered.event hhist hcache hnot

/-! ## 3. Steps of the server alone -/

section Server

variable {w : World X A}

theorem Guarded.serveNothing (h : Guarded w) {s : QuantumLinkServer X A}
    (hdevice : s.pairedDevice = w.server.pairedDevice)
    (hcache : s.aridCache = w.server.aridCache)
    (hbeat : s.heartbeatState.timeSync = none ∨
      s.heartbeatState.timeSync = w.server.heartbeatState.timeSync) :
    Guarded (w.serve (s, [])) :=
  h.quiet (List.append_nil _) rfl hdevice hcache hbeat (Int.le_refl _)

theorem heartbeatFailure_timeSync (s : QuantumLinkServer X A) :
    s.heartbeatFailure.heartbeatState.timeSync = none ∨
      s.heartbeatFailure.heartbeatState.timeSync = s.heartbeatState.timeSync := by
  simp only [QuantumLinkServer.heartbeatFailure]
  split
  · exact .inl rfl
  · exact .inr rfl

theorem heartbeatFailure_pairedDevice (s : QuantumLinkServer X A) :
    s.heartbeatFailure.pairedDevice = s.pairedDevice := by
  simp only [QuantumLinkServer.heartbeatFailure]
  split <;> rfl

theorem heartbeatFailure_aridCache (s : QuantumLinkServer X A) :
    s.heartbeatFailure.aridCache = s.aridCache := by
  simp only [QuantumLinkServer.heartbeatFailure]
  split <;> rfl

theorem Guarded.heartbeatTick (h : Guarded w) (env : Env) :
    Guarded (w.serve (w.server.heartbeatTick env)) := by
  simp only [QuantumLinkServer.heartbeatTick]
  split
  next =>
    split
    · exact h.serveNothing rfl rfl (.inr rfl)
    · exact h.note (.heartbeatSent env.requestId) rfl rfl rfl rfl
        (fun requestId hsync => hsync) rfl rfl
  next => exact h.serveNothing rfl rfl (.inr rfl)
  next =>
    refine h.serveNothing (heartbeatFailure_pairedDevice _) (heartbeatFailure_aridCache _) ?_
    rcases heartbeatFailure_timeSync { w.server with
        heartbeatState := { w.server.heartbeatState with timeSync := none } } with hnone | hsame
    · exact .inl hnone
    · exact .inl hsame

theorem Guarded.setBleState (h : Guarded w) (env : Env) (connected : Bool) :
    Guarded (w.serve (w.server.setBleState env connected)) := by
  simp only [QuantumLinkServer.setBleState]
  split
  · have hset : Guarded (w.serve ({ w.server with
        btConnected := connected, missedHeartbeats := 0 }, [])) :=
      h.serveNothing rfl rfl (.inr rfl)
    have htick := hset.heartbeatTick env
    simpa [World.serve] using htick
  · split
    · exact h.serveNothing rfl rfl (.inl rfl)
    · exact h.serveNothing rfl rfl (.inr rfl)

theorem Guarded.handleHeartbeatSendResult (h : Guarded w) (ok : Bool) :
    Guarded (w.serve (w.server.handleHeartbeatSendResult ok, [])) := by
  cases ok with
  | true => exact h.serveNothing rfl rfl (.inr rfl)
  | false =>
    exact h.serveNothing (heartbeatFailure_pairedDevice _) (heartbeatFailure_aridCache _)
      (heartbeatFailure_timeSync _)

theorem Guarded.unpair (h : Guarded w) : Guarded (w.serve w.server.unpair) := by
  simp only [QuantumLinkServer.unpair]
  split
  · exact h.serveNothing rfl rfl (.inr rfl)
  · exact h.note .unpaired rfl rfl rfl rfl (fun requestId hsync => by cases hsync) rfl rfl

end Server

/-! ## 4. The id cache -/

section Cache

variable [DecidableEq A] {cache : List (A × Int)} {arid : A} {expiresAt now : Int}

/-- An id is forgotten only when its envelope has expired. -/
theorem checkAndStore_keeps {entry : A × Int} (hmem : entry ∈ cache) (hlive : now < entry.2) :
    entry ∈ (checkAndStore cache arid expiresAt now).2 := by
  have hkept : entry ∈ cache.filter fun entry => now < entry.2 :=
    List.mem_filter.2 ⟨hmem, decide_eq_true hlive⟩
  simp only [checkAndStore]
  split
  · exact hkept
  · split
    · exact hkept
    · exact List.mem_cons_of_mem _ hkept

theorem checkAndStore_fresh (h : (checkAndStore cache arid expiresAt now).1 = .fresh) :
    now < expiresAt ∧ (∀ entry ∈ cache, entry.1 = arid → entry.2 ≤ now) ∧
      (arid, expiresAt) ∈ (checkAndStore cache arid expiresAt now).2 := by
  simp only [checkAndStore] at h ⊢
  split at h
  · cases h
  next hexpires =>
    split at h
    · cases h
    next hnew =>
      rw [if_neg hexpires, if_neg hnew]
      refine ⟨Int.not_le.1 hexpires, fun entry hmem heq => ?_, List.mem_cons_self⟩
      refine Int.not_lt.1 fun hlive => hnew ?_
      exact List.mem_map.2 ⟨entry, List.mem_filter.2 ⟨hmem, decide_eq_true hlive⟩, heq⟩

end Cache

/-! ## 5. Received messages -/

/-- What a message must not do: pair with an envelope that has paired before, set the clock for a
pairing that cannot be answered, or set it back to where an envelope that was dispatched and
forgotten is not expired. -/
def Careful (w : World X A) (env : Env) (bytes : Bytes) (u : UnsealedEnvoyMessage X A) : Prop :=
  match u.message with
  | .pairingRequest request =>
    w.server.pairedDevice = none → request.xidDocument = some u.sender →
      u.timestamp * 1000 * 1000000 < 2 ^ 64 →
        (∀ u', .paired bytes u' ∉ w.history) ∧
        (w.server.shouldSetSystemTime = true →
          env.deviceId.isSome ∧ (w.server.osVersion.or env.osVersionInfo).isSome ∧
          Remembered w (u.timestamp * 1000 * 1000000 : Nat))
  | .heartbeat ⟨some requestId, some timestampMs⟩ =>
    w.server.pairedDevice.map PairedDevice.xid = some u.sender →
      w.server.heartbeatState.timeSync = some requestId →
      w.server.shouldSetSystemTime = true → timestampMs * 1000000 < 2 ^ 64 →
        Remembered w (timestampMs * 1000000 : Nat)
  | _ => True

/-- The invariant of careful runs. -/
structure Held (w : World X A) : Prop where
  guarded : Guarded w
  clock : ClockTraced w.history

section Messages

variable {w : World X A} {env : Env} {bytes : Bytes} {u : UnsealedEnvoyMessage X A}

section Check

variable [DecidableEq A]

theorem Guarded.checkReplay (h : Guarded w) (config : Config) :
    Guarded (w.checkReplay config u).2 := by
  simp only [World.checkReplay]
  split
  · exact h
  · split
    · exact h
    · have hkept : Guarded { w with server := { w.server with
          aridCache := (checkAndStore w.server.aridCache u.arid u.expiresAt w.now).2 } } := by
        refine ⟨h.authentic, h.device, h.beat, h.kinds, h.fromPaired, h.once, ?_⟩
        intro b u' hmem
        rcases h.remembered b u' hmem with hcache | hle
        · rcases Int.lt_or_le w.now u'.expiresAt with hlive | hle
          · exact .inl (checkAndStore_keeps hcache hlive)
          · exact .inr hle
        · exact .inr hle
      split <;> exact hkept

/-- The check changes the id cache alone. -/
theorem checkReplay_frame (config : Config) :
    (w.checkReplay config u).2 = { w with server := { w.server with
      aridCache := (w.checkReplay config u).2.server.aridCache } } := by
  simp only [World.checkReplay]
  split
  · rfl
  · split
    · rfl
    · split <;> rfl

/-- An envelope that passes is not expired, and neither remembered before nor forgotten after. -/
theorem checkReplay_ok {config : Config} (h : (w.checkReplay config u).1 = .ok ()) :
    w.now < u.expiresAt ∧ (∀ entry ∈ w.server.aridCache, entry.1 = u.arid → entry.2 ≤ w.now) ∧
      (u.arid, u.expiresAt) ∈ (w.checkReplay config u).2.server.aridCache := by
  simp only [World.checkReplay] at h ⊢
  split at h
  · cases h
  next hlive =>
    split at h
    · cases h
    next hnear =>
      rw [if_neg hlive, if_neg hnear]
      split at h
      next hfresh => simpa only [hfresh] using checkAndStore_fresh hfresh
      · cases h
      · cases h

/-- A message that passes the check is dispatched for the first time. -/
theorem Guarded.dispatch (h : Guarded w) {config : Config}
    (hlookup : w.sealed.lookup bytes = some u) (hkind : ∀ request, u.message ≠ .pairingRequest request)
    (hpaired : w.server.pairedDevice.map PairedDevice.xid = some u.sender)
    (hok : (w.checkReplay config u).1 = .ok ()) :
    Guarded ((w.checkReplay config u).2.serve
      ((w.checkReplay config u).2.server.dispatchQlMessage u.message, [.dispatched bytes u])) := by
  obtain ⟨hlive, hnew, hstored⟩ := checkReplay_ok hok
  have hframe := checkReplay_frame (w := w) (u := u) config
  have hw := h.checkReplay (u := u) config
  generalize (w.checkReplay config u).2 = w' at hframe hw hstored ⊢
  have hdispatch : ∀ s : QuantumLinkServer X A,
      (s.dispatchQlMessage u.message).pairedDevice = s.pairedDevice ∧
      (s.dispatchQlMessage u.message).aridCache = s.aridCache ∧
      (s.dispatchQlMessage u.message).heartbeatState.timeSync = none := by
    intro s
    cases hm : u.message <;> exact ⟨rfl, rfl, rfl⟩
  obtain ⟨hdevice, hcache, hsync⟩ := hdispatch w'.server
  have hhist : w'.history = w.history := by rw [hframe]
  have hpaired' : w'.server.pairedDevice.map PairedDevice.xid = some u.sender := by
    rw [hframe]
    exact hpaired
  refine hw.event (.dispatched bytes u) rfl rfl ?_ ?_ ?_ hkind ?_ ?_ ?_
  · intro b u' hsource
    obtain ⟨rfl, rfl⟩ : bytes = b ∧ u = u' := by simpa [Event.source] using hsource
    rw [hframe]
    exact hlookup
  · exact congrArg (Option.map PairedDevice.xid) hdevice.symm
  · intro requestId hbeat
    exact absurd (hsync.symm.trans hbeat) (by simp)
  · intro b u' heq
    cases heq
    exact hpaired'
  · -- an earlier effect was dispatched from the same envelope, and is remembered or expired
    intro b heffect e hmem heffect'
    cases heffect
    rw [hhist] at hmem
    cases e with
    | paired b' u' =>
      cases heffect'
      obtain ⟨request, hrequest⟩ := h.kinds _ hmem
      have hsame := h.authentic _ hmem _ _ rfl
      rw [hlookup] at hsame
      cases hsame
      exact hkind request hrequest
    | dispatched b' u' =>
      cases heffect'
      have hsame := h.authentic _ hmem _ _ rfl
      rw [hlookup] at hsame
      cases hsame
      rcases h.remembered _ _ hmem with hcached | hle
      · exact absurd hlive (Int.not_lt.2 (hnew _ hcached rfl))
      · exact absurd hlive (Int.not_lt.2 hle)
    | _ => exact heffect'
  · intro b u' hmem
    rw [show (w'.serve (w'.server.dispatchQlMessage u.message, [Event.dispatched bytes u])).history =
      w'.history ++ [Event.dispatched bytes u] from rfl, List.mem_append, List.mem_singleton] at hmem
    rw [show (w'.serve (w'.server.dispatchQlMessage u.message,
      [Event.dispatched bytes u])).server.aridCache = w'.server.aridCache from hcache]
    rcases hmem with hold | hnew
    · exact hw.remembered b u' hold
    · cases hnew
      exact .inl hstored

end Check

/-- The clock may be set, or the setting is turned off. -/
theorem syncSystemTime_cases (w : World X A) (bytes : Bytes) (u : UnsealedEnvoyMessage X A)
    (timestampMs : Nat) :
    w.syncSystemTime bytes u timestampMs = (.error .systemTimeOverflow, w) ∨
    (timestampMs * 1000000 < 2 ^ 64 ∧ w.server.shouldSetSystemTime = true ∧
      w.syncSystemTime bytes u timestampMs = (.ok (), { w with
        now := (timestampMs * 1000000 : Nat), history := w.history ++ [.clockSet bytes u] })) ∨
    (timestampMs * 1000000 < 2 ^ 64 ∧ w.server.shouldSetSystemTime = false ∧
      w.syncSystemTime bytes u timestampMs = (.ok (), w)) := by
  unfold World.syncSystemTime
  by_cases hfits : timestampMs * 1000000 < 2 ^ 64
  · rw [if_pos hfits]
    cases hset : w.server.shouldSetSystemTime with
    | true => exact .inr (.inl ⟨hfits, rfl, rfl⟩)
    | false => exact .inr (.inr ⟨hfits, rfl, rfl⟩)
  · rw [if_neg hfits]
    exact .inl rfl

/-- The clock is set, to an instant at which every envelope dispatched is remembered or expired. -/
theorem Guarded.clockSet (h : Guarded w) {t : Int} (hlookup : w.sealed.lookup bytes = some u)
    (hkept : Remembered w t) :
    Guarded { w with now := t, history := w.history ++ [.clockSet bytes u] } := by
  refine h.event (.clockSet bytes u) rfl rfl ?_ rfl (fun _ hsync => hsync) trivial ?_ ?_ ?_
  · intro b u' hsource
    obtain ⟨rfl, rfl⟩ : bytes = b ∧ u = u' := by simpa [Event.source] using hsource
    exact hlookup
  · intro b u' heq
    cases heq
  · intro b heffect
    exact heffect.elim
  · refine Remembered.event hkept rfl rfl ?_
    intro b u' heq
    cases heq

theorem Guarded.takeTimeSync (h : Guarded w) : Guarded w.takeTimeSync :=
  h.quiet rfl rfl rfl rfl (.inl rfl) (Int.le_refl _)

theorem Held.timeSync (h : Held w) (hlookup : w.sealed.lookup bytes = some u)
    (hpaired : w.server.pairedDevice.map PairedDevice.xid = some u.sender)
    (hcareful : Careful w env bytes u) : Held (w.timeSync bytes u).2 := by
  unfold World.timeSync
  split
  next responseId timestampMs requestId hmessage hsync =>
    split
    next heq =>
      subst heq
      rcases syncSystemTime_cases w.takeTimeSync bytes u timestampMs with
        herr | ⟨hfits, hset, hok⟩ | ⟨-, -, hok⟩
      · rw [herr]
        exact ⟨h.guarded.takeTimeSync, h.clock⟩
      · rw [hok]
        simp only [Careful, hmessage] at hcareful
        have hkept := hcareful hpaired hsync hset hfits
        refine ⟨h.guarded.takeTimeSync.clockSet hlookup hkept, h.clock.append ?_⟩
        intro i b u' hle hat
        rcases at_snoc hat with hold | ⟨rfl, hnew⟩
        · exact absurd (lt_of_at hold) (Nat.not_lt.2 hle)
        · cases hnew
          refine .inr ⟨responseId, timestampMs, hmessage, ?_, ?_⟩
          · rw [List.take_left' rfl]
            exact h.guarded.beat responseId hsync
          · rw [List.take_left' rfl]
            exact h.guarded.device.trans hpaired
      · rw [hok]
        exact ⟨h.guarded.takeTimeSync, h.clock⟩
    next => exact h
  next => exact h

/-- Who is paired and what was sealed does not change with the clock. -/
theorem timeSync_frame (w : World X A) (bytes : Bytes) (u : UnsealedEnvoyMessage X A) :
    (w.timeSync bytes u).2.server.pairedDevice = w.server.pairedDevice ∧
      (w.timeSync bytes u).2.sealed = w.sealed := by
  unfold World.timeSync
  split
  next responseId timestampMs requestId hmessage hsync =>
    split
    next =>
      rcases syncSystemTime_cases w.takeTimeSync bytes u timestampMs with
        herr | ⟨-, -, hok⟩ | ⟨-, -, hok⟩
      · rw [herr]
        exact ⟨rfl, rfl⟩
      · rw [hok]
        exact ⟨rfl, rfl⟩
      · rw [hok]
        exact ⟨rfl, rfl⟩
    next => exact ⟨rfl, rfl⟩
  next => exact ⟨rfl, rfl⟩

/-- The device is paired with an envelope that has not paired before. -/
theorem Guarded.setPairedDevice (h : Guarded w) {request : PairingRequest X}
    (hlookup : w.sealed.lookup bytes = some u) (hmessage : u.message = .pairingRequest request)
    (hnew : ∀ u', .paired bytes u' ∉ w.history) (name : String) :
    Guarded (w.setPairedDevice bytes u ⟨u.sender, name⟩) := by
  refine h.event (.paired bytes u) rfl rfl ?_ rfl (fun _ hsync => hsync) ⟨request, hmessage⟩
    ?_ ?_ ?_
  · intro b u' hsource
    obtain ⟨rfl, rfl⟩ : bytes = b ∧ u = u' := by simpa [Event.source] using hsource
    exact hlookup
  · intro b u' heq
    cases heq
  · -- what was dispatched from the same envelope would not be a pairing request
    intro b heffect e hmem heffect'
    cases heffect
    cases e with
    | paired b' u' =>
      cases heffect'
      exact hnew u' hmem
    | dispatched b' u' =>
      cases heffect'
      have hsame := h.authentic _ hmem _ _ rfl
      rw [hlookup] at hsame
      cases hsame
      exact h.kinds _ hmem request hmessage
    | _ => exact heffect'
  · refine h.remembered.event rfl rfl ?_
    intro b u' heq
    cases heq

theorem Guarded.setOsVersion (h : Guarded w) (version : Option String) :
    Guarded { w with server := { w.server with osVersion := version } } :=
  h.quiet rfl rfl rfl rfl (.inr rfl) (Int.le_refl _)

/-- The response is made when the device id and the version are known. -/
theorem sendPairingResponse_cases (w : World X A) (env : Env) : ∃ version,
    ((env.deviceId.isSome ∧ (w.server.osVersion.or env.osVersionInfo).isSome) ∧
      w.sendPairingResponse env =
        (some (), { w with server := { w.server with osVersion := version } })) ∨
    (¬ (env.deviceId.isSome ∧ (w.server.osVersion.or env.osVersionInfo).isSome) ∧
      w.sendPairingResponse env =
        (none, { w with server := { w.server with osVersion := version } })) := by
  unfold World.sendPairingResponse QuantumLinkServer.withOsVersion
  cases hid : env.deviceId with
  | none => exact ⟨w.server.osVersion, .inr ⟨fun hsome => Bool.false_ne_true hsome.1, rfl⟩⟩
  | some id =>
    cases hversion : w.server.osVersion.or env.osVersionInfo with
    | none => exact ⟨none, .inr ⟨fun hsome => Bool.false_ne_true hsome.2, rfl⟩⟩
    | some version => exact ⟨some version, .inl ⟨⟨rfl, rfl⟩, rfl⟩⟩

theorem Held.pairingFailed (h : Held w) (bytes : Bytes) : Held (w.log [.pairingFailed bytes]) where
  guarded := h.guarded.note (.pairingFailed bytes) rfl rfl rfl rfl (fun _ hsync => hsync) rfl rfl
  clock := h.clock.others fun b u hmem => by cases List.mem_singleton.1 hmem

theorem heartbeatTick_quiet (s : QuantumLinkServer X A) (env : Env) (bytes : Bytes)
    (u : UnsealedEnvoyMessage X A) : .clockSet bytes u ∉ (s.heartbeatTick env).2 := by
  intro hmem
  simp only [QuantumLinkServer.heartbeatTick] at hmem
  split at hmem
  · split at hmem
    · cases hmem
    · cases List.mem_singleton.1 hmem
  · cases hmem
  · cases hmem

theorem Held.heartbeatTick (h : Held w) (env : Env) :
    Held (w.serve (w.server.heartbeatTick env)) where
  guarded := h.guarded.heartbeatTick env
  clock := h.clock.others (heartbeatTick_quiet _ env)

/-- The clock is set for a pairing that is complete two events later. -/
theorem ClockTraced.paired {es : List (Event X A)} (h : ClockTraced es)
    {request : PairingRequest X} (hmessage : u.message = .pairingRequest request) :
    ClockTraced (es ++ [.clockSet bytes u, .paired bytes u, .pairingComplete bytes]) := by
  refine h.append fun i b u' hle hat => ?_
  obtain ⟨k, rfl⟩ := Nat.exists_eq_add_of_le hle
  have hshift : ∀ j (e : Event X A),
      At (es ++ [.clockSet bytes u, .paired bytes u, .pairingComplete bytes]) (es.length + j) e ↔
        At [.clockSet bytes u, .paired bytes u, .pairingComplete bytes] j e := by
    intro j e
    rw [At, List.getElem?_append_right (Nat.le_add_right _ _), Nat.add_sub_cancel_left]
  rw [hshift] at hat
  rcases k with _ | _ | _ | k
  · cases hat
    exact .inl ⟨request, hmessage, (hshift 1 _).2 rfl, (hshift 2 _).2 rfl⟩
  · cases hat
  · cases hat
  · cases hat

/-- The device is told, and the heartbeats begin. -/
theorem Held.pairingComplete (hw : Guarded w)
    (hclock : ClockTraced (w.history ++ [.pairingComplete bytes])) (env : Env) :
    Held ((w.log [.pairingComplete bytes]).serve
      ({ (w.log [.pairingComplete bytes]).server with missedHeartbeats := 0 }.heartbeatTick env)) := by
  have hlogged : Guarded { w with
      server := { w.server with missedHeartbeats := 0 }
      history := w.history ++ [.pairingComplete bytes] } :=
    hw.note (.pairingComplete bytes) rfl rfl rfl rfl (fun _ hsync => hsync) rfl rfl
  exact Held.heartbeatTick ⟨hlogged, hclock⟩ env

theorem Held.handlePairingRequest (h : Held w) [DecidableEq X] {request : PairingRequest X}
    (hlookup : w.sealed.lookup bytes = some u) (hmessage : u.message = .pairingRequest request)
    (hcareful : Careful w env bytes u) : Held (w.handlePairingRequest env bytes u request).2 := by
  unfold World.handlePairingRequest
  split
  next => exact h
  next hunpaired =>
    split
    next => exact h.pairingFailed bytes
    next xid hxid =>
      split
      next => exact h.pairingFailed bytes
      next hsender =>
        obtain rfl : xid = u.sender := Decidable.not_not.1 hsender
        simp only [Careful, hmessage] at hcareful
        rcases syncSystemTime_cases w bytes u (u.timestamp * 1000) with
          herr | ⟨hfits, hset, hok⟩ | ⟨hfits, -, hok⟩
        · rw [herr]
          exact h.pairingFailed bytes
        · rw [hok]
          obtain ⟨hnew, hsettable⟩ := hcareful hunpaired hxid hfits
          obtain ⟨hid, hversion, hkept⟩ := hsettable hset
          have hset := h.guarded.clockSet hlookup hkept
          have hpaired := hset.setPairedDevice hlookup hmessage (by simpa using hnew)
            request.deviceName
          obtain ⟨version, ⟨-, hsent⟩ | ⟨hno, -⟩⟩ :=
            sendPairingResponse_cases (World.setPairedDevice _ bytes u _) env
          · dsimp only
            rw [hsent]
            refine Held.pairingComplete (hpaired.setOsVersion version) ?_ env
            simpa [World.setPairedDevice] using h.clock.paired hmessage
          · exact absurd ⟨hid, hversion⟩ hno
        · rw [hok]
          obtain ⟨hnew, -⟩ := hcareful hunpaired hxid hfits
          have hpaired := h.guarded.setPairedDevice hlookup hmessage hnew request.deviceName
          have hclock : ClockTraced (w.setPairedDevice bytes u ⟨u.sender, request.deviceName⟩).history :=
            h.clock.others fun b u' hmem => by cases List.mem_singleton.1 hmem
          obtain ⟨version, ⟨-, hsent⟩ | ⟨-, hsent⟩⟩ :=
            sendPairingResponse_cases (w.setPairedDevice bytes u _) env
          · dsimp only
            rw [hsent]
            refine Held.pairingComplete (hpaired.setOsVersion version) ?_ env
            exact hclock.others fun b u' hmem => by cases List.mem_singleton.1 hmem
          · dsimp only
            rw [hsent]
            exact Held.pairingFailed ⟨hpaired.setOsVersion version, hclock⟩ bytes

variable [DecidableEq A]

/-- A message that is not a pairing request. -/
theorem Held.receive (h : Held w) (config : Config) (hlookup : w.sealed.lookup bytes = some u)
    (hkind : ∀ request, u.message ≠ .pairingRequest request)
    (hpaired : w.server.pairedDevice.map PairedDevice.xid = some u.sender)
    (hcareful : Careful w env bytes u) :
    Held (match w.timeSync bytes u with
      | (.error e, w) => ((.error e : Except Error Unit), w)
      | (.ok (), w) =>
        match w.checkReplay config u with
        | (.error e, w) => (.error e, w)
        | (.ok (), w) => (World.dispatchResult u.message,
            w.serve (w.server.dispatchQlMessage u.message, [.dispatched bytes u]))).2 := by
  have hsynced := h.timeSync hlookup hpaired hcareful
  obtain ⟨hdevice, hsealed⟩ := timeSync_frame w bytes u
  rw [← hdevice] at hpaired
  rw [← hsealed] at hlookup
  generalize w.timeSync bytes u = synced at *
  match synced with
  | (.error e, w) => exact hsynced
  | (.ok (), w) =>
    have hchecked : Held (w.checkReplay config u).2 := by
      refine ⟨hsynced.guarded.checkReplay config, ?_⟩
      rw [checkReplay_frame]
      exact hsynced.clock
    have hdispatched := fun hok => @Guarded.dispatch _ _ _ _ _ _ hsynced.guarded config hlookup hkind
      hpaired hok
    dsimp only
    generalize w.checkReplay config u = checked at *
    match checked with
    | (.error e, w') => exact hchecked
    | (.ok (), w') =>
      refine ⟨hdispatched rfl, hchecked.clock.others fun b u' hmem => ?_⟩
      cases List.mem_singleton.1 hmem

variable [DecidableEq X]

theorem Held.handleMessage (h : Held w) (config : Config)
    (hcareful : ∀ u, w.sealed.lookup bytes = some u → Careful w env bytes u) :
    Held (w.handleMessage config env bytes).2 := by
  simp only [World.handleMessage]
  split
  next => exact h
  next u hlookup =>
    split
    next request hmessage => exact h.handlePairingRequest hlookup hmessage (hcareful u hlookup)
    next hkind =>
      split
      next => exact h
      next hpaired =>
        exact h.receive config hlookup hkind (Decidable.not_not.1 hpaired) (hcareful u hlookup)

end Messages

/-! ## 6. The clock -/

/-- The clock is as it was, or the first event since says that it was set. -/
def ClockLogged (w w' : World X A) : Prop :=
  w'.now = w.now ∨ ∃ bytes u, At w'.history w.history.length (.clockSet bytes u)

section Clock

variable {w w' w'' : World X A} {env : Env} {bytes : Bytes} {u : UnsealedEnvoyMessage X A}

theorem ClockLogged.refl : ClockLogged w w := .inl rfl

theorem ClockLogged.after (h : ClockLogged w w') {more : List (Event X A)}
    (hnow : w''.now = w'.now) (hhist : w''.history = w'.history ++ more) : ClockLogged w w'' := by
  rcases h with hsame | ⟨bytes, u, hset⟩
  · exact .inl (hnow.trans hsame)
  · refine .inr ⟨bytes, u, ?_⟩
    rw [hhist]
    exact at_append hset

theorem ClockLogged.syncSystemTime (hnow : w'.now = w.now) (hhist : w'.history = w.history)
    (timestampMs : Nat) : ClockLogged w (w'.syncSystemTime bytes u timestampMs).2 := by
  rcases syncSystemTime_cases w' bytes u timestampMs with herr | ⟨-, -, hok⟩ | ⟨-, -, hok⟩
  · rw [herr]
    exact .inl hnow
  · rw [hok]
    refine .inr ⟨bytes, u, ?_⟩
    rw [hhist]
    exact at_length
  · rw [hok]
    exact .inl hnow

theorem ClockLogged.timeSync (w : World X A) (bytes : Bytes) (u : UnsealedEnvoyMessage X A) :
    ClockLogged w (w.timeSync bytes u).2 := by
  unfold World.timeSync
  split
  · split
    · exact .syncSystemTime rfl rfl _
    · exact .refl
  · exact .refl

variable [DecidableEq X]

theorem ClockLogged.handlePairingRequest (w : World X A) (env : Env) (bytes : Bytes)
    (u : UnsealedEnvoyMessage X A) (request : PairingRequest X) :
    ClockLogged w (w.handlePairingRequest env bytes u request).2 := by
  have hfailed : ∀ w' : World X A, ClockLogged w w' →
      ClockLogged w (w'.log [.pairingFailed bytes]) := fun w' h => h.after rfl rfl
  unfold World.handlePairingRequest
  split
  next => exact .refl
  next =>
    split
    next => exact hfailed w .refl
    next xid hxid =>
      split
      next => exact hfailed w .refl
      next =>
        have hset : ClockLogged w (w.syncSystemTime bytes u (u.timestamp * 1000)).2 :=
          .syncSystemTime rfl rfl _
        generalize w.syncSystemTime bytes u (u.timestamp * 1000) = synced at hset ⊢
        match synced with
        | (.error e, w') => exact hfailed w' hset
        | (.ok (), w') =>
          have hpaired : ClockLogged w (w'.setPairedDevice bytes u ⟨xid, request.deviceName⟩) :=
            hset.after rfl rfl
          obtain ⟨version, ⟨-, hsent⟩ | ⟨-, hsent⟩⟩ :=
            sendPairingResponse_cases (w'.setPairedDevice bytes u ⟨xid, request.deviceName⟩) env
          · dsimp only
            rw [hsent]
            refine (@ClockLogged.after _ _ _ _ (World.log { w'.setPairedDevice bytes u _ with
              server := _ } [.pairingComplete bytes]) hpaired _ rfl rfl).after rfl rfl
          · dsimp only
            rw [hsent]
            exact hpaired.after rfl rfl

variable [DecidableEq A]

theorem ClockLogged.handleMessage (w : World X A) (config : Config) (env : Env) (bytes : Bytes) :
    ClockLogged w (w.handleMessage config env bytes).2 := by
  unfold World.handleMessage
  split
  next => exact .refl
  next u hlookup =>
    split
    next request hmessage => exact .handlePairingRequest w env bytes u request
    next =>
      split
      next => exact .refl
      next =>
        have hsynced : ClockLogged w (w.timeSync bytes u).2 := .timeSync w bytes u
        generalize w.timeSync bytes u = synced at hsynced ⊢
        match synced with
        | (.error e, w') => exact hsynced
        | (.ok (), w') =>
          have hchecked : ClockLogged w (w'.checkReplay config u).2 := by
            rw [checkReplay_frame]
            exact hsynced.after rfl (List.append_nil _).symm
          dsimp only
          generalize w'.checkReplay config u = checked at hchecked ⊢
          match checked with
          | (.error e, w'') => exact hchecked
          | (.ok (), w'') => exact hchecked.after rfl rfl

/-- Nothing but the passing of time changes the clock without an event that says so. -/
theorem ClockLogged.step (config : Config) (w : World X A) (act : Act X A) :
    (∃ duration, act = .passTime duration) ∨ ClockLogged w (w.step config act) := by
  cases act with
  | deliver env bytes => exact .inr (.handleMessage w config env bytes)
  | passTime duration => exact .inl ⟨duration, rfl⟩
  | _ => exact .inr (.inl rfl)

end Clock

/-! ## 7. Runs -/

/-- What was sealed before is what its bytes unseal to. -/
theorem Guarded.sealEnvelope {w : World X A} (h : Guarded w) (bytes : Bytes)
    (u : UnsealedEnvoyMessage X A) :
    Guarded { w with sealed := w.sealed ++ [(bytes, u)] } := by
  refine ⟨?_, h.device, h.beat, h.kinds, h.fromPaired, h.once, h.remembered⟩
  intro e hmem b u' hsource
  have hold := h.authentic e hmem b u' hsource
  rw [List.lookup_append, hold]
  rfl

theorem Held.start (now : Int) : Held (World.start now : World X A) where
  guarded :=
    { authentic := fun _ hmem => nomatch hmem
      device := rfl
      beat := fun _ hsync => nomatch hsync
      kinds := fun _ hmem => nomatch hmem
      fromPaired := fun _ _ _ hat => absurd hat not_at_nil
      once := fun _ _ _ _ _ hat => absurd hat not_at_nil
      remembered := fun _ _ hmem => nomatch hmem }
  clock := fun _ _ _ hat => absurd hat not_at_nil

section Runs

variable [DecidableEq X] [DecidableEq A]

def CarefulAct (w : World X A) : Act X A → Prop
  | .deliver env bytes => ∀ u, w.sealed.lookup bytes = some u → Careful w env bytes u
  | _ => True

/-- Every message is careful where it is delivered. -/
def CarefulRun (config : Config) (w : World X A) : List (Act X A) → Prop
  | [] => True
  | act :: acts => CarefulAct w act ∧ CarefulRun config (w.step config act) acts

theorem Held.step {w : World X A} (h : Held w) (config : Config) (act : Act X A)
    (hcareful : CarefulAct w act) : Held (w.step config act) := by
  have hquiet : ∀ s : QuantumLinkServer X A, Guarded (w.serve (s, [])) → Held (w.serve (s, [])) :=
    fun s hs => ⟨hs, by simpa [World.serve] using h.clock⟩
  cases act with
  | sealEnvelope bytes u => exact ⟨h.guarded.sealEnvelope bytes u, h.clock⟩
  | deliver env bytes => exact h.handleMessage config hcareful
  | unpair =>
    refine ⟨h.guarded.unpair, h.clock.others fun bytes u hmem => ?_⟩
    simp only [QuantumLinkServer.unpair] at hmem
    split at hmem
    · cases hmem
    · cases List.mem_singleton.1 hmem
  | heartbeatTick env => exact h.heartbeatTick env
  | bleState env connected =>
    refine ⟨h.guarded.setBleState env connected, h.clock.others fun bytes u hmem => ?_⟩
    simp only [QuantumLinkServer.setBleState] at hmem
    split at hmem
    · exact heartbeatTick_quiet _ env bytes u hmem
    · split at hmem <;> cases hmem
  | heartbeatSendResult ok => exact hquiet _ (h.guarded.handleHeartbeatSendResult ok)
  | envoyTimeSync enabled =>
    exact ⟨h.guarded.quiet rfl rfl rfl rfl (.inr rfl) (Int.le_refl _), h.clock⟩
  | passTime duration =>
    refine ⟨h.guarded.quiet rfl rfl rfl rfl (.inr rfl) ?_, h.clock⟩
    exact Int.le_add_of_nonneg_right (Int.natCast_nonneg duration)

theorem Held.run {w : World X A} (h : Held w) (config : Config) (acts : List (Act X A))
    (hcareful : CarefulRun config w acts) : Held (w.run config acts) := by
  induction acts generalizing w with
  | nil => exact h
  | cons act acts ih => exact ih (h.step config act hcareful.1) hcareful.2

/-! ## 8. Only the paired device, and once -/

/-- What holds of a world that a run reaches. -/
structure Obeys (config : Config) (w : World X A) : Prop where
  authentic : ∀ e ∈ w.history, ∀ bytes u, e.source = some (bytes, u) →
    w.sealed.lookup bytes = some u
  device : pairedIn w.history = w.server.pairedDevice.map PairedDevice.xid
  fromPaired : FromPaired w.history
  once : TakesEffectOnce w.history
  clock : ClockTraced w.history
  logged : ∀ act, (∃ duration, act = .passTime duration) ∨ ClockLogged w (w.step config act)

/-- Whatever is delivered, in any order and however often: a message takes effect only while its
sender is the paired device, no envelope takes effect twice, and the clock is set by a pairing that
succeeds or by the reply to the heartbeat sent last. -/
theorem paired_device_obeyed_once (config : Config) (now : Int) (acts : List (Act X A))
    (hcareful : CarefulRun config (World.start now) acts) :
    Obeys config ((World.start now).run config acts) := by
  have hheld := (Held.start (X := X) (A := A) now).run config acts hcareful
  exact
    { authentic := hheld.guarded.authentic
      device := hheld.guarded.device
      fromPaired := hheld.guarded.fromPaired
      once := hheld.guarded.once
      clock := hheld.clock
      logged := ClockLogged.step config _ }

end Runs

/-- Device 7 asks to be paired. -/
def pairingEnvelope : UnsealedEnvoyMessage Nat Nat where
  message := .pairingRequest ⟨some 7, "Phone"⟩
  timestamp := 1000
  sender := 7
  arid := 1
  expiresAt := 1300000000000

def notificationEnvelope : UnsealedEnvoyMessage Nat Nat where
  message := .notification 3
  timestamp := 1001
  sender := 7
  arid := 2
  expiresAt := 1060000000000

/-- The reply to a heartbeat, from a clock that is behind. -/
def heartbeatEnvelope (arid timestampMs : Nat) : UnsealedEnvoyMessage Nat Nat where
  message := .heartbeat ⟨some [5], some timestampMs⟩
  timestamp := 1001
  sender := 7
  arid := arid
  expiresAt := 1200000000000

def readyEnv : Env := ⟨some "PRIME-1", some "1.2.0", [5]⟩

def hourConfig : Config := ⟨3600 * 1000000000⟩

/-- A pairing, a notification and a heartbeat that is answered. -/
def carefulActs : List (Act Nat Nat) :=
  [.sealEnvelope [0] pairingEnvelope, .bleState readyEnv true, .deliver readyEnv [0],
    .sealEnvelope [1] notificationEnvelope, .deliver readyEnv [1],
    .heartbeatTick readyEnv, .sealEnvelope [2] (heartbeatEnvelope 3 1001000),
    .deliver readyEnv [2], .deliver readyEnv [1]]

theorem paired_device_obeyed_once_answered :
    Obeys hourConfig ((World.start 0).run hourConfig carefulActs) := by
  refine paired_device_obeyed_once hourConfig 0 carefulActs ⟨trivial, trivial, ?_, trivial, ?_,
    trivial, trivial, ?_, ?_, trivial⟩
  · intro u hlookup
    cases hlookup
    intro _ _ _
    exact ⟨fun u' hmem => List.not_mem_nil hmem,
      fun _ => ⟨rfl, rfl, fun b u' hmem => absurd hmem List.not_mem_nil⟩⟩
  · intro u hlookup
    cases hlookup
    trivial
  · intro u hlookup
    cases hlookup
    intro _ _ _ _ b u' hmem
    have hone : Event.dispatched b u' = .dispatched [1] notificationEnvelope := by
      rcases hmem with _ | ⟨_, _ | ⟨_, _ | ⟨_, _ | ⟨_, _ | ⟨_, _ | ⟨_, hmem⟩⟩⟩⟩⟩⟩
      · rfl
      · cases hmem
    cases hone
    exact .inl (by decide)
  · intro u hlookup
    cases hlookup
    trivial

/-- A pairing request pairs again after the device is unpaired; a pairing that fails has set the
clock; a notification that the id cache has forgotten is dispatched again when the clock is set
back. -/
theorem replay_takes_effect_again :
    ¬ TakesEffectOnce ((World.start 0).run hourConfig
      [.sealEnvelope [0] pairingEnvelope, .deliver readyEnv [0], .unpair,
        .deliver readyEnv [0]]).history ∧
    ¬ ClockTraced ((World.start 0).run hourConfig
      [.sealEnvelope [0] pairingEnvelope, .deliver ⟨none, none, []⟩ [0]]).history ∧
    ¬ TakesEffectOnce ((World.start 0).run hourConfig
      [.sealEnvelope [0] pairingEnvelope, .bleState readyEnv true, .deliver readyEnv [0],
        .sealEnvelope [1] notificationEnvelope, .deliver readyEnv [1],
        .passTime 100000000000,
        .sealEnvelope [2] (heartbeatEnvelope 3 1100000), .deliver readyEnv [2],
        .heartbeatTick readyEnv,
        .sealEnvelope [3] (heartbeatEnvelope 4 1001000), .deliver readyEnv [3],
        .deliver readyEnv [1]]).history := by
  refine ⟨fun h => ?_, fun h => ?_, fun h => ?_⟩
  · have hsame : (1 : Nat) = 5 := h 1 5 (.paired [0] pairingEnvelope) (.paired [0] pairingEnvelope)
      [0] rfl rfl rfl rfl
    exact absurd hsame (by decide)
  · rcases h 0 [0] pairingEnvelope rfl with ⟨_, _, _, hcomplete⟩ | ⟨_, _, hmessage, _⟩
    · exact absurd hcomplete (by decide)
    · cases hmessage
  · have hsame : (4 : Nat) = 9 := h 4 9 (.dispatched [1] notificationEnvelope)
      (.dispatched [1] notificationEnvelope) [1] rfl rfl rfl rfl
    exact absurd hsame (by decide)

end QuantumLink
