import KeyOS.QuantumLink.Replay

/-!
# A message is handled whole or not at all

A pairing request commits the clock and the paired device before its response is made, and a
security challenge is copied into an array of one size. When the response can be made and the
challenge is long enough, every message is handled without a crash and a pairing that fails leaves
nothing behind; in every other case it is not.
-/

namespace QuantumLink

variable {X A : Type}

/-! ## 1. What is asked of a message -/

/-- The events that a step has added. -/
def newEvents (w w' : World X A) : List (Event X A) := w'.history.drop w.history.length

/-- What the response to a pairing request is made of is there. -/
def Responds (env : Env) (w : World X A) : Prop :=
  env.deviceId.isSome ∧ (w.server.osVersion.or env.osVersionInfo).isSome

section Statements

variable [DecidableEq X]

/-- Every pairing request from now on that can be answered succeeds. -/
def CanPair (w : World X A) : Prop :=
  ∀ env bytes u deviceName, u.timestamp * 1000 * 1000000 < 2 ^ 64 → Responds env w →
    (w.handlePairingRequest env bytes u ⟨some u.sender, deviceName⟩).1 = .ok ()

variable [DecidableEq A]

structure AllOrNothing (config : Config) (env : Env) (bytes : Bytes) (w : World X A) : Prop where
  returns : (w.handleMessage config env bytes).1 ≠ .error .panicked
  undone : .pairingFailed bytes ∈ newEvents w (w.handleMessage config env bytes).2 →
    (w.handleMessage config env bytes).2.server.pairedDevice = w.server.pairedDevice ∧
      (w.handleMessage config env bytes).2.now = w.now ∧
      CanPair (w.handleMessage config env bytes).2
  announced : .pairingComplete bytes ∈ newEvents w (w.handleMessage config env bytes).2 ↔
    w.server.pairedDevice = none ∧
      (w.handleMessage config env bytes).2.server.pairedDevice ≠ none

end Statements

/-- A pairing request that pairs can be answered, and a challenge that is passed on is long
enough. -/
def Answerable [DecidableEq A] (config : Config) (env : Env) (bytes : Bytes) (w : World X A) :
    Prop :=
  ∀ u, w.sealed.lookup bytes = some u →
    match u.message with
    | .pairingRequest request =>
      w.server.pairedDevice = none → request.xidDocument = some u.sender →
        u.timestamp * 1000 * 1000000 < 2 ^ 64 → Responds env w
    | .securityChallenge data =>
      w.server.pairedDevice.map PairedDevice.xid = some u.sender →
        (w.checkReplay config u).1 = .ok () → World.challengeSize ≤ data.length
    | _ => True

section Handling

variable {w w' : World X A} {env : Env} {bytes : Bytes} {u : UnsealedEnvoyMessage X A}
  {request : PairingRequest X}

theorem newEvents_append {new : List (Event X A)} (h : w'.history = w.history ++ new) :
    newEvents w w' = new := by
  rw [newEvents, h, List.drop_left']
  rfl

/-! ## 2. Pairing requests -/

/-- The request is from its sender, and its time fits the clock. -/
def Valid (u : UnsealedEnvoyMessage X A) (request : PairingRequest X) : Prop :=
  request.xidDocument = some u.sender ∧ u.timestamp * 1000 * 1000000 < 2 ^ 64

/-- A request that is refused, one that is answered, and one that cannot be answered. -/
inductive PairingOutcome (valid : Prop) (env : Env) (bytes : Bytes) (w : World X A) :
    Except Error Unit × World X A → Prop where
  | alreadyPaired (hdevice : w.server.pairedDevice ≠ none) :
    PairingOutcome valid env bytes w (.error .alreadyPaired, w)
  | refused (e : Error) (he : e ≠ .panicked) (hnone : w.server.pairedDevice = none)
    (hvalid : ¬ valid) : PairingOutcome valid env bytes w (.error e, w.log [.pairingFailed bytes])
  | paired (w' : World X A) (new : List (Event X A)) (hnone : w.server.pairedDevice = none)
    (hresponds : Responds env w) (hdevice : w'.server.pairedDevice ≠ none)
    (hhist : w'.history = w.history ++ new) (hcomplete : .pairingComplete bytes ∈ new)
    (hfailed : .pairingFailed bytes ∉ new) : PairingOutcome valid env bytes w (.ok (), w')
  | unanswered (w' : World X A) (new : List (Event X A)) (hnone : w.server.pairedDevice = none)
    (hvalid : valid) (hresponds : ¬ Responds env w) (hdevice : w'.server.pairedDevice ≠ none)
    (hhist : w'.history = w.history ++ new) (hfailed : .pairingFailed bytes ∈ new) :
    PairingOutcome valid env bytes w (.error .pairingResponse, w')

theorem heartbeatTick_events (s : QuantumLinkServer X A) (env : Env) :
    ∀ e ∈ (s.heartbeatTick env).2, e = .heartbeatSent env.requestId := by
  unfold QuantumLinkServer.heartbeatTick
  split
  · split
    · nofun
    · exact fun e he => List.mem_singleton.1 he
  · nofun
  · nofun

theorem heartbeatTick_pairedDevice (s : QuantumLinkServer X A) (env : Env) :
    (s.heartbeatTick env).1.pairedDevice = s.pairedDevice := by
  unfold QuantumLinkServer.heartbeatTick
  split
  · split <;> rfl
  · rfl
  · exact heartbeatFailure_pairedDevice _

/-- Where the clock has been set or not, the device is paired, and then the response is made. -/
theorem pairing_outcome {valid : Prop} (hvalid : valid) (hnone : w.server.pairedDevice = none) {synced : World X A}
    (hserver : synced.server = w.server) (sync : List (Event X A))
    (hsync : synced.history = w.history ++ sync) (hquiet : .pairingFailed bytes ∉ sync)
    (device : PairedDevice X) :
    PairingOutcome valid env bytes w
      (match (synced.setPairedDevice bytes u device).sendPairingResponse env with
      | (none, w) => (.error .pairingResponse, w.log [.pairingFailed bytes])
      | (some (), w) =>
        let w := w.log [.pairingComplete bytes]
        (.ok (), w.serve ({ w.server with missedHeartbeats := 0 }.heartbeatTick env))) := by
  have hresponds : Responds env w ↔ env.deviceId.isSome ∧
      ((synced.setPairedDevice bytes u device).server.osVersion.or env.osVersionInfo).isSome := by
    show _ ↔ _ ∧ (synced.server.osVersion.or _).isSome
    rw [hserver]
    rfl
  obtain ⟨version, ⟨hyes, hsent⟩ | ⟨hno, hsent⟩⟩ :=
    sendPairingResponse_cases (synced.setPairedDevice bytes u device) env
  · rw [hsent]
    dsimp only
    generalize hticked : QuantumLinkServer.heartbeatTick env _ = ticked
    have hdevice : ticked.1.pairedDevice = some device := by
      rw [← hticked, heartbeatTick_pairedDevice]
      rfl
    have hevents : ∀ e ∈ ticked.2, e = .heartbeatSent env.requestId := by
      rw [← hticked]
      exact heartbeatTick_events _ env
    refine .paired _ (sync ++ .paired bytes u :: .pairingComplete bytes :: ticked.2) hnone
      (hresponds.2 hyes) ?_ ?_ (by simp) ?_
    · rw [World.serve, hdevice]
      exact Option.some_ne_none device
    · show ((synced.history ++ [.paired bytes u]) ++ [.pairingComplete bytes]) ++ ticked.2 = _
      rw [hsync]
      simp
    · intro hmem
      rcases List.mem_append.1 hmem with hold | hnew
      · exact hquiet hold
      · have hlater : .pairingFailed bytes ∈ ticked.2 := by simpa using hnew
        cases hevents _ hlater
  · rw [hsent]
    refine .unanswered _ (sync ++ [.paired bytes u, .pairingFailed bytes]) hnone hvalid
      (fun h => hno (hresponds.1 h)) (Option.some_ne_none device) ?_ (by simp)
    show (synced.history ++ [.paired bytes u]) ++ [.pairingFailed bytes] = _
    rw [hsync]
    simp

section Outcomes

variable [DecidableEq X]

theorem handlePairingRequest_outcome (w : World X A) (env : Env) (bytes : Bytes)
    (u : UnsealedEnvoyMessage X A) (request : PairingRequest X) :
    PairingOutcome (Valid u request) env bytes w (w.handlePairingRequest env bytes u request) := by
  unfold World.handlePairingRequest
  split
  next hdevice => exact .alreadyPaired fun hnone => nomatch hdevice.symm.trans hnone
  next hnone =>
    split
    next hxid =>
      exact .refused .invalidXid nofun hnone fun hvalid => nomatch hxid.symm.trans hvalid.1
    next xid hxid =>
      split
      next hsender =>
        refine .refused .senderMismatch nofun hnone fun hvalid => hsender ?_
        exact Option.some.inj (hxid.symm.trans hvalid.1)
      next hsender =>
        obtain rfl : xid = u.sender := Decidable.not_not.1 hsender
        rcases syncSystemTime_cases w bytes u (u.timestamp * 1000) with
          herr | ⟨hfits, -, hok⟩ | ⟨hfits, -, hok⟩
        · rw [herr]
          refine .refused .systemTimeOverflow nofun hnone fun hvalid => ?_
          unfold World.syncSystemTime at herr
          rw [if_pos hvalid.2] at herr
          split at herr <;> cases congrArg Prod.fst herr
        · have hvalid : Valid u request := ⟨hxid, hfits⟩
          rw [hok]
          dsimp only
          refine pairing_outcome hvalid hnone ?_ [.clockSet bytes u] ?_ (by simp) _
          · rfl
          · rfl
        · have hvalid : Valid u request := ⟨hxid, hfits⟩
          rw [hok]
          exact pairing_outcome hvalid hnone rfl [] (List.append_nil _).symm List.not_mem_nil _

/-- While nobody is paired a later request can succeed. -/
theorem canPair_of_unpaired (hnone : w.server.pairedDevice = none) : CanPair w := by
  intro env bytes u deviceName hfits hresponds
  have houtcome := handlePairingRequest_outcome w env bytes u ⟨some u.sender, deviceName⟩
  generalize w.handlePairingRequest env bytes u ⟨some u.sender, deviceName⟩ = result at houtcome ⊢
  cases houtcome with
  | alreadyPaired hdevice => exact absurd hnone hdevice
  | refused e he _ hvalid => exact absurd ⟨rfl, hfits⟩ hvalid
  | paired => rfl
  | unanswered _ _ _ _ hnot => exact absurd hresponds hnot

end Outcomes

/-! ## 3. Other messages -/

/-- What is not a pairing request neither pairs nor says so. -/
structure Unrelated (bytes : Bytes) (w w' : World X A) : Prop where
  device : w'.server.pairedDevice = w.server.pairedDevice
  complete : .pairingComplete bytes ∉ newEvents w w'
  failed : .pairingFailed bytes ∉ newEvents w w'

theorem Unrelated.of_append {new : List (Event X A)}
    (hdevice : w'.server.pairedDevice = w.server.pairedDevice)
    (hhist : w'.history = w.history ++ new)
    (hnew : ∀ e ∈ new, (∃ b u, e = .clockSet b u) ∨ ∃ b u, e = .dispatched b u) :
    Unrelated bytes w w' := by
  refine ⟨hdevice, ?_, ?_⟩ <;> rw [newEvents_append hhist] <;> intro hmem <;>
    obtain ⟨_, _, heq⟩ | ⟨_, _, heq⟩ := hnew _ hmem <;> cases heq

theorem timeSync_history (w : World X A) (bytes : Bytes) (u : UnsealedEnvoyMessage X A) :
    (w.timeSync bytes u).2.history = w.history ∨
      (w.timeSync bytes u).2.history = w.history ++ [.clockSet bytes u] := by
  unfold World.timeSync
  split
  next responseId timestampMs requestId hmessage hsync =>
    split
    · rcases syncSystemTime_cases w.takeTimeSync bytes u timestampMs with
        herr | ⟨-, -, hok⟩ | ⟨-, -, hok⟩
      · rw [herr]
        exact .inl rfl
      · rw [hok]
        exact .inr rfl
      · rw [hok]
        exact .inl rfl
    · exact .inl rfl
  · exact .inl rfl

theorem timeSync_returns (w : World X A) (bytes : Bytes) (u : UnsealedEnvoyMessage X A) :
    (w.timeSync bytes u).1 ≠ .error .panicked := by
  unfold World.timeSync
  split
  next responseId timestampMs requestId hmessage hsync =>
    split
    · rcases syncSystemTime_cases w.takeTimeSync bytes u timestampMs with
        herr | ⟨-, -, hok⟩ | ⟨-, -, hok⟩
      · rw [herr]
        nofun
      · rw [hok]
        nofun
      · rw [hok]
        nofun
    · nofun
  · nofun

variable [DecidableEq A]

theorem checkReplay_returns (config : Config) (u : UnsealedEnvoyMessage X A) (w : World X A) :
    (w.checkReplay config u).1 ≠ .error .panicked := by
  unfold World.checkReplay
  split
  · nofun
  · split
    · nofun
    · dsimp only
      split <;> nofun

theorem checkReplay_same (config : Config) (u : UnsealedEnvoyMessage X A) (w : World X A) :
    (w.checkReplay config u).2.server.pairedDevice = w.server.pairedDevice ∧
      (w.checkReplay config u).2.history = w.history := by
  rw [checkReplay_frame]
  exact ⟨rfl, rfl⟩

omit [DecidableEq A] in
theorem dispatchQlMessage_pairedDevice (s : QuantumLinkServer X A)
    (message : QuantumLinkMessage X) :
    (s.dispatchQlMessage message).pairedDevice = s.pairedDevice := by
  cases message <;> rfl

/-- The challenge is copied when it fills the array. -/
theorem challengeOf_isSome {data : Bytes} :
    (World.challengeOf data).isSome ↔ World.challengeSize ≤ data.length := by
  unfold World.challengeOf World.copyFromSlice
  rw [List.length_replicate, List.length_take, Nat.min_assoc, Nat.min_comm World.challengeSize,
    ← Nat.min_assoc, Nat.min_self]
  split
  next heq => exact iff_of_true rfl (heq ▸ Nat.min_le_left _ _)
  next hne =>
    refine iff_of_false Bool.false_ne_true fun hle => hne (Nat.min_eq_right hle)

theorem receive_unrelated (config : Config) (w : World X A) (bytes : Bytes)
    (u : UnsealedEnvoyMessage X A) :
    Unrelated bytes w (match w.timeSync bytes u with
      | (.error e, w) => ((.error e : Except Error Unit), w)
      | (.ok (), w) =>
        match w.checkReplay config u with
        | (.error e, w) => (.error e, w)
        | (.ok (), w) => (World.dispatchResult u.message,
            w.serve (w.server.dispatchQlMessage u.message, [.dispatched bytes u]))).2 := by
  obtain ⟨hdevice, -⟩ := timeSync_frame w bytes u
  obtain ⟨sync, hsync, hclock⟩ : ∃ sync, (w.timeSync bytes u).2.history = w.history ++ sync ∧
      ∀ e ∈ sync, (∃ b u, e = .clockSet b u) ∨ ∃ b u, e = .dispatched b u := by
    rcases timeSync_history w bytes u with hsame | hset
    · exact ⟨[], hsame.trans (List.append_nil _).symm, nofun⟩
    · refine ⟨_, hset, fun e he => .inl ⟨bytes, u, List.mem_singleton.1 he⟩⟩
  generalize w.timeSync bytes u = synced at hdevice hsync ⊢
  match synced with
  | (.error e, w') => exact .of_append hdevice hsync hclock
  | (.ok (), w') =>
    obtain ⟨hsame, hhist⟩ := checkReplay_same config u w'
    dsimp only
    generalize w'.checkReplay config u = checked at hsame hhist ⊢
    match checked with
    | (.error e, w'') => exact .of_append (hsame.trans hdevice) (hhist.trans hsync) hclock
    | (.ok (), w'') =>
      refine Unrelated.of_append (?_ : _ = _) (?_ : _ = w.history ++ (sync ++ [.dispatched bytes u])) ?_
      · exact (dispatchQlMessage_pairedDevice _ _).trans (hsame.trans hdevice)
      · show w''.history ++ [.dispatched bytes u] = _
        rw [← List.append_assoc, ← hsync, ← hhist]
      · intro e he
        rcases List.mem_append.1 he with hold | hlast
        · exact hclock e hold
        · exact .inr ⟨bytes, u, List.mem_singleton.1 hlast⟩

/-- Only a challenge that passes the checks and is too short makes the handler panic. -/
theorem receive_panics (config : Config) (w : World X A) (bytes : Bytes)
    (u : UnsealedEnvoyMessage X A) :
    (match w.timeSync bytes u with
      | (.error e, w) => ((.error e : Except Error Unit), w)
      | (.ok (), w) =>
        match w.checkReplay config u with
        | (.error e, w) => (.error e, w)
        | (.ok (), w) => (World.dispatchResult u.message,
            w.serve (w.server.dispatchQlMessage u.message, [.dispatched bytes u]))).1 =
      .error .panicked ↔
    ∃ data, u.message = .securityChallenge data ∧ (w.checkReplay config u).1 = .ok () ∧
      data.length < World.challengeSize := by
  by_cases hchallenge : ∃ data, u.message = .securityChallenge data
  · obtain ⟨data, hmessage⟩ := hchallenge
    have hsync : w.timeSync bytes u = (.ok (), w) := by
      unfold World.timeSync
      rw [hmessage]
    rw [hsync]
    dsimp only
    have hreturns := checkReplay_returns config u w
    generalize w.checkReplay config u = checked at hreturns ⊢
    match checked with
    | (.error e, w') =>
      refine iff_of_false (fun h => hreturns h) ?_
      rintro ⟨_, _, hok, _⟩
      cases hok
    | (.ok (), w') =>
      rw [hmessage]
      show (if (World.challengeOf data).isSome then _ else _) = _ ↔ _
      split
      next hcopied =>
        refine iff_of_false nofun ?_
        rintro ⟨_, heq, -, hshort⟩
        cases heq
        exact absurd (challengeOf_isSome.1 hcopied) (Nat.not_le.2 hshort)
      next hpanics =>
        exact iff_of_true rfl ⟨data, rfl, rfl, Nat.not_le.1 fun h => hpanics (challengeOf_isSome.2 h)⟩
  · have hdispatch : World.dispatchResult u.message = .ok () := by
      cases hmessage : u.message with
      | securityChallenge data => exact absurd ⟨data, hmessage⟩ hchallenge
      | _ => rfl
    refine iff_of_false ?_ fun ⟨data, hmessage, _⟩ => hchallenge ⟨data, hmessage⟩
    have hreturns := timeSync_returns w bytes u
    generalize w.timeSync bytes u = synced at hreturns ⊢
    match synced with
    | (.error e, w') => exact hreturns
    | (.ok (), w') =>
      have hreturns := checkReplay_returns config u w'
      dsimp only
      generalize w'.checkReplay config u = checked at hreturns ⊢
      match checked with
      | (.error e, w'') => exact hreturns
      | (.ok (), w'') =>
        rw [hdispatch]
        nofun

/-! ## 4. Every message -/

variable [DecidableEq X]

theorem Unrelated.allOrNothing {config : Config}
    (hreturns : (w.handleMessage config env bytes).1 ≠ .error .panicked)
    (h : Unrelated bytes w (w.handleMessage config env bytes).2) :
    AllOrNothing config env bytes w where
  returns := hreturns
  undone := fun hfailed => absurd hfailed h.failed
  announced := by
    refine iff_of_false h.complete ?_
    rintro ⟨hnone, hsome⟩
    exact hsome (h.device.trans hnone)

theorem pairing_handled_whole_iff {config : Config} (hlookup : w.sealed.lookup bytes = some u)
    (hmessage : u.message = .pairingRequest request) :
    AllOrNothing config env bytes w ↔
      (w.server.pairedDevice = none → Valid u request → Responds env w) := by
  have hrun : w.handleMessage config env bytes = w.handlePairingRequest env bytes u request := by
    unfold World.handleMessage
    rw [hlookup]
    dsimp only
    rw [hmessage]
  have houtcome := handlePairingRequest_outcome w env bytes u request
  rw [← hrun] at houtcome
  have hwhole : AllOrNothing config env bytes w ↔
      (w.handleMessage config env bytes).1 ≠ .error .panicked ∧
      (.pairingFailed bytes ∈ newEvents w (w.handleMessage config env bytes).2 →
        (w.handleMessage config env bytes).2.server.pairedDevice = w.server.pairedDevice ∧
          (w.handleMessage config env bytes).2.now = w.now ∧
          CanPair (w.handleMessage config env bytes).2) ∧
      (.pairingComplete bytes ∈ newEvents w (w.handleMessage config env bytes).2 ↔
        w.server.pairedDevice = none ∧
          (w.handleMessage config env bytes).2.server.pairedDevice ≠ none) :=
    ⟨fun h => ⟨h.returns, h.undone, h.announced⟩, fun h => ⟨h.1, h.2.1, h.2.2⟩⟩
  rw [hwhole]
  generalize w.handleMessage config env bytes = result at houtcome ⊢
  cases houtcome with
  | alreadyPaired hdevice =>
    have hquiet : newEvents w w = [] := newEvents_append (List.append_nil _).symm
    refine iff_of_true ⟨nofun, ?_, ?_⟩ fun hnone => absurd hnone hdevice
    · rw [hquiet]
      nofun
    · rw [hquiet]
      exact iff_of_false List.not_mem_nil fun h => hdevice h.1
  | refused e he hnone hvalid =>
    have hfailed : newEvents w (w.log [.pairingFailed bytes]) = [.pairingFailed bytes] :=
      newEvents_append rfl
    refine iff_of_true ⟨fun heq => he (Except.error.inj heq), fun _ => ⟨rfl, rfl, ?_⟩, ?_⟩
      fun _ h => absurd h hvalid
    · exact canPair_of_unpaired hnone
    · rw [hfailed]
      exact iff_of_false (by simp) fun h => h.2 hnone
  | paired w' new hnone hresponds hdevice hhist hcomplete hfailed =>
    refine iff_of_true ⟨nofun, ?_, ?_⟩ fun _ _ => hresponds
    · rw [newEvents_append hhist]
      exact fun h => absurd h hfailed
    · rw [newEvents_append hhist]
      exact iff_of_true hcomplete ⟨hnone, hdevice⟩
  | unanswered w' new hnone hvalid hresponds hdevice hhist hfailed =>
    refine iff_of_false ?_ fun h => hresponds (h hnone hvalid)
    rintro ⟨-, hundone, -⟩
    rw [newEvents_append hhist] at hundone
    exact hdevice ((hundone hfailed).1.trans hnone)

theorem other_handled_whole_iff {config : Config} (hlookup : w.sealed.lookup bytes = some u)
    (hother : ∀ request, u.message ≠ .pairingRequest request) :
    AllOrNothing config env bytes w ↔ ∀ data, u.message = .securityChallenge data →
      w.server.pairedDevice.map PairedDevice.xid = some u.sender →
        (w.checkReplay config u).1 = .ok () → World.challengeSize ≤ data.length := by
  by_cases hpaired : w.server.pairedDevice.map PairedDevice.xid = some u.sender
  · have hrun : w.handleMessage config env bytes = (match w.timeSync bytes u with
        | (.error e, w) => ((.error e : Except Error Unit), w)
        | (.ok (), w) =>
          match w.checkReplay config u with
          | (.error e, w) => (.error e, w)
          | (.ok (), w) => (World.dispatchResult u.message,
              w.serve (w.server.dispatchQlMessage u.message, [.dispatched bytes u]))) := by
      unfold World.handleMessage
      rw [hlookup]
      dsimp only
      split
      next request hmessage => exact absurd hmessage (hother request)
      next => exact if_neg (not_not.2 hpaired)
    have hpanics := receive_panics config w bytes u
    have hunrelated := receive_unrelated config w bytes u
    rw [← hrun] at hpanics hunrelated
    constructor
    · intro h data hmessage _ hok
      refine Nat.not_lt.1 fun hshort => h.returns (hpanics.2 ⟨data, hmessage, hok, hshort⟩)
    · intro h
      refine Unrelated.allOrNothing (fun hpanicked => ?_) hunrelated
      obtain ⟨data, hmessage, hok, hshort⟩ := hpanics.1 hpanicked
      exact Nat.not_le.2 hshort (h data hmessage hpaired hok)
  · have hrun : w.handleMessage config env bytes = (.error .notPaired, w) := by
      unfold World.handleMessage
      rw [hlookup]
      dsimp only
      split
      next request hmessage => exact absurd hmessage (hother request)
      next => rw [if_pos hpaired]
    refine iff_of_true (Unrelated.allOrNothing ?_ ?_) fun _ _ h => absurd h hpaired
    · rw [hrun]
      nofun
    · rw [hrun]
      exact .of_append rfl (List.append_nil _).symm nofun

/-- A message is handled whole or not at all exactly when it is answerable. -/
theorem handled_whole_iff (config : Config) (env : Env) (bytes : Bytes) (w : World X A) :
    AllOrNothing config env bytes w ↔ Answerable config env bytes w := by
  cases hlookup : w.sealed.lookup bytes with
  | none =>
    have hrun : w.handleMessage config env bytes = (.error .unseal, w) := by
      unfold World.handleMessage
      rw [hlookup]
    refine iff_of_true (Unrelated.allOrNothing ?_ ?_) fun u hu => nomatch hlookup.symm.trans hu
    · rw [hrun]
      nofun
    · rw [hrun]
      exact .of_append rfl (List.append_nil _).symm nofun
  | some u =>
    have hanswerable : Answerable config env bytes w ↔ _ :=
      ⟨fun h => h u hlookup, fun h u' hu' => Option.some.inj (hlookup.symm.trans hu') ▸ h⟩
    rw [hanswerable]
    cases hmessage : u.message with
    | pairingRequest request =>
      rw [pairing_handled_whole_iff hlookup hmessage]
      exact ⟨fun h hnone hxid hfits => h hnone ⟨hxid, hfits⟩, fun h hnone hv => h hnone hv.1 hv.2⟩
    | securityChallenge data =>
      rw [other_handled_whole_iff hlookup fun request => by rw [hmessage]; nofun]
      exact ⟨fun h => h data hmessage, fun h data' hd => by cases hmessage.symm.trans hd; exact h⟩
    | _ =>
      rw [other_handled_whole_iff hlookup fun request => by rw [hmessage]; nofun]
      exact iff_of_true (fun data hd => nomatch hmessage.symm.trans hd) trivial

end Handling

/-- A challenge of three bytes, from the paired device. -/
def shortChallenge : UnsealedEnvoyMessage Nat Nat where
  message := .securityChallenge [1, 2, 3]
  timestamp := 1001
  sender := 7
  arid := 2
  expiresAt := 1060000000000

/-- A challenge that is too short makes the handler panic, and a pairing request that cannot be
answered is announced as failed, with the device paired and the clock set. -/
theorem crashes_and_half_pairs :
    ¬ AllOrNothing hourConfig readyEnv [1] ((World.start 0).run hourConfig
      [.sealEnvelope [0] pairingEnvelope, .deliver readyEnv [0],
        .sealEnvelope [1] shortChallenge]) ∧
    ¬ AllOrNothing hourConfig ⟨none, none, []⟩ [0] ((World.start 0).run hourConfig
      [.sealEnvelope [0] pairingEnvelope]) := by
  constructor
  · intro h
    exact h.returns rfl
  · intro h
    have hclock := (h.undone (by decide)).2.1
    exact absurd hclock (by decide)

end QuantumLink
