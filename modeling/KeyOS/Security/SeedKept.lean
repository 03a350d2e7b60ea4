import KeyOS.Security.SeedOpens

/-!
# The PIN opens the seed

Three stores depend on one another: the one-time key is part of the PIN hash and of the
stored seed, and the stored seed is the write key of the PIN hash. A request rewrites them
one after the other. Where it gets from its first write to its last, the stores hold the new
PIN and seed; before its first write they hold the old ones.

Result: `pin_opens_seed`.
-/

namespace Security

open Exec Interrupt Interruptible

variable (b : Board)

/-! ## 1. Histories with a key -/

/-- What a request sets when it succeeds. -/
def Request.sets : Request → Key → Key
  | .setSeedAndPin seed rawPin _ _, _ => ⟨rawPin, seed⟩
  | .changePin rawPin _ _, k => ⟨rawPin, k.seed⟩
  | .setSeed seed _, k => ⟨k.pin, seed⟩
  | _, k => k

/-- What is set after a request: an error changes nothing, and where the power goes or the
server panics it is the old or the new. -/
def SetAfter (req : Request) (k k' : Key) : Outcome Empty (Stop Denied) Unit → Prop
  | .ok _ => k' = req.sets k
  | .err (.error _) => k' = k
  | _ => k' = k ∨ k' = req.sets k

/-- `Sets b m k es m' k'`: the events take `m` to `m'` and what is set from `k` to `k'`. -/
inductive Sets : Machine → Key → List Event → Machine → Key → Prop where
  | nil (m : Machine) (k : Key) : Sets m k [] m k
  | request {m m' : Machine} {k k₁ k' : Key} {req : Request} {fates : Nat → Fate Unit}
      {es : List Event}
      (hset : SetAfter req k k₁ (serve b (resetLoginCounters b) req ⟨m, fates⟩).1)
      (rest : Sets (Event.run b (.request req fates) m) k₁ es m' k') :
      Sets m k (.request req fates :: es) m' k'
  | reboot {m m' : Machine} {k k' : Key} {es : List Event} (rest : Sets m.boot k es m' k') :
      Sets m k (.reboot :: es) m' k'

/-- The program ends with a value. -/
def Completes {ε α : Type} (x : SecurityM ε α) (d : Device Machine Unit) : Prop :=
  ∃ a d', x d = (.ok a, d')

/-- The request does not return an error. -/
def NoError (req : Request) (fates : Nat → Fate Unit) (m : Machine) : Prop :=
  ∀ e d, serve b (resetLoginCounters b) req ⟨m, fates⟩ ≠ (.err (.error e), d)

def PinChange.newXored (change : PinChange) : XorSeed :=
  (change.xorSeed.pinHashXor change.oldXorHash).pinHashXor change.newXorHash

/-- The stored seed, as it is read. -/
def Machine.storedSeed (m : Machine) : Option XorSeed :=
  XorSeed.decryptTagged (resize 33 (joinBlocks (Slot.size .seed)
    ((chunks (Slot.size .seed)).map (m.element.slots .seed)))) m.securam.otpKey

/-- The condition on an event, where `used` are the PINs of the history. `SetSeedAndPin` and
`ChangePin` get from their first write to their last one and then return no error, `SetSeed`
does not get to its first write, and no login locks the device out. -/
def Careful (used : RawPin → Prop) : Event → Machine → Prop
  | .request (.setSeedAndPin seed rawPin pinEntry newOtpKey) fates, m =>
    used rawPin ∧ Usable newOtpKey (Key.xored b ⟨rawPin, seed⟩) ∧
      ∀ hashes d, pinHashes b rawPin ⟨m, fates⟩ = (.ok hashes, d) → d.fates 0 = .done →
        Completes (storeSeedAndPin b (fun _ => pure ()) seed hashes.1 hashes.2 newOtpKey) d ∧
          NoError b (.setSeedAndPin seed rawPin pinEntry newOtpKey) fates m
  | .request (.changePin rawPin seed pinEntry) fates, m =>
    used rawPin ∧
      ∀ change d, preparePinChange b rawPin seed ⟨m, fates⟩ = (.ok change, d) →
        ∀ pinHash d', storePinHash b change.xorSeed change.newPin change.otpKey d
            = (.ok pinHash, d') →
          m.storedSeed = some change.xorSeed ∧ Usable change.otpKey change.newXored ∧
            Completes (writeSlot .seed (change.newXored.encryptTagged change.otpKey)) d' ∧
            NoError b (.changePin rawPin seed pinEntry) fates m
  | .request (.login rawPin _) fates, m =>
    used rawPin ∧ (∀ pin, used pin → m.authHash b pin = m.authHash b rawPin → pin = rawPin) ∧
      ∀ xorHash d, checkLogin b rawPin ⟨m, fates⟩ ≠ (.ok (xorHash, .failure 0), d)
  | .request (.setSeed _ _) fates, m => m.pinHash = none ∨ fates 0 ≠ .done
  | .request .logout _, _ => True
  | .request .getSeed _, _ => True
  | .request .getAttemptsRemaining _, _ => True
  | .request (.lockout _ _ _) _, _ => False
  | .request (.tamper _) _, _ => False
  | .reboot, _ => True

/-! ## 2. What is kept -/

/-- The stores hold `k`, and where a PIN is logged in it is that of `k`. -/
structure Kept (used : RawPin → Prop) (k : Key) (m : Machine) : Prop where
  holds : Holds b k m
  used : used k.pin
  memory : m.pinHash = none ∨ m.pinHash = some (m.authHash b k.pin, xorHashOf b k.pin)

section Keeping

variable {b} {used : RawPin → Prop} {k : Key} {m m' : Machine} {req : Request}

theorem sameVault_boot (h : m.securam.intact = true) : SameVault m m.boot where
  slots _ _ := rfl
  otpKey := by
    show m.securam.boot.otpKey = _
    rw [Securam.boot, if_pos h]
  intact := by
    show m.securam.boot.intact = _
    rw [Securam.boot, if_pos h]

theorem sameVault_settle {α : Type} (h : m.securam.intact = true)
    (outcome : Outcome Empty (Stop Denied) α) : SameVault m (m.settle outcome) := by
  rcases outcome with a | (_ | message | e) | p
  · exact Std.Refl.refl m
  · exact sameVault_boot h
  · exact ⟨fun _ _ => rfl, rfl, rfl⟩
  · exact Std.Refl.refl m
  · exact p.elim

theorem Kept.idle (hk : Kept b used k m) (h : Idle m m') : Kept b used k m' where
  holds := hk.holds.same h.vault
  used := hk.used
  memory := by
    rw [h.pinHash, h.vault.authHash]
    exact hk.memory

/-- The memory is lost, or stays as it is. -/
theorem Kept.settle {α : Type} (hk : Kept b used k m) (outcome : Outcome Empty (Stop Denied) α) :
    Kept b used k (m.settle outcome) where
  holds := hk.holds.same (sameVault_settle hk.holds.intact outcome)
  used := hk.used
  memory := by
    rw [(sameVault_settle hk.holds.intact outcome).authHash]
    rcases outcome with a | (_ | message | e) | p
    · exact hk.memory
    · exact .inl rfl
    · exact .inl rfl
    · exact hk.memory
    · exact p.elim

theorem Kept.boot (hk : Kept b used k m) : Kept b used k m.boot :=
  hk.settle (.err .powerLoss : Outcome Empty (Stop Denied) Unit)

theorem setAfter_same (h : req.sets k = k) (outcome : Outcome Empty (Stop Denied) Unit) :
    SetAfter req k k outcome := by
  rcases outcome with a | (_ | message | e) | p
  · exact h.symm
  · exact .inl rfl
  · exact .inl rfl
  · rfl
  · exact p.elim

/-- What is set stays set where a request stops. -/
theorem setAfter_stopped (stop : Stop Denied) : SetAfter req k k (.err stop) := by
  cases stop with
  | powerLoss => exact .inl rfl
  | halt message => exact .inl rfl
  | error e => rfl

/-- The request keeps a key: what is set before it, or what it sets. -/
def StepKept (b : Board) (used : RawPin → Prop) (req : Request) (k : Key)
    (r : Outcome Empty (Stop Denied) Unit × Device Machine Unit) : Prop :=
  ∃ k', SetAfter req k k' r.1 ∧ Kept b used k' (r.2.contents.settle r.1)

/-- A request that sets nothing and leaves the stores alone. -/
theorem stepKept_idle {x : SecurityM Denied Unit} (hx : Moves Idle x) (hsets : req.sets k = k)
    (hk : Kept b used k m) (fates : Nat → Fate Unit) : StepKept b used req k (x ⟨m, fates⟩) :=
  ⟨k, setAfter_same hsets _, (hk.idle (hx ⟨m, fates⟩)).settle _⟩

/-- A request that stops before it has changed anything. -/
theorem stepKept_stopped {stop : Stop Denied} {d : Device Machine Unit} (hk : Kept b used k m)
    (h : Idle m d.contents) : StepKept b used req k (.err stop, d) :=
  ⟨k, setAfter_stopped stop, (hk.idle h).settle _⟩

/-- The rest of a request, once the stores hold what it sets. -/
theorem stepKept_stored (req : Request) {rest : SecurityM Denied Unit} {d : Device Machine Unit}
    (hheld : Holds b (req.sets k) d.contents) (hused : used (req.sets k).pin)
    (hrest : Moves SameVault rest)
    (hok : ∀ d', rest d = (.ok (), d') → d'.contents.pinHash = some
      (d.contents.authHash b (req.sets k).pin, xorHashOf b (req.sets k).pin))
    (herr : ∀ e d', rest d ≠ (.err (.error e), d')) : StepKept b used req k (rest d) := by
  have hsame := hrest d
  revert hok herr hsame
  rcases rest d with ⟨o, d'⟩
  intro hok herr hsame
  have hheld' : Holds b (req.sets k) (d'.contents.settle o) :=
    (hheld.same hsame).same (sameVault_settle (hheld.same hsame).intact o)
  refine ⟨req.sets k, ?_, hheld', hused, ?_⟩
  · rcases o with a | (_ | message | e) | p
    · rfl
    · exact .inr rfl
    · exact .inr rfl
    · exact absurd rfl (herr e d')
    · exact p.elim
  · rcases o with a | (_ | message | e) | p
    · refine .inr ?_
      rw [show d'.contents.settle (.ok a : Outcome Empty (Stop Denied) Unit) = d'.contents from rfl,
        hsame.authHash]
      exact hok d' rfl
    · exact .inl rfl
    · exact .inl rfl
    · exact absurd rfl (herr e d')
    · exact p.elim

end Keeping

/-! ## 3. What the stores hold after they are written -/

/-- The machine with a new one-time key. -/
def Machine.rekeyed (m : Machine) (newOtpKey : Bytes 72) : Machine :=
  { m with securam := { m.securam with otpKey := newOtpKey } }

/-- The machine with the first two blocks of the seed slot written. -/
def Machine.withSeed (m : Machine) (data : Bytes 33) : Machine :=
  { m with element := (m.element.put .seed 0 (chunk data 0)).put .seed 1 (chunk data 1) }

/-- The machine with a new PIN hash. -/
def Machine.withPinHash (m : Machine) (pinHash : AuthPinHash) : Machine :=
  { m with element := m.element.put .pinHash 0 pinHash }

section Stores

variable {b} {k : Key} {m : Machine} {S : Machine → Prop}

theorem Machine.slots_withPinHash {slot : Slot} (h : slot ≠ .pinHash) (pinHash : AuthPinHash) :
    (m.withPinHash pinHash).element.slots slot = m.element.slots slot :=
  funext fun blk => Element.slots_put_other m.element h 0 blk pinHash

theorem Machine.slots_withSeed {slot : Slot} (h : slot ≠ .seed) (data : Bytes 33) :
    (m.withSeed data).element.slots slot = m.element.slots slot :=
  funext fun blk => (Element.slots_put_other _ h 1 blk _).trans
    (Element.slots_put_other _ h 0 blk _)

theorem seed0_withSeed (data : Bytes 33) :
    (m.withSeed data).element.slots .seed 0 = chunk data 0 := by
  have hother : ¬ (Slot.seed = Slot.seed ∧ 0 = 1) := by decide
  exact (if_neg (t := chunk data 1) hother).trans (Element.slots_put_same m.element .seed 0 _)

theorem holds_withPinHash (hpair : Paired b m) (hintact : m.securam.intact = true)
    (hseed0 : m.element.slots .seed 0 = chunk ((k.xored b).encryptTagged m.securam.otpKey) 0)
    (hseed1 : m.element.slots .seed 1 = chunk ((k.xored b).encryptTagged m.securam.otpKey) 1)
    (husable : Usable m.securam.otpKey (k.xored b)) :
    Holds b k (m.withPinHash (m.authHash b k.pin)) where
  paired := (congrFun (Machine.slots_withPinHash (by decide) _) 0).trans hpair
  intact := hintact
  pinHash := by
    refine (Element.slots_put_same m.element .pinHash 0 _).trans ?_
    unfold Machine.authHash
    rw [Machine.slots_withPinHash (by decide), Machine.slots_withPinHash (by decide)]
    rfl
  seed0 := (congrFun (Machine.slots_withPinHash (by decide) _) 0).trans hseed0
  seed1 := (congrFun (Machine.slots_withPinHash (by decide) _) 1).trans hseed1
  usable := husable

theorem holds_withSeed (hpair : Paired b m) (hintact : m.securam.intact = true)
    (hpin : m.element.slots .pinHash 0 = m.authHash b k.pin)
    (husable : Usable m.securam.otpKey (k.xored b)) :
    Holds b k (m.withSeed ((k.xored b).encryptTagged m.securam.otpKey)) where
  paired := (congrFun (Machine.slots_withSeed (by decide) _) 0).trans hpair
  intact := hintact
  pinHash := by
    rw [Machine.slots_withSeed (by decide), hpin]
    unfold Machine.authHash
    rw [Machine.slots_withSeed (by decide), Machine.slots_withSeed (by decide)]
    rfl
  seed0 := seed0_withSeed _
  seed1 := Element.slots_put_same _ .seed 1 _
  usable := husable

theorem withSecuram_spec {ε : Type} (f : Securam → Securam) :
    Spec (fun _ => True) (· = m) (withSecuram f : SecurityM ε Unit)
      (fun _ m' => m.securam.intact = true ∧ m' = { m with securam := f m.securam })
      fun _ _ => True := by
  refine Prog.Triple.mapErr (Spec.step (fun m' a m'' hm h => ?_) (fun _ _ _ _ => trivial)
    (fun _ _ _ _ => trivial) fun _ _ _ => trivial)
  subst hm
  by_cases hintact : m'.securam.intact = true
  · rw [if_pos hintact] at h
    cases h
    exact ⟨hintact, rfl⟩
  · rw [if_neg hintact] at h
    cases h

/-- Where the first step is not done, nothing is written. -/
theorem withSecuram_cut {ε : Type} {f : Securam → Securam} {d : Device Machine Unit}
    (h : d.fates 0 ≠ .done) : ∃ stop d', (withSecuram f : SecurityM ε Unit) d = (.err stop, d') ∧
      d'.contents = d.contents := by
  unfold withSecuram Interruptible.expect Prog.mapErr Interruptible.step
  cases hfate : d.fates 0 with
  | done => exact absurd hfate h
  | fault x => exact ⟨_, _, rfl, rfl⟩
  | powerLoss => exact ⟨_, _, rfl, rfl⟩

theorem writeSeed_spec (data : Bytes 33) (P : Machine → Prop) :
    Spec (fun _ => True) P (writeSlot .seed data)
      (fun _ m' => ∃ m, P m ∧ m' = m.withSeed data) fun _ _ => True := by
  have hwrite (T : Machine → Prop) (blk : Nat) :
      Spec (fun _ => True) T (command (Element.write .seed blk (chunk data blk)))
        (fun _ m' => ∃ m, T m ∧ m' = { m with element := m.element.put .seed blk (chunk data blk) })
        fun _ _ => True := by
    refine (command_spec fun m a e hT he => ?_).conseq (fun _ => id) (fun _ _ => id)
      fun _ _ _ => trivial
    cases he
    exact ⟨m, hT, rfl⟩
  show Spec (fun _ => True) P (Prog.forEach [0, 1] fun blk => command _) _ _
  refine Spec.bind (hwrite P 0) fun _ => Spec.bind (hwrite _ 1) fun _ => Spec.pure ?_
  rintro _ ⟨_, ⟨m, hP, rfl⟩, rfl⟩
  exact ⟨m, hP, rfl⟩

/-- The one-time key and the seed are written. -/
theorem changeSeedAndOtpKey_spec (seed : Seed) (xorHash : XorPinHash) (newOtpKey : Bytes 72) :
    Spec (fun _ => True) (· = m) (changeSeedAndOtpKey b seed xorHash newOtpKey)
      (fun x m' => (x = seed.pinHashXor xorHash ∧ m.securam.intact = true) ∧
        SameVault ((m.rekeyed newOtpKey).withSeed (x.encryptTagged newOtpKey)) m')
      fun _ _ => True := by
  refine Spec.bind (withSecuram_spec _) fun _ => Spec.assume fun hintact => ?_
  refine Spec.bind (steady (pairUnlock_moves b) _) fun _ => ?_
  refine Spec.bind (writeSeed_spec _ _) fun _ => ?_
  refine Spec.bind (steady hashOf_moves _) fun fingerprint => ?_
  have hprint : Moves SameVault (encryptedWrite b .seedFingerprint .seed (resize 32
      ((seed.pinHashXor xorHash).encryptTagged newOtpKey)) fingerprint) :=
    encryptedWrite_moves b .seed _ _ fun m blk data => sameVault_put m rfl blk data
  refine Spec.bind (Q := fun _ => SameVault ((m.rekeyed newOtpKey).withSeed
    ((seed.pinHashXor xorHash).encryptTagged newOtpKey))) ?_ fun _ =>
      Spec.pure fun m' h => ⟨⟨rfl, hintact⟩, h⟩
  refine (hprint.spec (P := SameVault ((m.rekeyed newOtpKey).withSeed
    ((seed.pinHashXor xorHash).encryptTagged newOtpKey))) fun _ _ h h' =>
      IsTrans.trans _ _ _ h' h).conseq ?_ (fun _ _ => id) fun _ _ _ => trivial
  rintro _ ⟨_, rfl, rfl⟩
  exact Std.Refl.refl _

/-- The PIN hash is written, or the stores are as they were. -/
theorem storePinHash_spec (hpair : Paired b m) (hsame : ∀ m', S m' → SameVault m m')
    (hcount : ∀ m', S m' → S { m' with element := m'.element.count .loginAttempt })
    (xorSeed : XorSeed) (rawPin : RawPin) :
    Spec (fun _ => True) S (storePinHash b xorSeed (b.sha256 rawPin) m.securam.otpKey)
      (fun p m' => p = m.authHash b rawPin ∧ ∃ m₂, S m₂ ∧ m' = m₂.withPinHash p)
      fun _ => S := by
  refine Spec.bind (Q := fun p m' => S m' ∧ p = m.authHash b rawPin) ((pinHashAttempt_answers
    hpair (fun _ => id) hsame hcount (fun _ _ => .inr ⟨(), trivial⟩) _).conseq (fun _ => id)
      (fun _ _ => id) fun _ _ h => h.2) fun p => ?_
  refine Spec.pre (Spec.assume fun hp => ?_) fun _ h => And.comm.mp h
  refine Spec.bind (Q := fun _ m' => ∃ m₂, S m₂ ∧ m' = m₂.withPinHash p) ?_ fun _ =>
    Spec.pure fun _ h => ⟨hp, h⟩
  show Spec (fun _ => True) S (Prog.forEach [0] fun blk => encryptedWrite32 b .pinHash blk .seed _ _)
    _ _
  refine Spec.bind (encryptedWrite32_spec b .pinHash 0 .seed _ _ S) fun _ => Spec.pure ?_
  rintro _ ⟨m₂, hS, rfl⟩
  rw [chunk_block]
  exact ⟨m₂, hS, rfl⟩

end Stores

/-! ## 4. Requests -/

/-- What is left of `SetSeedAndPin` once the stores are written. -/
def finishSetSeedAndPin (p a : AuthPinHash) (xorHash : XorPinHash) (pinEntry : UInt8) :
    SecurityM Denied Unit := do
  let authHash ← accessDenied (do
    resetLoginCounters b p
    pure a : SecurityM Error AuthPinHash)
  accessDenied (setupAesKeys b authHash xorHash)
  setPinHash (some (authHash, xorHash))
  setPinEntryMode pinEntry

/-- What is left of `ChangePin` once the stores are written. -/
def finishChangePin (p : AuthPinHash) (change : PinChange) (pinEntry : UInt8) :
    SecurityM Denied Unit := do
  accessDenied (resetLoginCounters b p)
  setPinHash (some (change.newAuthHash, change.newXorHash))
  setPinEntryMode pinEntry

/-- What `ChangePin` has prepared for a change from `k` to `rawPin`. -/
structure PinChange.Prepared (k : Key) (rawPin : RawPin) (m : Machine) (change : PinChange) :
    Prop where
  oldXorHash : change.oldXorHash = xorHashOf b k.pin
  otpKey : change.otpKey = m.securam.otpKey
  newPin : change.newPin = b.sha256 rawPin
  newAuthHash : change.newAuthHash = m.authHash b rawPin
  newXorHash : change.newXorHash = xorHashOf b rawPin

section Requests

variable {b} {used : RawPin → Prop} {k : Key} {m : Machine}

theorem getPinHash_none {d : Device Machine Unit} (h : d.contents.pinHash = none) :
    getPinHash d = (.err (.error .accessDenied), d) := by
  have hread : (Prog.gets fun d => d.contents.pinHash : SecurityM Denied _) d
      = (.ok d.contents.pinHash, d) := rfl
  refine (Prog.bind_ok _ hread).trans ?_
  rw [h]
  rfl

theorem known {ε α : Type} {P S : Machine → Prop} {x : SecurityM ε α} {Q : α → Machine → Prop}
    (h : Answers (fun _ => True) P x Q S) : Spec (fun _ => True) P x Q fun _ _ => True :=
  h.conseq (fun _ => id) (fun _ _ => id) fun _ _ _ => trivial

/-- `SetSeed` stops before its first write. -/
theorem setSeed_kept {seed : Seed} {newOtpKey : Bytes 72} {fates : Nat → Fate Unit}
    (hk : Kept b used k m) (hcareful : m.pinHash = none ∨ fates 0 ≠ .done) :
    StepKept b used (.setSeed seed newOtpKey) k (setSeed b seed newOtpKey ⟨m, fates⟩) := by
  unfold setSeed
  cases hmem : m.pinHash with
  | none =>
    rw [Prog.bind_err _ (getPinHash_none (d := ⟨m, fates⟩) hmem)]
    exact stepKept_stopped hk (Std.Refl.refl m)
  | some hashes =>
    obtain ⟨stop, d', hcut, hd'⟩ := withSecuram_cut (ε := Error) (d := ⟨m, fates⟩)
      (f := fun s => { s with otpKey := newOtpKey }) (hcareful.resolve_left (by rw [hmem]; nofun))
    have hstop : accessDenied (changeSeedAndOtpKey b seed hashes.2 newOtpKey) ⟨m, fates⟩
        = (.err (stop.map fun _ => .accessDenied), d') :=
      Prog.mapErr_err _ (Prog.bind_err _ hcut)
    rw [Prog.bind_ok _ (getPinHash_some (d := ⟨m, fates⟩) hmem), Prog.bind_err _ hstop]
    exact stepKept_stopped hk (hd' ▸ Std.Refl.refl m)

theorem pinHashes_spec (rawPin : RawPin) :
    Spec (fun _ => True) (· = m) (pinHashes b rawPin)
      (fun h m' => h = (b.sha256 rawPin, xorHashOf b rawPin) ∧ m' = m) fun _ _ => True := by
  refine Spec.bind (steady (validateRawPin_moves rawPin) _) fun _ => ?_
  refine Spec.bind (known (mapErr_answers (hashOf_answers _))) fun pin => ?_
  refine Spec.bind (known (mapErr_answers (hashOf_answers _))) fun xorHash => Spec.pure ?_
  rintro m' ⟨⟨hm, rfl⟩, rfl⟩
  exact ⟨rfl, hm⟩

/-- The memory after a request that has logged in. -/
theorem loggedIn_spec (hashes : AuthPinHash × XorPinHash) (pinEntry : UInt8) (P : Machine → Prop) :
    Spec (fun _ => True) P (do
      setPinHash (some hashes)
      setPinEntryMode pinEntry : SecurityM Denied Unit)
      (fun _ m' => m'.pinHash = some hashes) fun _ _ => True := by
  refine Spec.bind (Q := fun _ m' => m'.pinHash = some hashes)
    (Prog.Triple.modify fun d hd => ⟨hd.1, rfl⟩) fun _ => ?_
  exact ((setPinEntryMode_idle pinEntry).spec fun _ _ h h' => h.pinHash.trans h').conseq
    (fun _ => id) (fun _ _ => id) fun _ _ _ => trivial

theorem loggedIn_moves (hashes : Option (AuthPinHash × XorPinHash)) (pinEntry : UInt8) :
    Moves SameVault (do
      setPinHash hashes
      setPinEntryMode pinEntry : SecurityM Denied Unit) :=
  Moves.bind (setPinHash_moves fun _ => ⟨fun _ _ => rfl, rfl, rfl⟩) fun _ =>
    (setPinEntryMode_idle pinEntry).mono fun _ _ h => h.vault

/-- Once the stores of `SetSeedAndPin` are written, the reset is left. -/
theorem storeSeedAndPin_stored {reset₀ : Bytes 32 → SecurityM Error Unit} {seed : Seed}
    {rawPin : RawPin} {newOtpKey : Bytes 72} {a : AuthPinHash} {d d' : Device Machine Unit}
    (hpair : Paired b d.contents) (husable : Usable newOtpKey (Key.xored b ⟨rawPin, seed⟩))
    (hrun : storeSeedAndPin b reset₀ seed (b.sha256 rawPin) (xorHashOf b rawPin) newOtpKey d
      = (.ok a, d')) :
    ∃ p d₁, (∀ reset, storeSeedAndPin b reset seed (b.sha256 rawPin) (xorHashOf b rawPin)
        newOtpKey d = (do
          reset p
          pure a : SecurityM Error AuthPinHash) d₁) ∧
      Holds b ⟨rawPin, seed⟩ d₁.contents ∧ a = d₁.contents.authHash b rawPin := by
  obtain ⟨x, d₂, hchange, hrest⟩ := Prog.of_bind_ok hrun
  obtain ⟨a', d₃, hattempt, hrest⟩ := Prog.of_bind_ok hrest
  obtain ⟨u, d₄, hset, hpure⟩ := Prog.of_bind_ok hrest
  obtain ⟨p, d₁, hstore, -⟩ := Prog.of_bind_ok hset
  obtain rfl : a' = a := by
    cases hpure
    rfl
  obtain ⟨⟨rfl, hintact⟩, hsame₂⟩ :=
    (changeSeedAndOtpKey_spec seed _ newOtpKey).of_ok (fun _ => trivial) rfl hchange
  -- From here on nothing but the PIN hash changes.
  let m₁ := (d.contents.rekeyed newOtpKey).withSeed
    ((Key.xored b ⟨rawPin, seed⟩).encryptTagged newOtpKey)
  have hpair₁ : Paired b m₁ := (congrFun (Machine.slots_withSeed (by decide) _) 0).trans hpair
  have hcount : ∀ m', SameVault m₁ m' →
      SameVault m₁ { m' with element := m'.element.count .loginAttempt } :=
    fun m' h => IsTrans.trans _ _ _ h (sameVault_count m' _)
  obtain ⟨hsame₃, ha⟩ := (known (pinHashAttempt_answers (P := SameVault m₁) (S := SameVault m₁)
    hpair₁ (fun _ => id) (fun _ => id) hcount (fun _ _ => .inr ⟨(), trivial⟩)
    (b.sha256 rawPin))).of_ok (fun _ => trivial) hsame₂ hattempt
  obtain ⟨hp, m₂, hsame, hd₁⟩ := (storePinHash_spec (S := SameVault m₁) hpair₁ (fun _ => id) hcount
    (seed.pinHashXor (xorHashOf b rawPin)) rawPin).of_ok (fun _ => trivial) hsame₃ hstore
  have hauth : p = m₂.authHash b rawPin := hp.trans (hsame.authHash rawPin).symm
  have hseed0 : m₁.element.slots .seed 0
      = chunk ((Key.xored b ⟨rawPin, seed⟩).encryptTagged newOtpKey) 0 := seed0_withSeed _
  have hseed1 : m₁.element.slots .seed 1
      = chunk ((Key.xored b ⟨rawPin, seed⟩).encryptTagged newOtpKey) 1 :=
    Element.slots_put_same _ .seed 1 _
  have hotp : m₂.securam.otpKey = newOtpKey := hsame.otpKey
  have hheld : Holds b ⟨rawPin, seed⟩ d₁.contents := by
    rw [hd₁, hauth]
    refine holds_withPinHash (hsame.paired hpair₁) (hsame.intact.trans hintact) ?_ ?_ ?_
    · rw [hotp, hsame.slots .seed rfl]
      exact hseed0
    · rw [hotp, hsame.slots .seed rfl]
      exact hseed1
    · rw [hotp]
      exact husable
  refine ⟨p, d₁, fun reset => ?_, hheld, ?_⟩
  · refine (Prog.bind_ok _ hchange).trans ((Prog.bind_ok _ hattempt).trans ?_)
    exact Prog.bind_run_congr _ (Prog.bind_ok _ hstore)
  · rw [← hheld.pinHash, hd₁, ha]
    exact hp.symm.trans (Element.slots_put_same _ .pinHash 0 _).symm

theorem finishSetSeedAndPin_moves (p a : AuthPinHash) (xorHash : XorPinHash) (pinEntry : UInt8) :
    Moves SameVault (finishSetSeedAndPin b p a xorHash pinEntry) :=
  Moves.bind (Moves.mapErr (Moves.bind ((resetLoginCounters_idle b p).mono fun _ _ h => h.vault)
    fun _ => Moves.pure)) fun _ => Moves.bind (Moves.mapErr (setupAesKeys_moves b _ _
      fun _ _ => ⟨fun _ _ => rfl, rfl, rfl⟩)) fun _ => loggedIn_moves _ pinEntry

theorem finishSetSeedAndPin_spec (p a : AuthPinHash) (xorHash : XorPinHash) (pinEntry : UInt8)
    (P : Machine → Prop) : Spec (fun _ => True) P (finishSetSeedAndPin b p a xorHash pinEntry)
      (fun _ m' => m'.pinHash = some (a, xorHash)) fun _ _ => True := by
  refine Spec.bind (Q := fun a' _ => a' = a ∧ True) (Spec.mapErr (Spec.bind Spec.anyhow fun _ =>
    Spec.pure fun _ _ => ⟨rfl, trivial⟩)) fun a' => Spec.assume fun ha => ?_
  rw [ha]
  exact Spec.bind Spec.anyhow fun _ => loggedIn_spec _ pinEntry _

theorem setSeedAndPin_kept {seed : Seed} {rawPin : RawPin} {pinEntry : UInt8}
    {newOtpKey : Bytes 72} {fates : Nat → Fate Unit} (hk : Kept b used k m)
    (hcareful : Careful b used (.request (.setSeedAndPin seed rawPin pinEntry newOtpKey) fates) m) :
    StepKept b used (.setSeedAndPin seed rawPin pinEntry newOtpKey) k
      (setSeedAndPin b (resetLoginCounters b) seed rawPin pinEntry newOtpKey ⟨m, fates⟩) := by
  obtain ⟨hused, husable, hrun⟩ := hcareful
  rcases hx : pinHashes b rawPin ⟨m, fates⟩ with ⟨hashes | stop | p, d⟩
  · obtain ⟨rfl, hd⟩ := (pinHashes_spec rawPin).of_ok (fun _ => trivial) rfl hx
    by_cases hdone : d.fates 0 = .done
    · obtain ⟨⟨a, d', hstores⟩, hnoerr⟩ := hrun _ d hx hdone
      obtain ⟨p, d₁, hrest, hheld, rfl⟩ := storeSeedAndPin_stored
        (by rw [hd]; exact hk.holds.paired) husable hstores
      have hfinish : setSeedAndPin b (resetLoginCounters b) seed rawPin pinEntry newOtpKey
          ⟨m, fates⟩ = finishSetSeedAndPin b p (d₁.contents.authHash b rawPin)
            (xorHashOf b rawPin) pinEntry d₁ :=
        (Prog.bind_ok _ hx).trans (Prog.bind_run_congr _ (Prog.mapErr_run_congr _ (hrest _)))
      rw [hfinish]
      refine stepKept_stored (.setSeedAndPin seed rawPin pinEntry newOtpKey) hheld hused
        (finishSetSeedAndPin_moves _ _ _ _) (fun d' hok => ?_) fun e d' herr => ?_
      · exact (finishSetSeedAndPin_spec p _ _ pinEntry fun _ => True).of_ok (fun _ => trivial)
          trivial hok
      · exact hnoerr e d' (hfinish.trans herr)
    · obtain ⟨stop, d', hcut, hd'⟩ := withSecuram_cut (ε := Error)
        (f := fun s => { s with otpKey := newOtpKey }) hdone
      have hstores : accessDenied (storeSeedAndPin b (resetLoginCounters b) seed (b.sha256 rawPin)
          (xorHashOf b rawPin) newOtpKey) d = (.err (stop.map fun _ => .accessDenied), d') :=
        Prog.mapErr_err _ (Prog.bind_err _ (Prog.bind_err _ hcut))
      have hstop : setSeedAndPin b (resetLoginCounters b) seed rawPin pinEntry newOtpKey ⟨m, fates⟩
          = (.err (stop.map fun _ => .accessDenied), d') :=
        (Prog.bind_ok _ hx).trans (Prog.bind_err _ hstores)
      rw [hstop]
      exact stepKept_stopped hk (by rw [hd', hd]; exact Std.Refl.refl m)
  · have hstop : setSeedAndPin b (resetLoginCounters b) seed rawPin pinEntry newOtpKey ⟨m, fates⟩
        = (.err stop, d) := Prog.bind_err _ hx
    rw [hstop]
    have hsame : Moves Idle (pinHashes b rawPin) := pinHashes_moves b rawPin
    have hidle := hsame ⟨m, fates⟩
    rw [hx] at hidle
    exact stepKept_stopped hk hidle
  · exact p.elim

theorem preparePinChange_spec (hk : Kept b used k m) (rawPin : RawPin) (seed : Option Seed) :
    Spec (fun _ => True) (· = m) (preparePinChange b rawPin seed)
      (fun change m' => change.Prepared b k rawPin m ∧ Idle m m') fun _ _ => True := by
  refine Spec.bind (steady (validateRawPin_moves rawPin) _) fun _ => ?_
  refine Spec.bind (Q := fun oldHashes m' => oldHashes.2 = xorHashOf b k.pin ∧ m' = m)
    (fun d hd => ?_) fun oldHashes => Spec.assume fun hold => ?_
  · rcases hk.memory with hnone | hsome
    · rw [getPinHash_none (by rw [hd.2]; exact hnone)]
      exact ⟨hd.1, trivial⟩
    · rw [getPinHash_some (by rw [hd.2]; exact hsome)]
      exact ⟨hd.1, rfl, hd.2⟩
  refine Spec.bind (known (readSecuram_answers _ fun m' h => by rw [h]; exact hk.holds.intact))
    fun otpKey => ?_
  refine Spec.pre (P := fun m' => otpKey = m.securam.otpKey ∧ m' = m) (Spec.assume fun hotp => ?_)
    fun m' h => ⟨by rw [h.2, h.1], h.1⟩
  refine Spec.bind (steady (seedForPin_moves b _ _ _) _) fun xorSeed => ?_
  refine Spec.bind (known (mapErr_answers (hashOf_answers _))) fun pin => ?_
  refine Spec.pre (Spec.assume fun hpin => ?_) fun _ h => And.comm.mp h
  rw [hotp]
  refine Spec.bind (known (mapErr_answers (pinHashAttempt_answers (P := (· = m)) (S := Idle m)
    hk.holds.paired (fun m' h => by rw [h]; exact Std.Refl.refl m) (fun m' h => h.vault)
    (fun m' h => by rw [h]; exact idle_count m _) (fun _ _ => .inr ⟨(), trivial⟩) pin)))
    fun newAuthHash => ?_
  refine Spec.pre (Spec.assume fun hauth => ?_) fun _ h => And.comm.mp h
  refine Spec.bind (known (mapErr_answers (hashOf_answers _))) fun newXorHash => ?_
  refine Spec.pure fun m' h => ⟨⟨hold, rfl, hpin, ?_, h.2⟩, h.1⟩
  rw [hauth, hpin]
  rfl

theorem finishChangePin_moves (p : AuthPinHash) (change : PinChange) (pinEntry : UInt8) :
    Moves SameVault (finishChangePin b p change pinEntry) :=
  Moves.bind (Moves.mapErr ((resetLoginCounters_idle b p).mono fun _ _ h => h.vault)) fun _ =>
    loggedIn_moves _ pinEntry

theorem finishChangePin_spec (p : AuthPinHash) (change : PinChange) (pinEntry : UInt8)
    (P : Machine → Prop) : Spec (fun _ => True) P (finishChangePin b p change pinEntry)
      (fun _ m' => m'.pinHash = some (change.newAuthHash, change.newXorHash)) fun _ _ => True :=
  Spec.bind Spec.anyhow fun _ => loggedIn_spec _ pinEntry _

theorem storedSeed_of_holds (hm : Holds b k m) : m.storedSeed = some (k.xored b) := by
  unfold Machine.storedSeed
  have hblocks : (chunks (Slot.size .seed)).map (m.element.slots .seed)
      = [chunk ((k.xored b).encryptTagged m.securam.otpKey) 0,
        chunk ((k.xored b).encryptTagged m.securam.otpKey) 1, m.element.slots .seed 2] := by
    rw [← hm.seed0, ← hm.seed1]
    rfl
  rw [hblocks]
  show XorSeed.decryptTagged (resize 33 (joinBlocks 72 _)) _ = _
  rw [join_chunks]
  exact decrypt_encrypt hm.usable

/-- A change that starts from the stored seed stores it for the new PIN. -/
theorem newXored_of_prepared {rawPin : RawPin} {change : PinChange} (hm : Holds b k m)
    (h : change.Prepared b k rawPin m) (hstored : m.storedSeed = some change.xorSeed) :
    change.newXored = Key.xored b ⟨rawPin, k.seed⟩ := by
  have hseed : change.xorSeed = k.xored b :=
    Option.some.inj (hstored.symm.trans (storedSeed_of_holds hm))
  unfold PinChange.newXored
  rw [hseed, h.oldXorHash, h.newXorHash]
  unfold Key.xored
  rw [seed_xor_cancel]

/-- The stores after `ChangePin` has written the PIN hash and then the seed. -/
theorem holds_changed {rawPin : RawPin} {change : PinChange} {m₂ : Machine} {p : AuthPinHash}
    (hm : Holds b k m) (h : change.Prepared b k rawPin m)
    (hstored : m.storedSeed = some change.xorSeed)
    (husable : Usable change.otpKey change.newXored) (hp : p = m.authHash b rawPin)
    (hsame : Idle m m₂) :
    Holds b ⟨rawPin, k.seed⟩
      ((m₂.withPinHash p).withSeed (change.newXored.encryptTagged change.otpKey)) := by
  have hotp : change.otpKey = (m₂.withPinHash p).securam.otpKey :=
    h.otpKey.trans hsame.vault.otpKey.symm
  rw [newXored_of_prepared hm h hstored] at husable ⊢
  rw [hotp] at husable ⊢
  refine holds_withSeed ((congrFun (Machine.slots_withPinHash (by decide) p) 0).trans
    (hsame.vault.paired hm.paired)) (hsame.vault.intact.trans hm.intact) ?_ husable
  refine (Element.slots_put_same m₂.element .pinHash 0 p).trans ?_
  unfold Machine.authHash
  rw [Machine.slots_withPinHash (by decide), Machine.slots_withPinHash (by decide), hp]
  exact (hsame.vault.authHash rawPin).symm

theorem changePin_kept {rawPin : RawPin} {seed : Option Seed} {pinEntry : UInt8}
    {fates : Nat → Fate Unit} (hk : Kept b used k m)
    (hcareful : Careful b used (.request (.changePin rawPin seed pinEntry) fates) m) :
    StepKept b used (.changePin rawPin seed pinEntry) k
      (changePinRequest b (resetLoginCounters b) rawPin seed pinEntry ⟨m, fates⟩) := by
  obtain ⟨hused, hrun⟩ := hcareful
  have hmoves : Moves Idle (preparePinChange b rawPin seed) :=
    preparePinChange_moves b rawPin seed fun m => idle_count m .loginAttempt
  rcases hx : preparePinChange b rawPin seed ⟨m, fates⟩ with ⟨change | stop | p, d⟩
  · obtain ⟨hprep, hidle⟩ := (preparePinChange_spec hk rawPin seed).of_ok (fun _ => trivial) rfl hx
    have hspec := storePinHash_spec (S := Idle m) hk.holds.paired (fun m' h => h.vault)
      (fun m' h => IsTrans.trans _ _ _ h (idle_count m' _)) change.xorSeed rawPin
    rw [← hprep.otpKey, ← hprep.newPin] at hspec
    rcases hstore : storePinHash b change.xorSeed change.newPin change.otpKey d
      with ⟨p | stop | p, d'⟩
    · obtain ⟨hstored, husable, ⟨u, d'', hwrite⟩, hnoerr⟩ := hrun change d hx p d' hstore
      obtain ⟨hp, m₂, hsame, hd'⟩ := hspec.of_ok (fun _ => trivial) hidle hstore
      obtain ⟨_, rfl, hd''⟩ := (writeSeed_spec _ (· = d'.contents)).of_ok (fun _ => trivial) rfl
        hwrite
      rw [hd'] at hd''
      have hheld : Holds b ⟨rawPin, k.seed⟩ d''.contents := by
        rw [hd'']
        exact holds_changed hk.holds hprep hstored husable hp hsame
      have hchange : changePin b (resetLoginCounters b) change.newPin change.xorSeed
          change.oldXorHash change.newXorHash change.otpKey d = resetLoginCounters b p d'' :=
        (Prog.bind_ok _ hstore).trans (Prog.bind_ok _ hwrite)
      have hfinish : changePinRequest b (resetLoginCounters b) rawPin seed pinEntry ⟨m, fates⟩
          = finishChangePin b p change pinEntry d'' :=
        (Prog.bind_ok _ hx).trans (Prog.bind_run_congr _ (Prog.mapErr_run_congr _ hchange))
      rw [hfinish]
      refine stepKept_stored (.changePin rawPin seed pinEntry) hheld hused
        (finishChangePin_moves _ _ _) (fun d₁ hok => ?_) fun e d₁ herr => ?_
      · have hauth : change.newAuthHash = d''.contents.authHash b rawPin := by
          rw [hprep.newAuthHash, ← hheld.pinHash, hd'', Machine.slots_withSeed (by decide), ← hp]
          exact (Element.slots_put_same m₂.element .pinHash 0 p).symm
        have hxor : change.newXorHash = xorHashOf b rawPin := hprep.newXorHash
        rw [(finishChangePin_spec p change pinEntry fun _ => True).of_ok (fun _ => trivial)
          trivial hok, hauth, hxor]
        rfl
      · exact hnoerr e d₁ (hfinish.trans herr)
    · have hchange : accessDenied (changePin b (resetLoginCounters b) change.newPin
          change.xorSeed change.oldXorHash change.newXorHash change.otpKey) d
            = (.err (stop.map fun _ => .accessDenied), d') :=
        Prog.mapErr_err _ (Prog.bind_err _ hstore)
      have hstop : changePinRequest b (resetLoginCounters b) rawPin seed pinEntry ⟨m, fates⟩
          = (.err (stop.map fun _ => .accessDenied), d') :=
        (Prog.bind_ok _ hx).trans (Prog.bind_err _ hchange)
      rw [hstop]
      exact stepKept_stopped hk (hspec.of_stop (fun _ => trivial) hidle hstore)
    · exact p.elim
  · have hstop : changePinRequest b (resetLoginCounters b) rawPin seed pinEntry ⟨m, fates⟩
        = (.err stop, d) := Prog.bind_err _ hx
    rw [hstop]
    have hidle := hmoves ⟨m, fates⟩
    rw [hx] at hidle
    exact stepKept_stopped hk hidle
  · exact p.elim

/-- A PIN that passes has the hash that is stored. -/
theorem isMainPin_spec (digest : Bytes 32) :
    Spec (fun _ => True) (Idle m) (isMainPin b digest)
      (fun ok m' => (ok = true → m.element.slots .pinHash 0 = digest) ∧ Idle m m')
      fun _ _ => True := by
  have hcheck : Spec (fun _ => True) (Idle m) (checkmacHard .pinHash digest)
      (fun _ m' => m.element.slots .pinHash 0 = digest ∧ Idle m m') fun _ => Idle m := by
    refine Spec.bind ((gendigSlot_answers .pinHash digest).conseq (fun _ => id) (fun _ _ => id)
      fun _ _ h => h.2) fun tempkey => ?_
    refine Spec.pre (Spec.assume fun htempkey => ?_) fun _ h => And.comm.mp h
    refine (requireTempkey_spec tempkey (Idle m)).conseq (fun _ => id) (fun _ m' h => ⟨?_, h.1⟩)
      fun _ _ => id
    rw [htempkey] at h
    exact (congrFun (h.1.vault.slots .pinHash rfl) 0).symm.trans (of_decide_eq_true h.2)
  refine Spec.bind (steady (pairUnlock_moves b) _) fun _ => ?_
  refine Spec.bind (Q := fun (result : Except Error Unit) m' =>
    (result = .ok () → m.element.slots .pinHash 0 = digest) ∧ Idle m m') (Spec.attempt ?_)
    fun result => ?_
  · refine hcheck.conseq (fun _ => id) (fun _ _ h => ⟨fun _ => h.1, h.2⟩) fun stop m' h => ?_
    cases stop with
    | powerLoss => trivial
    | halt message => trivial
    | error e => exact ⟨(by intro h; cases h), h⟩
  · cases result with
    | ok u => exact Spec.pure fun _ h => ⟨fun _ => h.1 rfl, h.2⟩
    | error e => exact Spec.pure fun _ h => ⟨(by intro h; cases h), h.2⟩

/-- A login that succeeds has the hash of its PIN, and it is the hash of `k`'s. -/
def LoginAttempt.Rightful (b : Board) (k : Key) (rawPin : RawPin) (m : Machine)
    (r : XorPinHash × LoginAttempt) : Prop :=
  ∀ a, r.2 = .success a →
    r.1 = xorHashOf b rawPin ∧ a = m.authHash b rawPin ∧ m.authHash b k.pin = a

theorem checkLogin_spec (hm : Holds b k m) (rawPin : RawPin) :
    Spec (fun _ => True) (· = m) (checkLogin b rawPin)
      (fun r m' => LoginAttempt.Rightful b k rawPin m r ∧ Idle m m') fun _ _ => True := by
  refine Spec.bind (known (mapErr_answers (hashOf_answers _))) fun pin => ?_
  refine Spec.pre (Spec.assume fun hpin => ?_) fun _ h => And.comm.mp h
  refine Spec.bind (known (mapErr_answers (hashOf_answers _))) fun xorHash => ?_
  refine Spec.pre (Spec.assume fun hxor => ?_) fun _ h => And.comm.mp h
  refine Spec.bind (known (readSecuram_answers _ fun m' h => by rw [h]; exact hm.intact))
    fun otpKey => ?_
  refine Spec.pre (P := fun m' => otpKey = m.securam.otpKey ∧ m' = m) (Spec.assume fun hotp => ?_)
    fun m' h => ⟨by rw [h.2, h.1], h.1⟩
  rw [hpin, hotp]
  refine Spec.bind (Q := fun la m' => (∀ a, la = .success a → a = m.authHash b rawPin ∧
    m.authHash b k.pin = a) ∧ Idle m m') (Spec.mapErr ?_) fun la =>
      Spec.pure fun m' h => ⟨fun a ha => ⟨hxor, h.1 a ha⟩, h.2⟩
  refine Spec.bind (known (pinHashAttempt_answers (P := (· = m)) (S := Idle m) hm.paired
    (fun m' h => by rw [h]; exact Std.Refl.refl m) (fun m' h => h.vault)
    (fun m' h => by rw [h]; exact idle_count m _) (fun _ _ => .inr ⟨(), trivial⟩) _))
    fun authHash => ?_
  refine Spec.pre (Spec.assume fun hauth => ?_) fun _ h => And.comm.mp h
  refine Spec.bind (isMainPin_spec authHash) fun ok => Spec.assume fun hok => ?_
  cases ok with
  | true =>
    refine Spec.pure fun m' h => ⟨fun a ha => ?_, h⟩
    cases ha
    exact ⟨hauth, hm.pinHash.symm.trans (hok rfl)⟩
  | false =>
    refine Spec.bind (Q := fun _ => Idle m) ?_ fun last => ?_
    · exact ((getLastSuccess_moves b).attempt.spec fun _ _ h h' => IsTrans.trans _ _ _ h' h).conseq
        (fun _ => id) (fun _ _ => id) fun _ _ _ => trivial
    · cases last with
      | ok last => exact Spec.pure fun m' h => ⟨nofun, h⟩
      | error e => exact Spec.pure fun m' h => ⟨nofun, h⟩

/-- After a rightful login the memory holds the hashes of `k`'s PIN. -/
theorem loginSucceeded_kept {rawPin : RawPin} {entropy : Bytes 72} {m' : Machine}
    (fates : Nat → Fate Unit) (hk : Kept b used k m) (hidle : Idle m m') :
    StepKept b used (.login rawPin entropy) k (loginSucceeded b (resetLoginCounters b)
      (m.authHash b k.pin) (xorHashOf b k.pin) ⟨m', fates⟩) := by
  let logged : Machine := { m' with pinHash := some (m.authHash b k.pin, xorHashOf b k.pin) }
  have hsame : SameVault m' logged := ⟨fun _ _ => rfl, rfl, rfl⟩
  have hlogged : Kept b used k logged := by
    refine ⟨(hk.idle hidle).holds.same hsame, hk.used, .inr ?_⟩
    rw [hsame.authHash, hidle.vault.authHash]
  have hrest : Moves Idle (do
      mapErr (fun _ => .loginFailed 0)
        (setupAesKeys b (m.authHash b k.pin) (xorHashOf b k.pin))
      let _ : Except Error Unit ← attempt (resetLoginCounters b (m.authHash b k.pin))
      : SecurityM Denied Unit) :=
    Moves.bind (Moves.mapErr (setupAesKeys_moves b _ _ fun _ _ =>
      ⟨⟨fun _ _ => rfl, rfl, rfl⟩, rfl⟩)) fun _ =>
        Moves.bind (resetLoginCounters_idle b _).attempt fun _ => Moves.pure
  exact stepKept_idle hrest rfl hlogged fates

theorem login_kept {rawPin : RawPin} {entropy : Bytes 72} {fates : Nat → Fate Unit}
    (hk : Kept b used k m)
    (hcareful : Careful b used (.request (.login rawPin entropy) fates) m) :
    StepKept b used (.login rawPin entropy) k
      (login b (resetLoginCounters b) rawPin entropy ⟨m, fates⟩) := by
  obtain ⟨-, hdistinct, hleft⟩ := hcareful
  have hmoves : Moves Idle (checkLogin b rawPin) :=
    checkLogin_moves b rawPin fun m => idle_count m .loginAttempt
  have hidle := hmoves ⟨m, fates⟩
  rcases hx : checkLogin b rawPin ⟨m, fates⟩ with ⟨⟨xorHash, a | n⟩ | stop | p, d⟩
  · rw [hx] at hidle
    obtain ⟨hrightful, -⟩ := (checkLogin_spec hk.holds rawPin).of_ok (fun _ => trivial) rfl hx
    obtain ⟨hxor, ha, hsame⟩ := hrightful a rfl
    -- The hashes of two PINs of the history are the same, so the PINs are.
    obtain rfl : k.pin = rawPin := hdistinct k.pin hk.used (hsame.trans ha)
    have hrun : login b (resetLoginCounters b) k.pin entropy ⟨m, fates⟩
        = loginSucceeded b (resetLoginCounters b) a xorHash d := Prog.bind_ok _ hx
    rw [hrun, ha, show xorHash = xorHashOf b k.pin from hxor]
    exact loginSucceeded_kept d.fates hk hidle
  · rw [hx] at hidle
    have hn : n ≠ 0 := by
      rintro rfl
      exact hleft xorHash d hx
    have hrun : login b (resetLoginCounters b) rawPin entropy ⟨m, fates⟩
        = (.err (.error (.loginFailed n)), d) :=
      (Prog.bind_ok _ hx).trans (Prog.bind_ok _ (Prog.onlyIf_false_run hn _ d))
    rw [hrun]
    exact stepKept_stopped hk hidle
  · rw [hx] at hidle
    have hrun : login b (resetLoginCounters b) rawPin entropy ⟨m, fates⟩ = (.err stop, d) :=
      Prog.bind_err _ hx
    rw [hrun]
    exact stepKept_stopped hk hidle
  · exact p.elim

/-- The step lemma: a careful request keeps what is set, or stores what it sets. -/
theorem serve_kept {req : Request} {fates : Nat → Fate Unit} (hk : Kept b used k m)
    (hcareful : Careful b used (.request req fates) m) :
    StepKept b used req k (serve b (resetLoginCounters b) req ⟨m, fates⟩) := by
  cases req with
  | setSeedAndPin seed rawPin pinEntry newOtpKey => exact setSeedAndPin_kept hk hcareful
  | changePin rawPin seed pinEntry => exact changePin_kept hk hcareful
  | login rawPin entropy => exact login_kept hk hcareful
  | logout =>
    refine ⟨k, rfl, Kept.settle ⟨?_, hk.used, .inl rfl⟩ _⟩
    exact hk.holds.same ⟨fun _ _ => rfl, rfl, rfl⟩
  | setSeed seed newOtpKey => exact setSeed_kept hk hcareful
  | getSeed =>
    exact stepKept_idle (Moves.bind (getSeedRequest_moves b) fun _ => Moves.pure) rfl hk fates
  | getAttemptsRemaining =>
    exact stepKept_idle (Moves.bind (getAttemptsRemaining_moves b) fun _ => Moves.pure) rfl hk fates
  | lockout options thenReboot entropy => exact hcareful.elim
  | tamper entropy => exact hcareful.elim

end Requests

/-! ## 5. Histories -/

section Histories

variable {b} {used : RawPin → Prop}

theorem sets_of_careful {m m' : Machine} {es : List Event}
    (h : Histories b (Careful b used) m es m') :
    ∀ k, Kept b used k m → ∃ k', Sets b m k es m' k' ∧ Kept b used k' m' := by
  induction h with
  | nil m => exact fun k hk => ⟨k, .nil m k, hk⟩
  | @cons m m' e es hcareful _ ih =>
    intro k hk
    cases e with
    | request req fates =>
      obtain ⟨k₁, hafter, hk₁⟩ := serve_kept hk hcareful
      obtain ⟨k', hsets, hk'⟩ := ih k₁ hk₁
      exact ⟨k', .request hafter hsets, hk'⟩
    | reboot =>
      obtain ⟨k', hsets, hk'⟩ := ih k hk.boot
      exact ⟨k', .reboot hsets, hk'⟩

/-- The first `SetSeedAndPin`, from contents about which nothing is known. -/
theorem setSeedAndPin_first {m₀ : Machine} {seed : Seed} {rawPin : RawPin} {pinEntry : UInt8}
    {newOtpKey : Bytes 72} {fates : Nat → Fate Unit} {d : Device Machine Unit}
    (hpair : Paired b m₀) (hused : used rawPin)
    (husable : Usable newOtpKey (Key.xored b ⟨rawPin, seed⟩))
    (hset : setSeedAndPin b (resetLoginCounters b) seed rawPin pinEntry newOtpKey ⟨m₀, fates⟩
      = (.ok (), d)) : Kept b used ⟨rawPin, seed⟩ d.contents := by
  obtain ⟨hashes, d₁, hx, hrest⟩ := Prog.of_bind_ok hset
  obtain ⟨rfl, hd₁⟩ := (pinHashes_spec rawPin).of_ok (fun _ => trivial) rfl hx
  obtain ⟨a, d₂, hstores, -⟩ := Prog.of_bind_ok hrest
  obtain ⟨p, d₃, hreset, hheld, rfl⟩ := storeSeedAndPin_stored (by rw [hd₁]; exact hpair) husable
    (Prog.of_mapErr_ok hstores)
  have hfinish : finishSetSeedAndPin b p (d₃.contents.authHash b rawPin) (xorHashOf b rawPin)
      pinEntry d₃ = (.ok (), d) :=
    (Prog.bind_run_congr _ (Prog.mapErr_run_congr _ (hreset _))).symm.trans hrest
  have hsame : SameVault d₃.contents d.contents := by
    have := finishSetSeedAndPin_moves (b := b) p (d₃.contents.authHash b rawPin) (xorHashOf b rawPin)
      pinEntry d₃
    rw [hfinish] at this
    exact this
  refine ⟨hheld.same hsame, hused, .inr ?_⟩
  rw [hsame.authHash]
  exact (finishSetSeedAndPin_spec p _ _ pinEntry fun _ => True).of_ok (fun _ => trivial) trivial
    hfinish

end Histories

/-- **The PIN opens the seed.** After a first `SetSeedAndPin`, in a history of careful events,
the PIN that is set opens the seed that is set, as long as an attempt is left: the new ones
after a request that returns `Ok`, the old ones after an error, and one or the other where the
power goes. -/
theorem pin_opens_seed (used : RawPin → Prop) {m₀ m' : Machine} {seed : Seed} {rawPin : RawPin}
    {pinEntry : UInt8} {newOtpKey : Bytes 72} {fates : Nat → Fate Unit} {d : Device Machine Unit}
    {es : List Event} (hpair : Paired b m₀) (hused : used rawPin)
    (husable : Usable newOtpKey (Key.xored b ⟨rawPin, seed⟩))
    (hset : serve b (resetLoginCounters b) (.setSeedAndPin seed rawPin pinEntry newOtpKey)
      ⟨m₀, fates⟩ = (.ok (), d))
    (h : Histories b (Careful b used) d.contents es m') :
    ∃ k, Sets b d.contents ⟨rawPin, seed⟩ es m' k ∧
      (m'.element.Accepts 1 → Opens b k m') := by
  obtain ⟨k, hsets, hk⟩ := sets_of_careful h _ (setSeedAndPin_first hpair hused husable hset)
  exact ⟨k, hsets, opens_of_holds hk.holds⟩

/-- A hash that depends on every byte. -/
def checksumBoard : Board :=
  { sampleBoard with sha256 := fun bytes _ => bytes.foldl (· + ·) 0 }

def samplePin : RawPin := [49, 50, 51, 52, 53, 54]

/-- A request that nothing interrupts. -/
def served (req : Request) (m : Machine) :
    Outcome Empty (Stop Denied) Unit × Device Machine Unit :=
  serve checksumBoard (resetLoginCounters checksumBoard) req ⟨m, fun _ => .done⟩

/-- After a first `SetSeedAndPin`. -/
def setUp : Outcome Empty (Stop Denied) Unit × Device Machine Unit :=
  served (.setSeedAndPin (.twelve fun _ => 3) samplePin 0 fun _ => 1) sampleMachine

/-- After a `SetSeed` that follows it. -/
def reseeded : Outcome Empty (Stop Denied) Unit × Device Machine Unit :=
  served (.setSeed (.twelve fun _ => 4) fun _ => 2) setUp.2.contents

def sampleEvents : List Event := [.reboot, .request (.login samplePin (zeros 72)) fun _ => .done]

/-- Did the check of a login accept the PIN? -/
def LoginAttempt.passed : Outcome Empty (Stop Denied) (XorPinHash × LoginAttempt) → Bool
  | .ok (_, .success _) => true
  | _ => false

theorem pin_opens_seed_one :
    ∃ m' k, Sets checksumBoard setUp.2.contents ⟨samplePin, .twelve fun _ => 3⟩ sampleEvents m' k ∧
      (m'.element.Accepts 1 → Opens checksumBoard k m') := by
  have hpair : ∀ r : Outcome Empty (Stop Denied) Unit × Device Machine Unit, r.1 = .ok () →
      r = (.ok (), r.2) := fun r h => Prod.ext h rfl
  have hset : setUp = (.ok (), setUp.2) := hpair setUp (by decide +kernel)
  have husable : Usable (fun _ => 1) (Key.xored checksumBoard ⟨samplePin, .twelve fun _ => 3⟩) :=
    ⟨by decide +kernel, .inr (by decide +kernel)⟩
  have hpassed : LoginAttempt.passed (checkLogin checksumBoard samplePin
      ⟨setUp.2.contents.boot, fun _ => .done⟩).1 = true := by
    decide +kernel
  have hlogin : Careful checksumBoard (· = samplePin)
      (.request (.login samplePin (zeros 72)) fun _ => .done) setUp.2.contents.boot := by
    refine ⟨rfl, fun _ h _ => h, fun xorHash d h => ?_⟩
    rw [h] at hpassed
    cases hpassed
  have hhistory : Histories checksumBoard (Careful checksumBoard (· = samplePin))
      setUp.2.contents sampleEvents _ := .cons trivial (.cons hlogin (.nil _))
  exact ⟨_, pin_opens_seed checksumBoard (· = samplePin)
    (show sampleMachine.element.slots .ioProtectionSecret 0 = zeros 32 by decide +kernel) rfl
    husable hset hhistory⟩

/-- `SetSeed` returns `Ok`, and the PIN is shut out: the one-time key is part of the PIN hash,
which is not written again. -/
theorem setSeed_shuts_out :
    setUp.1 = .ok () ∧ reseeded.1 = .ok () ∧ reseeded.2.contents.element.Accepts 1 ∧
      ∀ seed, ¬ Opens checksumBoard ⟨samplePin, seed⟩ reseeded.2.contents := by
  refine ⟨by decide +kernel, by decide +kernel, ?_, fun seed hopens => ?_⟩
  · rw [Element.accepts_iff]
    decide +kernel
  · obtain ⟨d, d', hlogin, -⟩ := hopens (zeros 72)
    have hfails : (login checksumBoard (resetLoginCounters checksumBoard) samplePin (zeros 72)
        ⟨reseeded.2.contents, fun _ => .done⟩).1 ≠ .ok () := by
      decide +kernel
    exact hfails (congrArg Prod.fst hlogin)

end Security
