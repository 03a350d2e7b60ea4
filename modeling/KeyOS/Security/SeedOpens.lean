import KeyOS.Security.PinBudget
import KeyOS.Security.StoredSeed

/-!
# A login with the right PIN

While an attempt is left, a login with the PIN that the stores hold succeeds and the seed
comes back: `opens_of_holds`.
-/

namespace Security

open Exec Interrupt Interruptible

variable (b : Board)

/-! ## 1. Programs that leave the stores alone -/

/-- The stores and the hashes in memory are the same. -/
structure Idle (m m' : Machine) : Prop where
  vault : SameVault m m'
  pinHash : m'.pinHash = m.pinHash

instance : Std.Refl Idle := ⟨fun m => ⟨Std.Refl.refl m, rfl⟩⟩

instance : IsTrans Machine Idle :=
  ⟨fun _ _ _ h h' => ⟨IsTrans.trans _ _ _ h.vault h'.vault, h'.pinHash.trans h.pinHash⟩⟩

theorem idle_put (m : Machine) {slot : Slot} (h : slot.inVault = false) (blk : Nat)
    (data : Bytes 32) : Idle m { m with element := m.element.put slot blk data } :=
  ⟨sameVault_put m h blk data, rfl⟩

theorem idle_count (m : Machine) (counter : Counter) :
    Idle m { m with element := m.element.count counter } :=
  ⟨sameVault_count m counter, rfl⟩

theorem setPinEntryMode_idle (mode : UInt8) : Moves Idle (setPinEntryMode mode) :=
  withSecuram_moves fun _ => ⟨⟨fun _ _ => rfl, rfl, rfl⟩, rfl⟩

theorem raiseMatchCount_idle (digest : Bytes 32) : Moves Idle (raiseMatchCount b digest) :=
  Moves.bind (getCounter_moves _) fun _ =>
    Moves.bind (encryptedWrite_moves b _ _ _ fun m => idle_put m rfl) fun _ => Moves.pure

theorem resetLoginCounters_idle (digest : Bytes 32) : Moves Idle (resetLoginCounters b digest) :=
  Moves.bind (raiseMatchCount_idle b digest) fun _ =>
    Moves.bind (addCounter_moves _ (idle_count · _) _) fun _ =>
      encryptedWrite32_moves b _ _ _ _ fun m => idle_put m rfl

/-! ## 2. A login with the right PIN -/

/-- A login with the PIN succeeds, and the seed comes back. -/
def Opens (k : Key) (m : Machine) : Prop :=
  ∀ entropy, ∃ d d', login b (resetLoginCounters b) k.pin entropy ⟨m, fun _ => .done⟩
      = (.ok (), d) ∧ getSeedRequest b d = (.ok (some k.seed), d')

section Login

/-- The way a program stops that has no panic of its own. -/
def Unpanicked (F : Fate Unit → Prop) : Stop Error → Prop
  | .error _ => True
  | .powerLoss => F .powerLoss
  | .halt _ => False

/-- `x` has no panic of its own. -/
abbrev Errs (F : Fate Unit → Prop) {α : Type} (x : SecurityM Error α) : Prop :=
  Spec F (fun _ => True) x (fun _ _ => True) fun stop _ => Unpanicked F stop

variable {F : Fate Unit → Prop} {α : Type} {b}

theorem command_errs {f : Element → Except Error (α × Element)} : Errs F (command f) :=
  Spec.step (fun _ _ _ _ _ => trivial) (fun _ _ _ _ => trivial) (fun _ _ _ _ => trivial)
    fun _ _ h => h

theorem query_errs {f : Element → Except Error α} : Errs F (query f) :=
  Spec.probe (fun _ _ _ _ => trivial) (fun _ _ _ _ => trivial) (fun _ _ _ _ => trivial)
    fun _ _ h => h

theorem hashOf_errs {a : α} : Errs F (hashOf a) :=
  Spec.probe (fun _ _ _ _ => trivial) (fun _ _ _ _ => trivial) (fun _ _ _ _ => trivial)
    fun _ _ h => h

theorem pickNonce_errs : Errs F pickNonce := Spec.bind query_errs fun _ => hashOf_errs

theorem gendigSlot_errs (slot : Slot) (contents : Bytes 32) : Errs F (gendigSlot slot contents) :=
  Spec.bind pickNonce_errs fun _ => Spec.bind query_errs fun _ => hashOf_errs

theorem gendigCounter_errs (counter : Counter) (value : Nat) :
    Errs F (gendigCounter counter value) :=
  Spec.bind pickNonce_errs fun _ => Spec.bind query_errs fun _ => hashOf_errs

theorem requireTempkey_errs (expected : Digest) : Errs F (requireTempkey expected) :=
  Spec.bind (Q := fun _ _ => True) (Spec.bind query_errs fun _ => hashOf_errs) fun _ =>
    Spec.onlyIf (fun _ => Spec.throw fun _ _ => trivial) fun _ _ _ => trivial

theorem orRetry_errs {x : SecurityM Error Unit} (h : Errs F x) (n : Nat) :
    Errs F (orRetry x n) := by
  induction n with
  | zero => exact h
  | succ n ih =>
    refine Spec.bind (Q := fun _ _ => True) (Spec.attempt (h.conseq (fun _ => id)
      (fun _ _ => id) fun stop _ hstop => ?_)) fun result => ?_
    · cases stop <;> exact hstop
    · cases result with
      | ok u => exact Spec.pure fun _ => id
      | error e => exact ih

theorem pairUnlock_errs : Errs F (pairUnlock b) :=
  orRetry_errs (Spec.bind pickNonce_errs fun _ => Spec.bind hashOf_errs fun _ => query_errs) 2

theorem encryptedWrite32_errs (dataSlot : Slot) (blk : Nat) (writeKn : Slot)
    (writeKey data : Bytes 32) : Errs F (encryptedWrite32 b dataSlot blk writeKn writeKey data) :=
  Spec.bind pairUnlock_errs fun _ => Spec.bind (gendigSlot_errs _ _) fun _ =>
    Spec.bind hashOf_errs fun _ => command_errs

theorem forEach_errs {ι : Type} {l : List ι} {f : ι → SecurityM Error Unit}
    (h : ∀ i, Errs F (f i)) : Errs F (Prog.forEach l f) := by
  induction l with
  | nil => exact Spec.pure fun _ => id
  | cons i l ih => exact Spec.bind (h i) fun _ => ih

theorem getCounter_errs (counter : Counter) : Errs F (getCounter counter) :=
  Spec.bind query_errs fun _ => Spec.bind (gendigCounter_errs _ _) fun _ =>
    Spec.bind (requireTempkey_errs _) fun _ => Spec.pure fun _ => id

theorem incrementTimes_errs (counter : Counter) (incr result : Nat) :
    Errs F (incrementTimes counter incr result) := by
  induction incr generalizing result with
  | zero => exact Spec.pure fun _ => id
  | succ incr ih => exact Spec.bind command_errs ih

/-- The reset returns or stops with an error. -/
theorem resetLoginCounters_errs (digest : Bytes 32) : Errs F (resetLoginCounters b digest) := by
  refine Spec.bind (Q := fun _ _ => True) (Spec.bind (getCounter_errs _) fun _ => Spec.bind
    (forEach_errs fun _ => encryptedWrite32_errs _ _ _ _ _) fun _ => Spec.pure fun _ => id) fun counts => ?_
  refine Spec.bind (Q := fun _ _ => True) (Spec.bind (incrementTimes_errs _ _ _) fun _ => Spec.bind
    (gendigCounter_errs _ _) fun _ => Spec.bind (requireTempkey_errs _) fun _ =>
      Spec.pure fun _ => id) fun _ => encryptedWrite32_errs _ _ _ _ _

/-- The memory of the server holds the hashes of the PIN. -/
def LoggedIn (k : Key) (m m' : Machine) : Prop :=
  SameVault m m' ∧ m'.pinHash = some (m.authHash b k.pin, xorHashOf b k.pin)

/-- Nothing fails. -/
abbrev Sound : Fate Unit → Prop := (· = .done)

theorem not_blamed {ε : Type} (stop : Stop ε) : ¬ Blamed Sound stop := by
  rcases stop with _ | message | e
  · exact nofun
  · rintro ⟨x, h⟩
    cases h
  · rintro ⟨x, h⟩
    cases h

/-- Without a fault the program gets to its end. -/
theorem Answers.sound {ε : Type} {P : Machine → Prop} {x : SecurityM ε α} {Q : α → Machine → Prop}
    {S : Machine → Prop} (h : Answers Sound P x Q S) : Spec Sound P x Q fun _ _ => False :=
  h.conseq (fun _ => id) (fun _ _ => id) fun stop _ hm => not_blamed stop hm.1

theorem pinLoginAttempt_succeeds {k : Key} {m : Machine} (hm : Holds b k m)
    (hleft : m.element.counters .loginAttempt < m.element.limit) :
    Spec Sound (· = m) (pinLoginAttempt b (b.sha256 k.pin) m.securam.otpKey)
      (fun la m' => Idle m m' ∧ la = .success (m.authHash b k.pin)) fun _ _ => False := by
  refine Spec.bind (Answers.sound (pinHashAttempt_answers (P := (· = m)) (S := Idle m) hm.paired
    (fun m' h => by rw [h]; exact Std.Refl.refl m) (fun m' h => h.vault)
    (fun m' h => by rw [h]; exact idle_count m _)
    (fun m' h => .inl (h ▸ hleft)) _)) fun authHash => ?_
  refine Spec.pre (Spec.assume fun hauth => ?_) fun _ h => And.comm.mp h
  have hslot : authHash = m.element.slots .pinHash 0 := by
    rw [hauth, hm.pinHash]
    rfl
  rw [hslot]
  refine Spec.bind (Answers.sound (isMainPin_answers (P := Idle m) hm.paired
    fun m' h => h.vault)) fun ok => ?_
  refine Spec.pre (Spec.assume fun hok => ?_) fun _ h => And.comm.mp h
  obtain rfl : ok = true := hok.resolve_right (by rintro ⟨x, h⟩; cases h)
  exact Spec.pure fun m' h => ⟨h, by rw [← hslot, hauth]; rfl⟩

theorem login_succeeds {k : Key} {m : Machine} (hm : Holds b k m)
    (hleft : m.element.counters .loginAttempt < m.element.limit) (entropy : Bytes 72) :
    Spec Sound (· = m) (login b (resetLoginCounters b) k.pin entropy)
      (fun _ m' => LoggedIn (b := b) k m m') fun _ _ => False := by
  have hcheck : Spec Sound (· = m) (checkLogin b k.pin)
      (fun r m' => r = (xorHashOf b k.pin, .success (m.authHash b k.pin)) ∧ Idle m m')
      fun _ _ => False := by
    refine Spec.bind (Answers.sound (mapErr_answers (hashOf_answers _))) fun pin => ?_
    refine Spec.pre (Spec.assume fun hpin => ?_) fun _ h => And.comm.mp h
    refine Spec.bind (Answers.sound (mapErr_answers (hashOf_answers _))) fun xorHash => ?_
    refine Spec.pre (Spec.assume fun hxor => ?_) fun _ h => And.comm.mp h
    refine Spec.bind (Answers.sound (readSecuram_answers _ fun m' h => h ▸ hm.intact))
      fun otpKey => ?_
    refine Spec.pre (P := fun m' => otpKey = m.securam.otpKey ∧ m' = m) (Spec.assume fun hotp => ?_)
      fun m' h => ⟨by rw [h.2, h.1], h.1⟩
    rw [hpin, hotp]
    refine Spec.bind (Spec.mapErr (pinLoginAttempt_succeeds hm hleft)) fun la => ?_
    exact Spec.pure fun m' h => ⟨by rw [hxor, h.2]; rfl, h.1⟩
  refine Spec.bind hcheck fun check => Spec.assume fun hvalue => ?_
  rw [hvalue]
  refine Spec.bind (Q := fun _ => LoggedIn (b := b) k m)
    (Prog.Triple.modify fun d hd => ⟨hd.1,
      IsTrans.trans _ _ _ hd.2.vault ⟨fun _ _ => rfl, rfl, rfl⟩, rfl⟩) fun _ => ?_
  refine Spec.bind (Q := fun _ => LoggedIn (b := b) k m) (fun d hd => ?_) fun _ => ?_
  · have hheld : Holds b k d.contents := hm.same hd.2.1
    have hhash : m.authHash b k.pin = d.contents.element.slots .pinHash 0 := by
      rw [hheld.pinHash, hd.2.1.authHash]
    rw [hhash]
    refine Answers.sound (mapErr_answers (setupAesKeys_answers (P := LoggedIn (b := b) k m) hheld
      (fun keys => ⟨IsTrans.trans _ _ _ hd.2.1 ⟨fun _ _ => rfl, rfl, rfl⟩, hd.2.2⟩) hd.2)) d
      ⟨hd.1, rfl⟩
  · refine Spec.bind (Q := fun _ => LoggedIn (b := b) k m) ?_ fun _ => Spec.pure fun _ => id
    refine Spec.attempt (((resetLoginCounters_idle b _).with_spec
      (P := LoggedIn (b := b) k m) (I := LoggedIn (b := b) k m) (fun m₁ m₂ h h₁ =>
        ⟨IsTrans.trans _ _ _ h₁.1 h.vault, h.pinHash.trans h₁.2⟩)
      ((resetLoginCounters_errs _).pre fun _ _ => trivial)).conseq (fun _ => id)
        (fun _ _ h => h.2) fun stop m' h => ?_)
    cases stop with
    | powerLoss => exact absurd h.1 nofun
    | halt message => exact h.1
    | error e => exact h.2

theorem getPinHash_some {d : Device Machine Unit} {hashes : AuthPinHash × XorPinHash}
    (h : d.contents.pinHash = some hashes) : getPinHash d = (.ok hashes, d) := by
  have hread : (Prog.gets fun d => d.contents.pinHash : SecurityM Denied _) d
      = (.ok d.contents.pinHash, d) := rfl
  refine (Prog.bind_ok _ hread).trans ?_
  rw [h]
  rfl

theorem getSeedRequest_succeeds {k : Key} {m : Machine} (hm : Holds b k m)
    (hlogged : m.pinHash = some (m.authHash b k.pin, xorHashOf b k.pin)) :
    Spec Sound (· = m) (getSeedRequest b) (fun seed _ => seed = some k.seed) fun _ _ => False := by
  refine Spec.bind (Q := fun hashes m' => m' = m ∧
    hashes = (m.authHash b k.pin, xorHashOf b k.pin)) ?_ fun hashes => ?_
  · rintro d ⟨hF, hd⟩
    rw [getPinHash_some (by rw [hd]; exact hlogged)]
    exact ⟨hF, hd, rfl⟩
  · refine Spec.pre (Spec.assume fun hhashes => ?_) fun _ h => And.comm.mp h
    rw [hhashes]
    refine Spec.bind (Answers.sound (readSecuram_answers _ fun m' h => by
      rw [h]; exact hm.intact)) fun otpKey => ?_
    refine Spec.pre (P := fun m' => otpKey = m.securam.otpKey ∧ m' = m)
      (Spec.assume fun hotp => ?_) fun m' h => ⟨by rw [h.2, h.1], h.1⟩
    rw [hotp]
    refine Spec.ite (fun hzero => absurd hzero hm.usable.1) fun _ => ?_
    show Spec Sound (· = m) (accessDenied (getSeed b (m.authHash b k.pin) _ _) >>= _) _ _
    rw [← hm.pinHash]
    refine Spec.bind (Answers.sound (mapErr_answers (getSeed_answers hm))) fun seed => ?_
    exact Spec.pure fun m' h => congrArg some h.2

/-- While an attempt is left, the PIN opens the stores that hold its seed. -/
theorem opens_of_holds {k : Key} {m : Machine} (hm : Holds b k m)
    (hleft : m.element.Accepts 1) : Opens b k m := by
  intro entropy
  have hlt : m.element.counters .loginAttempt < m.element.limit :=
    Nat.lt_of_sub_pos ((Element.accepts_iff 1 m.element).mp hleft)
  obtain ⟨_, d, hrun, hF, hlogged⟩ := (login_succeeds hm hlt entropy).ends_on
    (d := ⟨m, fun _ => .done⟩) (fun _ => rfl) rfl
  have hheld : Holds b k d.contents := hm.same hlogged.1
  obtain ⟨_, d', hseed, rfl⟩ := (getSeedRequest_succeeds hheld (by
    rw [hlogged.1.authHash]; exact hlogged.2)).ends hF rfl
  exact ⟨d, d', hrun, hseed⟩

end Login

end Security
