import KeyOS.Security.Server

/-!
# The budget of PIN attempts

The element accepts an attempt while the login counter is below the match count. Everything
the server does lowers the difference, except `reset_login_counters`, which raises the match
count first and lets the counter catch up afterwards. Between the two there are up to 32
attempts too many.

Result: `pin_budget`. In histories where no catch-up is interrupted the element never accepts
more than `MAX_LOGIN_ATTEMPTS`.
-/

namespace Security

open Exec Interrupt Interruptible

/-! ## 1. The attempts that are open -/

namespace Element

/-- How far the login counter is from its limit. -/
def attemptsLeft (e : Element) : Nat := e.limit - e.counters .loginAttempt

/-- The element accepts `n` attempts in a row. -/
def Accepts : Nat → Element → Prop
  | 0, _ => True
  | n + 1, e => ∃ e', hmacStart .pinAttempt e = .ok ((), e') ∧ Accepts n e'

/-- The element accepts at most `k` attempts. -/
def Within (k : Nat) (e : Element) : Prop := ∀ n, Accepts n e → n ≤ k

theorem limit_put (e : Element) {slot : Slot} (h : slot ≠ .matchCount) (blk : Nat)
    (data : Bytes 32) : (e.put slot blk data).limit = e.limit := by
  unfold limit
  rw [slots_put_other e h.symm]

theorem attemptsLeft_count (e : Element) :
    (e.count .loginAttempt).attemptsLeft = e.attemptsLeft - 1 := by
  show e.limit - (e.counters .loginAttempt + 1) = e.limit - e.counters .loginAttempt - 1
  omega

theorem attemptsLeft_count_le (e : Element) (counter : Counter) :
    (e.count counter).attemptsLeft ≤ e.attemptsLeft := by
  cases counter with
  | loginAttempt =>
    rw [attemptsLeft_count]
    exact Nat.sub_le _ _
  | factoryReset => exact Nat.le_refl _

theorem increment_ok {e : Element} (h : 0 < e.attemptsLeft) :
    increment .loginAttempt e = .ok (e.counters .loginAttempt + 1, e.count .loginAttempt) := by
  unfold attemptsLeft at h
  unfold increment
  rw [if_neg]
  rintro ⟨-, hle⟩
  omega

theorem increment_refused {e : Element} (h : e.attemptsLeft = 0) :
    increment .loginAttempt e = .error .cryptoAuthLib := by
  unfold attemptsLeft at h
  unfold increment
  rw [if_pos]
  exact ⟨rfl, by omega⟩

/-- The element accepts as many attempts as the counter is below its limit. -/
theorem accepts_iff (n : Nat) (e : Element) : Accepts n e ↔ n ≤ e.attemptsLeft := by
  induction n generalizing e with
  | zero => exact ⟨fun _ => Nat.zero_le _, fun _ => trivial⟩
  | succ n ih =>
    unfold Accepts hmacStart
    rw [if_pos rfl]
    rcases Nat.eq_zero_or_pos e.attemptsLeft with hzero | hpos
    · rw [increment_refused hzero, hzero]
      constructor
      · rintro ⟨e', h, -⟩
        cases h
      · omega
    · rw [increment_ok hpos]
      have := ih (e.count .loginAttempt)
      rw [attemptsLeft_count] at this
      constructor
      · rintro ⟨e', h, hn⟩
        cases h
        have := this.mp hn
        omega
      · exact fun h => ⟨_, rfl, this.mpr (by omega)⟩

theorem within_iff (k : Nat) (e : Element) : Within k e ↔ e.attemptsLeft ≤ k :=
  ⟨fun h => h _ ((accepts_iff _ e).mpr (Nat.le_refl _)),
    fun h n hn => Nat.le_trans ((accepts_iff n e).mp hn) h⟩

end Element

/-! ## 2. Programs that open no attempt -/

/-- No attempt is opened. -/
def Lowers (m m' : Machine) : Prop := m'.element.attemptsLeft ≤ m.element.attemptsLeft

instance : Std.Refl Lowers := ⟨fun _ => Nat.le_refl _⟩

instance : IsTrans Machine Lowers := ⟨fun _ _ _ h h' => Nat.le_trans h' h⟩

theorem lowers_put (m : Machine) {slot : Slot} (h : slot ≠ .matchCount) (blk : Nat)
    (data : Bytes 32) : Lowers m { m with element := m.element.put slot blk data } := by
  show (m.element.put slot blk data).attemptsLeft ≤ m.element.attemptsLeft
  unfold Element.attemptsLeft
  rw [Element.limit_put _ h, Element.counters_put]

theorem lowers_count (m : Machine) (counter : Counter) :
    Lowers m { m with element := m.element.count counter } :=
  Element.attemptsLeft_count_le m.element counter

variable (b : Board)

/-! ## 3. The reset -/

section Reset

/-- The machine with a new match count. -/
def Machine.raised (m : Machine) : Machine :=
  let matchCount := newMatchCount (m.element.counters .loginAttempt)
  { m with element := m.element.put .matchCount 0 (leBytes [matchCount, matchCount]) }

/-- The first half of the reset is done, or nothing is. -/
theorem raiseMatchCount_spec (digest : Bytes 32) (m : Machine) :
    Spec (fun _ => True) (· = m) (raiseMatchCount b digest)
      (fun r m' => r.1 = m.element.counters .loginAttempt ∧ r.2 = newMatchCount r.1 ∧
        m' = m.raised) fun _ => (· = m) := by
  refine Spec.bind (getCounter_spec .loginAttempt m) fun n => Spec.assume fun hn => ?_
  refine Spec.bind (Q := fun _ m' => m' = m.raised)
    (Spec.bind (Q := fun _ m' => m' = m.raised) ?_ fun _ => Spec.pure fun _ => id)
    fun _ => Spec.pure fun _ hm => ⟨hn, rfl, hm⟩
  refine (encryptedWrite32_spec b .matchCount 0 .pinHash digest _ (· = m)).conseq (fun _ => id)
    ?_ fun _ _ => id
  rintro _ _ ⟨_, rfl, rfl⟩
  subst hn
  rw [chunk_block]
  rfl

theorem newMatchCount_lt (attemptCnt : Nat) : newMatchCount attemptCnt < 2 ^ 32 := by
  unfold newMatchCount dropLowBits
  omega

theorem newMatchCount_le (attemptCnt : Nat) :
    newMatchCount attemptCnt ≤ attemptCnt + maxLoginAttempts + 32 := by
  unfold newMatchCount dropLowBits
  omega

theorem limit_raised (m : Machine) :
    m.raised.element.limit = newMatchCount (m.element.counters .loginAttempt) := by
  unfold Element.limit Machine.raised
  rw [Element.slots_put_same, leValue_leBytes (newMatchCount_lt _)]
  unfold newMatchCount dropLowBits
  omega

theorem attemptsLeft_raised (m : Machine) :
    m.raised.element.attemptsLeft = newMatchCount (m.element.counters .loginAttempt)
      - m.element.counters .loginAttempt := by
  unfold Element.attemptsLeft
  rw [limit_raised]
  rfl

/-- The counter of the element ends here. -/
def counterMax : Nat := 2097151

/-- The arithmetic of `reset_login_counters`: nothing underflows. -/
theorem catchUpBy_newMatchCount {attemptCnt : Nat} (h : attemptCnt ≤ counterMax) :
    maxLoginAttempts ≤ newMatchCount attemptCnt ∧
      attemptCnt ≤ newMatchCount attemptCnt - maxLoginAttempts ∧
      catchUpBy (newMatchCount attemptCnt) attemptCnt
        = newMatchCount attemptCnt - maxLoginAttempts - attemptCnt ∧
      1 ≤ catchUpBy (newMatchCount attemptCnt) attemptCnt ∧
      catchUpBy (newMatchCount attemptCnt) attemptCnt ≤ 32 := by
  unfold counterMax at h
  unfold catchUpBy subU32 newMatchCount dropLowBits maxLoginAttempts
  omega

/-- After the catch-up no more than `MAX_LOGIN_ATTEMPTS` are left, also where the arithmetic
wraps around. -/
theorem caught_up_le (attemptCnt : Nat) :
    newMatchCount attemptCnt - attemptCnt - catchUpBy (newMatchCount attemptCnt) attemptCnt
      ≤ maxLoginAttempts := by
  unfold catchUpBy subU32 newMatchCount dropLowBits maxLoginAttempts
  omega

theorem addCounter_lowers (counter : Counter) (incr : Nat) :
    Moves Lowers (addCounter counter incr) :=
  addCounter_moves counter (fun m => lowers_count m counter) incr

theorem lastGood_lowers (digest data : Bytes 32) :
    Moves Lowers (encryptedWrite32 b .lastGood 0 .pinHash digest data) :=
  encryptedWrite32_moves b 0 .pinHash digest data fun m => lowers_put m nofun

theorem catchUp_lowers (digest : Bytes 32) (attemptCnt matchCount : Nat) :
    Moves Lowers (catchUp b digest attemptCnt matchCount) :=
  Moves.bind (addCounter_lowers _ _) fun _ => lastGood_lowers b digest _

/-- Increments that are not interrupted use attempts up. -/
theorem incrementTimes_left (incr result : Nat) {d : Device Machine Unit}
    (h : ∀ k < incr, d.fates k = .done) :
    (incrementTimes .loginAttempt incr result d).2.contents.element.attemptsLeft
      ≤ d.contents.element.attemptsLeft - incr := by
  induction incr generalizing result d with
  | zero => exact Nat.le_refl _
  | succ incr ih =>
    have hfirst : d.fates 0 = .done := h 0 (by omega)
    rcases Nat.eq_zero_or_pos d.contents.element.attemptsLeft with hzero | hpos
    · have hrun : command (Element.increment .loginAttempt) d = _ :=
        step_error hfirst (by rw [Element.increment_refused hzero]; rfl)
      rw [show incrementTimes .loginAttempt (incr + 1) result d = _ from Prog.bind_err _ hrun]
      show d.contents.element.attemptsLeft ≤ d.contents.element.attemptsLeft - (incr + 1)
      omega
    · have hrun : command (Element.increment .loginAttempt) d = _ :=
        step_ok hfirst (by rw [Element.increment_ok hpos]; rfl)
      rw [show incrementTimes .loginAttempt (incr + 1) result d = _ from Prog.bind_ok _ hrun]
      refine Nat.le_trans (ih _ fun k hk => h (k + 1) (by omega)) ?_
      show (d.contents.element.count .loginAttempt).attemptsLeft - incr ≤ _
      rw [Element.attemptsLeft_count]
      omega

/-- A reset that returns `Ok` has counted every increment. -/
theorem incrementTimes_spec (incr result limit counter : Nat) :
    Spec (fun _ => True)
      (fun m => m.element.limit = limit ∧ m.element.counters .loginAttempt = counter)
      (incrementTimes .loginAttempt incr result)
      (fun _ m => m.element.limit = limit ∧
        m.element.counters .loginAttempt = counter + incr) fun _ _ => True := by
  induction incr generalizing result counter with
  | zero => exact Spec.pure fun _ => id
  | succ incr ih =>
    refine Spec.bind (Q := fun _ m => m.element.limit = limit ∧
      m.element.counters .loginAttempt = counter + 1) ?_ fun result' => ?_
    · refine (command_spec fun m a e hm he => ?_).conseq (fun _ => id) (fun _ _ => id)
        fun _ _ _ => trivial
      unfold Element.increment at he
      split at he
      · cases he
      · cases he
        exact ⟨hm.1, (Element.counters_count_same _ _).trans (congrArg (· + 1) hm.2)⟩
    · exact (ih result' (counter + 1)).conseq (fun _ => id)
        (fun _ _ h => ⟨h.1, h.2.trans (by omega)⟩) fun _ _ => id

/-- The reset leaves at most 32 attempts too many, wherever it ends. -/
theorem resetLoginCounters_le (digest : Bytes 32) {k : Nat} (hk : maxLoginAttempts + 32 ≤ k)
    {d : Device Machine Unit} (hd : d.contents.element.attemptsLeft ≤ k) :
    (resetLoginCounters b digest d).2.contents.element.attemptsLeft ≤ k := by
  have hraise : Spec (fun _ => True) (· = d.contents) (raiseMatchCount b digest)
      (fun _ m => m.element.attemptsLeft ≤ k) fun _ m => m.element.attemptsLeft ≤ k := by
    refine (raiseMatchCount_spec b digest d.contents).conseq (fun _ => id) (fun r m hm => ?_)
      fun _ m hm => hm ▸ hd
    rw [hm.2.2, attemptsLeft_raised]
    have := newMatchCount_le (d.contents.element.counters .loginAttempt)
    omega
  refine bind_ends (I := fun m : Machine => m.element.attemptsLeft ≤ k)
    (Prog.Triple.snd hraise ⟨fun _ => trivial, rfl⟩).2 fun r d' _ hd' => ?_
  exact Nat.le_trans (catchUp_lowers b digest r.1 r.2 d') hd'

theorem catchUp_spec (digest : Bytes 32) (cnt limit : Nat) :
    Spec (fun _ => True)
      (fun m => m.element.limit = limit ∧ m.element.counters .loginAttempt = cnt)
      (catchUp b digest cnt limit)
      (fun _ m => m.element.limit = limit ∧
        m.element.counters .loginAttempt = cnt + catchUpBy limit cnt) fun _ _ => True := by
  let Caught : Machine → Prop := fun m => m.element.limit = limit ∧
    m.element.counters .loginAttempt = cnt + catchUpBy limit cnt
  refine Spec.bind (Q := fun _ => Caught)
    (Spec.bind (incrementTimes_spec _ 0 limit cnt) fun result => ?_) fun newAttemptCnt => ?_
  · refine Spec.bind (steady (gendigCounter_moves _ _) _) fun digest => ?_
    exact Spec.bind (steady (requireTempkey_moves digest) _) fun _ => Spec.pure fun _ => id
  · refine (encryptedWrite32_spec b .lastGood 0 .pinHash digest _ _).conseq (fun _ => id)
      (fun _ m' h => ?_) fun _ _ _ => trivial
    obtain ⟨m, hm, hput⟩ := h
    rw [hput]
    have hne : Slot.lastGood ≠ .matchCount := nofun
    exact ⟨(Element.limit_put m.element hne _ _).trans hm.1, hm.2⟩

/-- From a counter below its end, a reset that returns `Ok` leaves `MAX_LOGIN_ATTEMPTS`. -/
theorem resetLoginCounters_ok {digest : Bytes 32} {d d' : Device Machine Unit}
    (hcnt : d.contents.element.counters .loginAttempt ≤ counterMax)
    (hrun : resetLoginCounters b digest d = (.ok (), d')) :
    d'.contents.element.attemptsLeft = maxLoginAttempts := by
  obtain ⟨counts, d₁, hraise, hcatch⟩ := Prog.of_bind_ok hrun
  obtain ⟨hfst, hsnd, hm⟩ := (raiseMatchCount_spec b digest d.contents).of_ok
    (fun _ => trivial) rfl hraise
  obtain ⟨hmin, hle, hby, -⟩ := catchUpBy_newMatchCount hcnt
  rw [hsnd, hfst] at hcatch
  obtain ⟨hlimit, hcounter⟩ := (catchUp_spec b digest _ _).of_ok (fun _ => trivial)
    ⟨hm ▸ limit_raised d.contents, by rw [hm]; rfl⟩ hcatch
  unfold Element.attemptsLeft
  rw [hlimit, hcounter]
  omega

/-- What is reported is what is left. -/
theorem getLastSuccess_ok {d d' : Device Machine Unit} {last : LastSuccess}
    (hrun : getLastSuccess b d = (.ok last, d')) :
    last.attemptsLeft = d'.contents.element.attemptsLeft := by
  have hspec : Spec (fun _ => True) (fun _ => True) (getLastSuccess b)
      (fun last m => last.attemptsLeft = m.element.attemptsLeft) fun _ _ => True := by
    refine Spec.bind (steady (pairUnlock_moves b) _) fun _ => ?_
    refine Spec.bind (steady query_moves _) fun padded => ?_
    refine Spec.bind (steady (pairUnlock_moves b) _) fun _ => ?_
    refine Spec.bind (steady (gendigSlot_moves _ _) _) fun tempkey => ?_
    refine Spec.bind (steady (requireTempkey_moves _) _) fun _ => ?_
    refine Spec.bind (steady (readSlotAsCounterInsecure_moves b _) _) fun lastgood => ?_
    refine Spec.bind (Q := fun matchCount m => dropLowBits matchCount = m.element.limit)
      (Spec.bind (steady (pairUnlock_moves b) _) fun _ => ?_) fun matchCount => ?_
    · refine (query_spec fun m a _ ha => ?_).conseq (fun _ => id) (fun _ _ => id)
        fun _ _ _ => trivial
      cases ha
      rfl
    refine Spec.bind (Q := fun counter m => dropLowBits matchCount - counter
      = m.element.attemptsLeft) ?_ fun counter => Spec.pure fun _ => id
    refine (query_spec fun m a hm ha => ?_).conseq (fun _ => id) (fun _ _ => id)
      fun _ _ _ => trivial
    cases ha
    rw [hm]
    rfl
  exact hspec.of_ok (fun _ => trivial) trivial hrun

end Reset

/-! ## 4. Requests -/

section Lowers

theorem pinHashAttempt_lowers (pin : Bytes 32) (otpKey : Bytes 72) :
    Moves Lowers (pinHashAttempt b pin otpKey) :=
  pinHashAttempt_moves b pin otpKey fun m => lowers_count m .loginAttempt

variable {ε : Type}

theorem withSecuram_lowers (f : Securam → Securam) :
    Moves Lowers (withSecuram f : SecurityM ε Unit) :=
  withSecuram_moves fun _ => Nat.le_refl _

theorem setPinHash_lowers (hashes : Option (AuthPinHash × XorPinHash)) :
    Moves Lowers (setPinHash hashes : SecurityM ε Unit) :=
  setPinHash_moves fun _ => Nat.le_refl _

theorem clearSecuram_lowers : Moves Lowers clearSecuram :=
  Moves.step fun _ _ _ h => by cases h; exact Nat.le_refl _

theorem factoryReset_lowers : Moves Lowers (command (Element.increment .factoryReset)) :=
  command_moves fun m _ _ h => by cases h; exact lowers_count m .factoryReset

theorem entropySlot_ne :
    (if b.aesKeysInSlot12 then Slot.keycardAuthenticity else .aesEntropy) ≠ .matchCount := by
  split <;> nofun

theorem changeSeedAndOtpKey_lowers (seed : Seed) (xorHash : XorPinHash) (newOtpKey : Bytes 72) :
    Moves Lowers (changeSeedAndOtpKey b seed xorHash newOtpKey) :=
  Moves.bind (withSecuram_lowers _) fun _ =>
    changeSeed_moves b seed xorHash newOtpKey (fun m => lowers_put m nofun)
      fun m => lowers_put m nofun

theorem storePinHash_lowers (xorSeed : XorSeed) (pin : Bytes 32) (otpKey : Bytes 72) :
    Moves Lowers (storePinHash b xorSeed pin otpKey) :=
  Moves.bind (pinHashAttempt_lowers b pin otpKey) fun _ =>
    Moves.bind (encryptedWrite_moves b _ _ _ fun m => lowers_put m nofun) fun _ => Moves.pure

theorem setSeed_lowers (seed : Seed) (newOtpKey : Bytes 72) :
    Moves Lowers (setSeed b seed newOtpKey) :=
  Moves.bind getPinHash_moves fun _ =>
    Moves.bind (Moves.mapErr (changeSeedAndOtpKey_lowers b _ _ _)) fun _ => Moves.pure

end Lowers

/-! ## 5. Requests with a reset -/

section Requests

def catchingUp : String := "catching up"

/-- The reset up to where it begins to catch up. -/
def resetUntilCatchUp (digest : Bytes 32) : SecurityM Error Unit := do
  let _ ← raiseMatchCount b digest
  halt catchingUp

/-- The increments that a catch-up takes. -/
def Element.catchUpSteps (e : Element) : Nat :=
  catchUpBy (leValue (e.slots .matchCount 0)) (e.counters .loginAttempt)

theorem catchUpSteps_raised (m : Machine) :
    m.raised.element.catchUpSteps = catchUpBy (newMatchCount (m.element.counters .loginAttempt))
      (m.element.counters .loginAttempt) := by
  unfold Element.catchUpSteps Machine.raised
  rw [Element.slots_put_same, leValue_leBytes (newMatchCount_lt _)]
  rfl

/-- The next steps are a catch-up without interruption. -/
def CatchesUp (d : Device Machine Unit) : Prop :=
  ∀ k < d.contents.element.catchUpSteps, d.fates k = .done

/-- If the request gets to the catch-up of its reset, then none of the increments fails and
the power does not go before the last one. -/
def Event.Uninterrupted : Event → Machine → Prop
  | .request req fates, m => ∀ d,
    serve b (resetUntilCatchUp b) req ⟨m, fates⟩ = (.err (.halt catchingUp), d) → CatchesUp d
  | .reboot, _ => True

/-- No more than `k` attempts are left after a part of a request, if its reset comes to the
catch-up in `C` only. -/
def Safe (k : Nat) (C : Device Machine Unit → Prop) {ε α : Type}
    (x : (Bytes 32 → SecurityM Error Unit) → SecurityM ε α) : Prop :=
  ∀ d, d.contents.element.attemptsLeft ≤ k →
    (∀ d', x (resetUntilCatchUp b) d = (.err (.halt catchingUp), d') → C d') →
    (x (resetLoginCounters b) d).2.contents.element.attemptsLeft ≤ k

variable {b} {k : Nat} {C : Device Machine Unit → Prop} {ε ε' α β : Type}

theorem Safe.lowers {x : SecurityM ε α} (h : Moves Lowers x) : Safe b k C fun _ => x :=
  fun d hd _ => Nat.le_trans (h d) hd

theorem Safe.after {x : SecurityM ε α}
    {f : α → (Bytes 32 → SecurityM Error Unit) → SecurityM ε β} (hx : Moves Lowers x)
    (hf : ∀ a, Safe b k C (f a)) : Safe b k C fun reset => x >>= fun a => f a reset := by
  intro d hd hcatch
  refine bind_ends (I := fun m : Machine => m.element.attemptsLeft ≤ k)
    (Nat.le_trans (hx d) hd) fun a d' hrun hd' => hf a d' hd' fun d'' h => hcatch d'' ?_
  exact (Prog.bind_ok _ hrun).trans h

theorem Safe.before {x : (Bytes 32 → SecurityM Error Unit) → SecurityM ε α}
    {f : α → SecurityM ε β} (hx : Safe b k C x) (hf : ∀ a, Moves Lowers (f a)) :
    Safe b k C fun reset => x reset >>= f := by
  intro d hd hcatch
  refine bind_ends (I := fun m : Machine => m.element.attemptsLeft ≤ k)
    (hx d hd fun d' h => hcatch d' (Prog.bind_err _ h)) fun a d' _ hd' => ?_
  exact Nat.le_trans (hf a d') hd'

theorem Safe.mapErr_stop {g : Stop ε → Stop ε'} (hg : g (.halt catchingUp) = .halt catchingUp)
    {x : (Bytes 32 → SecurityM Error Unit) → SecurityM ε α} (hx : Safe b k C x) :
    Safe b k C fun reset => (Prog.mapErr g (x reset) : SecurityM ε' α) := by
  intro d hd hcatch
  have := hx d hd fun d' h => hcatch d' ((Prog.mapErr_err g h).trans (by rw [hg]))
  exact Prog.mapErr_snd g (x (resetLoginCounters b)) d ▸ this

theorem Safe.mapErr {g : ε → ε'} {x : (Bytes 32 → SecurityM Error Unit) → SecurityM ε α}
    (hx : Safe b k C x) : Safe b k C fun reset => (mapErr g (x reset) : SecurityM ε' α) :=
  hx.mapErr_stop rfl

theorem Safe.expect {message : String}
    {x : (Bytes 32 → SecurityM Error Unit) → SecurityM ε α} (hx : Safe b k C x) :
    Safe b k C fun reset => (expect message (x reset) : SecurityM ε' α) :=
  hx.mapErr_stop rfl

theorem Safe.attempt {x : (Bytes 32 → SecurityM Error Unit) → SecurityM ε α} (hx : Safe b k C x) :
    Safe b k C fun reset => (attempt (x reset) : SecurityM ε' (Except ε α)) := by
  intro d hd hcatch
  have := hx d hd fun d' h => hcatch d' (attempt_halt h)
  show ((Interruptible.attempt (x (resetLoginCounters b)) :
    SecurityM ε' (Except ε α)) d).2.contents.element.attemptsLeft ≤ k
  rw [attempt_snd]
  exact this

theorem Safe.onlyIf {c : Prop} [Decidable c]
    {x : (Bytes 32 → SecurityM Error Unit) → SecurityM ε Unit} (hx : Safe b k C x) :
    Safe b k C fun reset => Prog.onlyIf c (x reset) := by
  unfold Prog.onlyIf
  by_cases hc : c
  · simp only [if_pos hc]
    exact hx
  · simp only [if_neg hc]
    exact Safe.lowers Moves.pure

/-- A reset that is not interrupted while it catches up. -/
theorem safe_reset (digest : Bytes 32) :
    Safe b maxLoginAttempts CatchesUp fun reset => reset digest := by
  intro d hd hcatch
  have hraise := raiseMatchCount_spec b digest d.contents
  rcases hrun : raiseMatchCount b digest d with ⟨o, d₁⟩
  cases o with
  | ok counts =>
    obtain ⟨hfst, hsnd, hm⟩ := hraise.of_ok (fun _ => trivial) rfl hrun
    have hdone : CatchesUp d₁ := hcatch d₁ (Prog.bind_ok _ hrun)
    show (resetLoginCounters b digest d).2.contents.element.attemptsLeft ≤ maxLoginAttempts
    rw [show resetLoginCounters b digest d = _ from Prog.bind_ok _ hrun]
    refine bind_ends (I := fun m : Machine => m.element.attemptsLeft ≤ maxLoginAttempts)
      (bind_ends (I := fun m : Machine => m.element.attemptsLeft ≤ maxLoginAttempts) ?_
        fun result d₂ _ hd₂ => ?_) fun newAttemptCnt d₂ _ hd₂ => ?_
    · refine Nat.le_trans (incrementTimes_left _ _ fun k hk => hdone k ?_) ?_
      · rw [hm, catchUpSteps_raised, ← hfst, ← hsnd]
        exact hk
      · rw [hm, attemptsLeft_raised, hsnd, hfst]
        exact caught_up_le _
    · have hverify : Moves Lowers (gendigCounter .loginAttempt result >>= fun digest => do
          requireTempkey digest
          pure result) :=
        Moves.bind (gendigCounter_moves _ _) fun _ => Moves.bind (requireTempkey_moves _)
          fun _ => Moves.pure
      exact Nat.le_trans (hverify d₂) hd₂
    · exact Nat.le_trans (lastGood_lowers b digest _ d₂) hd₂
  | err stop =>
    show (resetLoginCounters b digest d).2.contents.element.attemptsLeft ≤ maxLoginAttempts
    rw [show resetLoginCounters b digest d = _ from Prog.bind_err _ hrun]
    have := hraise.of_stop (fun _ => trivial) rfl hrun
    rw [this]
    exact hd
  | panic p => exact p.elim

theorem safe_reset_anyhow (digest : Bytes 32) :
    Safe b (maxLoginAttempts + 32) (fun _ => True) fun reset => reset digest :=
  fun _ hd _ => resetLoginCounters_le b digest (Nat.le_refl _) hd

variable (hreset : ∀ digest, Safe b k C fun reset => reset digest)

include hreset

theorem safe_setPin (xorSeed : XorSeed) (pin : Bytes 32) (otpKey : Bytes 72) :
    Safe b k C fun reset => setPin b reset xorSeed pin otpKey :=
  Safe.after (storePinHash_lowers b xorSeed pin otpKey) fun _ => hreset _

theorem safe_changePin (newPin : Bytes 32) (xorSeed : XorSeed)
    (oldXorHash newXorHash : XorPinHash) (otpKey : Bytes 72) :
    Safe b k C fun reset => changePin b reset newPin xorSeed oldXorHash newXorHash otpKey :=
  Safe.after (storePinHash_lowers b xorSeed newPin otpKey) fun _ =>
    Safe.after (writeSlot_moves _ fun m => lowers_put m nofun) fun _ => hreset _

theorem safe_resetAuthData (options : LockoutOptions) (entropy : Bytes 72) :
    Safe b k C fun reset => resetAuthData b reset options entropy :=
  Safe.after (pairUnlock_moves b) fun _ =>
    Safe.after (writeSlot_moves _ fun m => lowers_put m nofun) fun _ =>
      Safe.after (Moves.onlyIf (encryptedWrite_moves b _ _ _ fun m => lowers_put m nofun)) fun _ =>
        Safe.after (encryptedWrite_moves b _ _ _ fun m => lowers_put m nofun) fun _ =>
          Safe.before (hreset _) fun _ => Moves.onlyIf <|
            encryptedWrite_moves b _ _ _ fun m => lowers_put m (entropySlot_ne b)

theorem safe_lockout (options : LockoutOptions) (entropy : Bytes 72) :
    Safe b k C fun reset => lockout b reset options entropy :=
  Safe.before (safe_resetAuthData hreset options entropy).mapErr fun _ =>
    Moves.bind (Moves.attempt clearSecuram_lowers) fun _ =>
      Moves.bind (Moves.mapErr factoryReset_lowers) fun _ => Moves.pure

theorem safe_storeSeedAndPin (seed : Seed) (pin : Bytes 32) (xorHash : XorPinHash)
    (newOtpKey : Bytes 72) :
    Safe b k C fun reset => storeSeedAndPin b reset seed pin xorHash newOtpKey :=
  Safe.after (changeSeedAndOtpKey_lowers b _ _ _) fun _ =>
    Safe.after (pinHashAttempt_lowers b _ _) fun _ =>
      Safe.before (safe_setPin hreset _ _ _) fun _ => Moves.pure

theorem safe_setSeedAndPin (seed : Seed) (rawPin : RawPin) (pinEntry : UInt8)
    (newOtpKey : Bytes 72) :
    Safe b k C fun reset => setSeedAndPin b reset seed rawPin pinEntry newOtpKey :=
  Safe.after (pinHashes_moves b rawPin) fun _ =>
    Safe.before (safe_storeSeedAndPin hreset _ _ _ _).mapErr fun _ =>
      Moves.bind (Moves.mapErr (setupAesKeys_moves b _ _ fun _ _ => Nat.le_refl _)) fun _ =>
        Moves.bind (setPinHash_lowers _) fun _ => withSecuram_lowers _

theorem safe_changePinRequest (rawPin : RawPin) (seed : Option Seed) (pinEntry : UInt8) :
    Safe b k C fun reset => changePinRequest b reset rawPin seed pinEntry :=
  Safe.after (preparePinChange_moves b rawPin seed (lowers_count · _)) fun _ =>
    Safe.before (safe_changePin hreset _ _ _ _ _).mapErr fun _ =>
      Moves.bind (setPinHash_lowers _) fun _ => withSecuram_lowers _

theorem safe_loginSucceeded (authHash : AuthPinHash) (xorHash : XorPinHash) :
    Safe b k C fun reset => loginSucceeded b reset authHash xorHash :=
  Safe.after (setPinHash_lowers _) fun _ =>
    Safe.after (Moves.mapErr (setupAesKeys_moves b _ _ fun _ _ => Nat.le_refl _)) fun _ =>
      Safe.before (Safe.attempt (hreset authHash)) fun _ => Moves.pure

theorem safe_lockedOut (message : String) (entropy : Bytes 72) :
    Safe b k C fun reset => (do
      expect message (lockout b reset .eraseSeedOnly entropy)
      reboot : SecurityM Denied Unit) :=
  Safe.before (safe_lockout hreset _ entropy).expect fun _ => Moves.halt

theorem safe_loginFailed (attemptsLeft : Nat) (entropy : Bytes 72) :
    Safe b k C fun reset => loginFailed b reset attemptsLeft entropy :=
  Safe.before (Safe.onlyIf (safe_lockedOut hreset _ entropy)) fun _ => Moves.throw

theorem safe_login (rawPin : RawPin) (entropy : Bytes 72) :
    Safe b k C fun reset => login b reset rawPin entropy := by
  refine Safe.after (checkLogin_moves b rawPin (lowers_count · _)) fun check => ?_
  rcases check with ⟨xorHash, authHash | attemptsLeft⟩
  · exact safe_loginSucceeded hreset authHash xorHash
  · exact safe_loginFailed hreset attemptsLeft entropy

theorem safe_serve (req : Request) : Safe b k C fun reset => serve b reset req := by
  cases req with
  | setSeedAndPin seed rawPin pinEntry newOtpKey => exact safe_setSeedAndPin hreset seed rawPin pinEntry newOtpKey
  | changePin rawPin seed pinEntry => exact safe_changePinRequest hreset rawPin seed pinEntry
  | login rawPin entropy => exact safe_login hreset rawPin entropy
  | logout => exact Safe.lowers (setPinHash_lowers none)
  | setSeed seed newOtpKey => exact Safe.lowers (setSeed_lowers b seed newOtpKey)
  | getSeed => exact Safe.lowers (Moves.bind (getSeedRequest_moves b) fun _ => Moves.pure)
  | getAttemptsRemaining => exact Safe.lowers (Moves.bind (getAttemptsRemaining_moves b) fun _ => Moves.pure)
  | lockout options thenReboot entropy =>
    exact Safe.before (safe_lockout hreset options entropy) fun _ => Moves.onlyIf Moves.halt
  | tamper entropy => exact safe_lockedOut hreset _ entropy

end Requests

/-! ## 6. Histories -/

theorem request_le {k : Nat} {C : Device Machine Unit → Prop}
    (hreset : ∀ digest, Safe b k C fun reset => reset digest) {req : Request}
    {fates : Nat → Fate Unit} {m : Machine} (hm : m.element.attemptsLeft ≤ k)
    (hC : ∀ d, serve b (resetUntilCatchUp b) req ⟨m, fates⟩ = (.err (.halt catchingUp), d) →
      C d) : (Event.run b (.request req fates) m).element.attemptsLeft ≤ k := by
  have := safe_serve hreset req ⟨m, fates⟩ hm hC
  unfold Event.run
  rw [Machine.settle_element]
  exact this

theorem uninterrupted_le (e : Event) (m : Machine) (he : e.Uninterrupted b m)
    (hm : m.element.attemptsLeft ≤ maxLoginAttempts) :
    (Event.run b e m).element.attemptsLeft ≤ maxLoginAttempts := by
  cases e with
  | request req fates => exact request_le b safe_reset hm he
  | reboot => exact hm

theorem anyhow_le (e : Event) (m : Machine)
    (hm : m.element.attemptsLeft ≤ maxLoginAttempts + 32) :
    (Event.run b e m).element.attemptsLeft ≤ maxLoginAttempts + 32 := by
  cases e with
  | request req fates => exact request_le b safe_reset_anyhow hm fun _ _ => trivial
  | reboot => exact hm

/-- **The budget of PIN attempts.** In a history where no catch-up is interrupted the element
accepts at most `MAX_LOGIN_ATTEMPTS` attempts, and in any history at most 32 more. A reset that
returns `Ok` leaves exactly `MAX_LOGIN_ATTEMPTS`; its subtraction does not underflow and it
takes 1 to 32 increments. What `get_last_success` reports is what the element accepts. -/
theorem pin_budget :
    (∀ m es m', m.element.Within maxLoginAttempts →
      Histories b (Event.Uninterrupted b) m es m' → m'.element.Within maxLoginAttempts) ∧
    (∀ m es m', m.element.Within (maxLoginAttempts + 32) →
      Histories b (fun _ _ => True) m es m' → m'.element.Within (maxLoginAttempts + 32)) ∧
    (∀ digest d d', d.contents.element.counters .loginAttempt ≤ counterMax →
      resetLoginCounters b digest d = (.ok (), d') →
        ∀ n, d'.contents.element.Accepts n ↔ n ≤ maxLoginAttempts) ∧
    (∀ attemptCnt ≤ counterMax,
      maxLoginAttempts ≤ newMatchCount attemptCnt ∧
        attemptCnt ≤ newMatchCount attemptCnt - maxLoginAttempts ∧
        1 ≤ catchUpBy (newMatchCount attemptCnt) attemptCnt ∧
        catchUpBy (newMatchCount attemptCnt) attemptCnt ≤ 32) ∧
    (∀ d d' last, getLastSuccess b d = (.ok last, d') →
      ∀ n, d'.contents.element.Accepts n ↔ n ≤ last.attemptsLeft) := by
  refine ⟨fun m es m' hm h => ?_, fun m es m' hm h => ?_, fun digest d d' hcnt hrun n => ?_,
    fun attemptCnt hcnt => ?_, fun d d' last hrun n => ?_⟩
  · rw [Element.within_iff] at hm ⊢
    exact h.keeps b (I := fun m => m.element.attemptsLeft ≤ maxLoginAttempts)
      (uninterrupted_le b) hm
  · rw [Element.within_iff] at hm ⊢
    exact h.keeps b (I := fun m => m.element.attemptsLeft ≤ maxLoginAttempts + 32)
      (fun e m _ => anyhow_le b e m) hm
  · rw [Element.accepts_iff, resetLoginCounters_ok b hcnt hrun]
  · obtain ⟨hmin, hle, -, hfirst, hlast⟩ := catchUpBy_newMatchCount hcnt
    exact ⟨hmin, hle, hfirst, hlast⟩
  · rw [Element.accepts_iff, getLastSuccess_ok b hrun]

def sampleBoard : Board where
  sha256 := fun bytes i => bytes.getD i 0
  hmac := fun _ msg => msg
  misread := fun _ data => data
  ioProtectionSecret := zeros 32
  aesKeysInSlot12 := false

/-- Ten attempts are left, and the disk keys are there. -/
def sampleMachine : Machine where
  element := {
    slots := fun slot _ => if slot = .matchCount then leBytes [32, 32] else zeros 32
    counters := fun counter => if counter = .loginAttempt then 22 else 0 }
  securam := ⟨true, zeros 72, 0, (fun _ => 1, fun _ => 1)⟩
  pinHash := none

def loginWith (fates : Nat → Fate Unit) : Event :=
  .request (.login [49, 50, 51, 52, 53, 54] (zeros 72)) fates

/-- A login that is not interrupted. -/
theorem pin_budget_one :
    (Event.run sampleBoard (loginWith fun _ => .done) sampleMachine).element.Within
      maxLoginAttempts := by
  refine (pin_budget sampleBoard).1 sampleMachine [loginWith fun _ => .done] _
    ((Element.within_iff _ _).mpr (by decide +kernel)) (.cons ?_ (.nil _))
  intro d hd
  obtain rfl : _ = d := congrArg Prod.snd hd
  show ∀ k < Element.catchUpSteps _, _ = Fate.done
  decide +kernel

/-- The power goes after the match count is written: 41 attempts are open. -/
theorem cut_catch_up_opens_attempts :
    sampleMachine.element.Within maxLoginAttempts ∧
      ∃ m', Histories sampleBoard (fun _ _ => True) sampleMachine
          [loginWith fun n => if n = 45 then .powerLoss else .done] m' ∧
        m'.element.Accepts 41 ∧ ¬ m'.element.Within maxLoginAttempts := by
  refine ⟨(Element.within_iff _ _).mpr (by decide +kernel), _, .cons trivial (.nil _), ?_, ?_⟩
  · rw [Element.accepts_iff]
    decide +kernel
  · rw [Element.within_iff]
    decide +kernel

end Security
