import KeyOS.Lib.Exec

/-!
# Programs that lose power

A program edits the contents of a device in steps. A step takes effect whole or not
at all. It can also fail, which leaves the contents as they were, and the power can go
before it, which ends the program there. The fates of the steps are fixed beforehand
in a stream, so a theorem about all streams is about every point of interruption.
-/

namespace Interrupt

open Exec

/-- What becomes of one step. -/
inductive Fate (φ : Type) where
  | done
  | fault (f : φ)
  | powerLoss
deriving DecidableEq

/-- Why a program stops before its end. -/
inductive Stop (ε : Type) where
  | powerLoss
  | halt (message : String)
  | error (e : ε)
deriving DecidableEq, Repr

def Stop.map {ε ε' : Type} (g : ε → ε') : Stop ε → Stop ε'
  | .powerLoss => .powerLoss
  | .halt message => .halt message
  | .error e => .error (g e)

structure Device (σ φ : Type) where
  contents : σ
  /-- The fates of the steps to come. -/
  fates : Nat → Fate φ

/-- A program on a device with contents `σ` and faults `φ`. -/
abbrev Interruptible (σ φ ε α : Type) := Prog (Device σ φ) Empty (Stop ε) α

variable {σ τ φ ε ε' α β : Type}

namespace Interruptible

/-! ## 1. Operations -/

/-- One step of the device. Its own errors leave the contents as they were too. -/
def step (fault : φ → ε) (f : σ → Except ε (α × σ)) : Interruptible σ φ ε α := fun d =>
  let fates := fun n => d.fates (n + 1)
  match d.fates 0 with
  | .powerLoss => (.err .powerLoss, ⟨d.contents, fates⟩)
  | .fault x => (.err (.error (fault x)), ⟨d.contents, fates⟩)
  | .done =>
    match f d.contents with
    | .ok (a, s) => (.ok a, ⟨s, fates⟩)
    | .error e => (.err (.error e), ⟨d.contents, fates⟩)

/-- A step that reads. -/
def probe (fault : φ → ε) (f : σ → Except ε α) : Interruptible σ φ ε α :=
  step fault fun s => (f s).map fun a => (a, s)

def throw (e : ε) : Interruptible σ φ ε α := Prog.throw (.error e)

/-- The program stops for a reason that its callers do not handle. -/
def halt (message : String) : Interruptible σ φ ε α := Prog.throw (.halt message)

/-- Look at the error of `x` instead of propagating it. -/
def attempt (x : Interruptible σ φ ε α) : Interruptible σ φ ε' (Except ε α) := fun d =>
  match x d with
  | (.ok a, d') => (.ok (.ok a), d')
  | (.err (.error e), d') => (.ok (.error e), d')
  | (.err .powerLoss, d') => (.err .powerLoss, d')
  | (.err (.halt message), d') => (.err (.halt message), d')

def mapErr (g : ε → ε') (x : Interruptible σ φ ε α) : Interruptible σ φ ε' α :=
  Prog.mapErr (Stop.map g) x

/-- An error of `x` becomes a stop that its callers do not handle. -/
def expect (message : String) (x : Interruptible σ φ ε α) : Interruptible σ φ ε' α :=
  Prog.mapErr (fun stop => match stop with
    | .powerLoss => .powerLoss
    | .halt m => .halt m
    | .error _ => .halt message) x

/-- Run `x` on the part of the contents that `view` reads and `put` writes back. -/
def within (view : σ → τ) (put : τ → σ → σ) (x : Interruptible τ φ ε α) :
    Interruptible σ φ ε α :=
  Prog.zoom (fun d => ⟨view d.contents, d.fates⟩)
    (fun t d => ⟨put t.contents d.contents, t.fates⟩) x

/-- Run `cleanup` when `x` returns, and ignore its error. -/
def ensuring (x : Interruptible σ φ ε α) (cleanup : Interruptible σ φ ε' Unit) :
    Interruptible σ φ ε α := fun d =>
  match x d with
  | (.ok a, d') => (do
      let _ : Except ε' Unit ← attempt cleanup
      pure a : Interruptible σ φ ε α) d'
  | (.err (.error e), d') => (do
      let _ : Except ε' Unit ← attempt cleanup
      throw e : Interruptible σ φ ε α) d'
  | (.err stop, d') => (.err stop, d')

/-- Run `cleanup` when `x` returns an error, and ignore its own. -/
def onError (x : Interruptible σ φ ε α) (cleanup : Interruptible σ φ ε' Unit) :
    Interruptible σ φ ε α := fun d =>
  match x d with
  | (.err (.error e), d') => (do
      let _ : Except ε' Unit ← attempt cleanup
      throw e : Interruptible σ φ ε α) d'
  | r => r

/-- What `x` leaves in the device that starts with the contents `s`, also when it is stopped. -/
def leaves (x : Interruptible σ φ ε α) (fates : Nat → Fate φ) (s : σ) : σ :=
  (x ⟨s, fates⟩).2.contents

theorem step_ok {fault : φ → ε} {f : σ → Except ε (α × σ)} {d : Device σ φ} {a : α} {s : σ}
    (h : d.fates 0 = .done) (hf : f d.contents = .ok (a, s)) :
    step fault f d = (.ok a, ⟨s, fun n => d.fates (n + 1)⟩) := by
  simp only [step, h, hf]

theorem step_error {fault : φ → ε} {f : σ → Except ε (α × σ)} {d : Device σ φ} {e : ε}
    (h : d.fates 0 = .done) (hf : f d.contents = .error e) :
    step fault f d = (.err (.error e), ⟨d.contents, fun n => d.fates (n + 1)⟩) := by
  simp only [step, h, hf]

theorem attempt_halt {x : Interruptible σ φ ε α} {message : String} {d d' : Device σ φ}
    (h : x d = (.err (.halt message), d')) :
    (attempt x : Interruptible σ φ ε' (Except ε α)) d = (.err (.halt message), d') := by
  simp only [attempt, h]

theorem attempt_snd (x : Interruptible σ φ ε α) (d : Device σ φ) :
    ((attempt x : Interruptible σ φ ε' (Except ε α)) d).2 = (x d).2 := by
  unfold attempt
  rcases x d with ⟨o, d'⟩
  cases o with
  | ok a => rfl
  | err stop => cases stop <;> rfl
  | panic p => exact p.elim

/-! ## 2. Rules -/

/-- The contents satisfy `P`, and every step to come has one of the fates `F`. -/
def On (F : Fate φ → Prop) (P : σ → Prop) : Device σ φ → Prop :=
  fun d => (∀ n, F (d.fates n)) ∧ P d.contents

/-- A stop that the fates `F` account for: the power went, or some step failed. -/
def Blamed (F : Fate φ → Prop) : Stop ε → Prop
  | .powerLoss => F .powerLoss
  | .halt _ => ∃ x, F (.fault x)
  | .error _ => ∃ x, F (.fault x)

variable {F : Fate φ → Prop} {P P' : σ → Prop} {Q Q' : α → σ → Prop} {E E' : Stop ε → σ → Prop}
  {A : Empty → Prop}

/-- `Spec F P x Q E`: from contents in `P`, with fates in `F`, the program `x` ends in `Q` with
a value or stops in `E`. -/
abbrev Spec (F : Fate φ → Prop) (P : σ → Prop) (x : Interruptible σ φ ε α) (Q : α → σ → Prop)
    (E : Stop ε → σ → Prop) : Prop :=
  Prog.Triple (On F P) x (fun a => On F (Q a)) (fun e => On F (E e)) fun _ => True

theorem Spec.conseq {x : Interruptible σ φ ε α} (h : Spec F P x Q E) (hP : ∀ s, P' s → P s)
    (hQ : ∀ a s, Q a s → Q' a s) (hE : ∀ e s, E e s → E' e s) : Spec F P' x Q' E' :=
  Prog.Triple.conseq h (fun _ hd => ⟨hd.1, hP _ hd.2⟩) (fun a _ hd => ⟨hd.1, hQ a _ hd.2⟩)
    (fun e _ hd => ⟨hd.1, hE e _ hd.2⟩) fun _ => id

theorem Spec.pre {x : Interruptible σ φ ε α} (h : Spec F P x Q E) (hP : ∀ s, P' s → P s) :
    Spec F P' x Q E :=
  h.conseq hP (fun _ _ => id) fun _ _ => id

theorem Spec.pure {a : α} (h : ∀ s, P s → Q a s) :
    Spec F P (Pure.pure a : Interruptible σ φ ε α) Q E :=
  Prog.Triple.pure fun _ hd => ⟨hd.1, h _ hd.2⟩

theorem Spec.bind {x : Interruptible σ φ ε α} {f : α → Interruptible σ φ ε β}
    {R : β → σ → Prop} (hx : Spec F P x Q E) (hf : ∀ a, Spec F (Q a) (f a) R E) :
    Spec F P (x >>= f) R E :=
  Prog.Triple.bind hx hf

theorem Spec.throw {e : ε} (h : ∀ s, P s → E (.error e) s) :
    Spec F P (throw e : Interruptible σ φ ε α) Q E :=
  Prog.Triple.throw fun _ hd => ⟨hd.1, h _ hd.2⟩

theorem Spec.halt {message : String} (h : ∀ s, P s → E (.halt message) s) :
    Spec F P (halt message : Interruptible σ φ ε α) Q E :=
  Prog.Triple.throw fun _ hd => ⟨hd.1, h _ hd.2⟩

/-- The rule of a step: it is done, it fails, or the power goes. -/
theorem Spec.step {fault : φ → ε} {f : σ → Except ε (α × σ)}
    (hok : ∀ s a s', P s → f s = .ok (a, s') → Q a s')
    (herr : ∀ s e, P s → f s = .error e → E (.error e) s)
    (hfault : ∀ s x, P s → F (.fault x) → E (.error (fault x)) s)
    (hpower : ∀ s, P s → F .powerLoss → E .powerLoss s) :
    Spec F P (step fault f) Q E := by
  rintro ⟨s, fates⟩ ⟨hF, hP⟩
  have hrest : ∀ n, F (fates (n + 1)) := fun n => hF (n + 1)
  have hfirst := hF 0
  unfold Interruptible.step
  dsimp only at hfirst hP ⊢
  cases h0 : fates 0 with
  | powerLoss => exact ⟨hrest, hpower s hP (h0 ▸ hfirst)⟩
  | fault x => exact ⟨hrest, hfault s x hP (h0 ▸ hfirst)⟩
  | done =>
    cases hf : f s with
    | ok r => exact ⟨hrest, hok s r.1 r.2 hP hf⟩
    | error e => exact ⟨hrest, herr s e hP hf⟩

theorem Spec.probe {fault : φ → ε} {f : σ → Except ε α}
    (hok : ∀ s a, P s → f s = .ok a → Q a s)
    (herr : ∀ s e, P s → f s = .error e → E (.error e) s)
    (hfault : ∀ s x, P s → F (.fault x) → E (.error (fault x)) s)
    (hpower : ∀ s, P s → F .powerLoss → E .powerLoss s) :
    Spec F P (probe fault f) Q E := by
  refine Spec.step (fun s a s' hP h => ?_) (fun s e hP h => ?_) hfault hpower
  · cases hf : f s with
    | ok b =>
      rw [hf] at h
      cases h
      exact hok s _ hP hf
    | error e =>
      rw [hf] at h
      cases h
  · cases hf : f s with
    | ok b =>
      rw [hf] at h
      cases h
    | error e' =>
      rw [hf] at h
      cases h
      exact herr s _ hP hf

theorem Spec.attempt {x : Interruptible σ φ ε α} {Q : Except ε α → σ → Prop}
    {E : Stop ε' → σ → Prop}
    (h : Spec F P x (fun a => Q (.ok a)) fun stop s => match stop with
      | .powerLoss => E .powerLoss s
      | .halt message => E (.halt message) s
      | .error e => Q (.error e) s) : Spec F P (attempt x) Q E := by
  intro d hd
  have := h d hd
  revert this
  unfold Interruptible.attempt
  rcases x d with ⟨o, d'⟩
  cases o with
  | ok a => exact id
  | err stop => cases stop <;> exact id
  | panic p => exact p.elim

/-- What is known of the result of a program whose error is looked at. -/
def Attempted (F : Fate φ → Prop) (Q : α → σ → Prop) (I : σ → Prop) : Except ε α → σ → Prop
  | .ok a => Q a
  | .error _ => fun s => (∃ x, F (.fault x)) ∧ I s

theorem Spec.attempt_blamed {x : Interruptible σ φ ε α} {I : σ → Prop}
    (h : Spec F P x Q fun e s => Blamed F e ∧ I s) :
    Spec F P (Interruptible.attempt x : Interruptible σ φ ε' (Except ε α)) (Attempted F Q I)
      fun e s => Blamed F e ∧ I s := by
  refine Spec.attempt (Q := Attempted F Q I) (h.conseq (fun _ => id) (fun _ _ => id) ?_)
  rintro (_ | message | e) s hs
  · exact hs
  · exact hs
  · exact hs

/-- The cleanup keeps what `x` has reached, whether it fails or not. -/
theorem Spec.ensuring {D : Device σ φ → Prop} {x : Interruptible σ φ ε α}
    {cleanup : Interruptible σ φ ε' Unit}
    (hx : Prog.Triple D x (fun a => On F (Q a)) (fun e => On F (E e)) fun _ => True) (hok : ∀ a, Spec F (Q a) cleanup (fun _ => Q a) fun stop s =>
      match stop with
      | .error _ => Q a s
      | .powerLoss => E .powerLoss s
      | .halt message => E (.halt message) s)
    (herr : ∀ e, Spec F (E (.error e)) cleanup (fun _ => E (.error e)) fun stop s =>
      match stop with
      | .error _ => E (.error e) s
      | .powerLoss => E .powerLoss s
      | .halt message => E (.halt message) s) :
    Prog.Triple D (ensuring x cleanup) (fun a => On F (Q a)) (fun e => On F (E e))
      fun _ => True := by
  intro d hd
  have hrun := hx d hd
  unfold Interruptible.ensuring
  revert hrun
  rcases x d with ⟨o, d'⟩
  cases o with
  | ok a =>
    intro hQ
    refine Spec.bind (Q := fun _ => Q a) (Spec.attempt ((hok a).conseq (fun _ => id)
      (fun _ _ => id) fun stop s hs => ?_)) (fun _ => Spec.pure fun _ => id) d' hQ
    cases stop <;> exact hs
  | err stop =>
    cases stop with
    | powerLoss => exact id
    | halt message => exact id
    | error e =>
      intro hE
      refine Spec.bind (Q := fun _ => E (.error e)) (Spec.attempt ((herr e).conseq (fun _ => id)
        (fun _ _ => id) fun stop s hs => ?_)) (fun _ => Spec.throw fun _ => id) d' hE
      cases stop <;> exact hs
  | panic p => exact p.elim

theorem Spec.mapErr {g : ε → ε'} {x : Interruptible σ φ ε α} {E : Stop ε' → σ → Prop}
    (h : Spec F P x Q fun stop => E (stop.map g)) : Spec F P (mapErr g x) Q E :=
  Prog.Triple.mapErr h

theorem Spec.ite {c : Prop} [Decidable c] {x y : Interruptible σ φ ε α}
    (hx : c → Spec F P x Q E) (hy : ¬ c → Spec F P y Q E) :
    Spec F P (if c then x else y) Q E :=
  Prog.Triple.ite hx hy

theorem Spec.onlyIf {c : Prop} [Decidable c] {x : Interruptible σ φ ε Unit}
    {Q : Unit → σ → Prop} (hx : c → Spec F P x Q E) (hno : ¬ c → ∀ s, P s → Q () s) :
    Spec F P (Prog.onlyIf c x) Q E :=
  Prog.Triple.onlyIf hx fun h _ hd => ⟨hd.1, hno h _ hd.2⟩

theorem Spec.skipped {c : Prop} [Decidable c] {x : Interruptible σ φ ε Unit} (hc : ¬ c) :
    Spec F P (Prog.onlyIf c x) (fun _ => P) E :=
  Spec.onlyIf (fun h => absurd h hc) fun _ _ => id

theorem Spec.taken {c : Prop} [Decidable c] {x : Interruptible σ φ ε Unit}
    {Q : Unit → σ → Prop} (hc : c) (hx : Spec F P x Q E) : Spec F P (Prog.onlyIf c x) Q E :=
  Spec.onlyIf (fun _ => hx) fun h => absurd hc h

/-- A fact about the precondition that does not depend on the contents. -/
theorem Spec.assume {c : Prop} {x : Interruptible σ φ ε α} (h : c → Spec F P x Q E) :
    Spec F (fun s => c ∧ P s) x Q E :=
  fun d hd => h hd.2.1 d ⟨hd.1, hd.2.2⟩

/-- The rule of `within`, where the rest of the contents satisfies `R` whatever the part is. -/
theorem Spec.within {view : σ → τ} {put : τ → σ → σ} {x : Interruptible τ φ ε α}
    {P' : τ → Prop} {Q' : α → τ → Prop} {E' : Stop ε → τ → Prop} {R : σ → Prop}
    (h : Spec F P' x Q' E') (hview : ∀ s, P s → P' (view s) ∧ R s)
    (hput : ∀ a s t, R s → Q' a t → Q a (put t s))
    (hstop : ∀ e s t, R s → E' e t → E e (put t s)) :
    Spec F P (within view put x) Q E := by
  refine Prog.Triple.zoom fun d hd => ?_
  obtain ⟨hP', hR⟩ := hview _ hd.2
  have := h ⟨view d.contents, d.fates⟩ ⟨hd.1, hP'⟩
  revert this
  rcases x ⟨view d.contents, d.fates⟩ with ⟨o, t⟩
  cases o with
  | ok a => exact fun ht => ⟨ht.1, hput a _ _ hR ht.2⟩
  | err e => exact fun ht => ⟨ht.1, hstop e _ _ hR ht.2⟩
  | panic p => exact p.elim

/-! ## 3. Runs -/

/-- Whatever becomes of `x`, what it leaves satisfies `I`. -/
theorem Spec.leaves {x : Interruptible σ φ ε α} {I : σ → Prop} {fates : Nat → Fate φ} {s : σ}
    (h : Spec (fun _ => True) P x (fun _ => I) fun _ => I) (hs : P s) :
    I (leaves x fates s) := by
  have := h ⟨s, fates⟩ ⟨fun _ => trivial, hs⟩
  revert this
  unfold Interruptible.leaves
  rcases x ⟨s, fates⟩ with ⟨o, d⟩
  cases o with
  | ok a => exact fun hd => hd.2
  | err e => exact fun hd => hd.2
  | panic p => exact p.elim

/-- A run of `x` that ends with a value meets the postcondition. -/
theorem Spec.of_ok {x : Interruptible σ φ ε α} {d d' : Device σ φ} {a : α}
    (h : Spec F P x Q E) (hF : ∀ n, F (d.fates n)) (hP : P d.contents)
    (hrun : x d = (.ok a, d')) : Q a d'.contents := by
  have := h d ⟨hF, hP⟩
  rw [hrun] at this
  exact this.2

/-- A run of `x` that stops meets the postcondition of stops. -/
theorem Spec.of_stop {x : Interruptible σ φ ε α} {d d' : Device σ φ} {e : Stop ε}
    (h : Spec F P x Q E) (hF : ∀ n, F (d.fates n)) (hP : P d.contents)
    (hrun : x d = (.err e, d')) : E e d'.contents := by
  have := h d ⟨hF, hP⟩
  rw [hrun] at this
  exact this.2

/-- A program that no allowed fate can stop ends with a value, and the next one can go on. -/
theorem Spec.ends_on {x : Interruptible σ φ ε α} {d : Device σ φ}
    (h : Spec F P x Q fun _ _ => False) (hF : ∀ n, F (d.fates n)) (hP : P d.contents) :
    ∃ a d', x d = (.ok a, d') ∧ On F (Q a) d' := by
  have := h d ⟨hF, hP⟩
  revert this
  rcases x d with ⟨o, d'⟩
  cases o with
  | ok a => exact fun hd => ⟨a, d', rfl, hd⟩
  | err e => exact fun hd => hd.2.elim
  | panic p => exact p.elim

theorem Spec.ends {x : Interruptible σ φ ε α} {d : Device σ φ}
    (h : Spec F P x Q fun _ _ => False) (hF : ∀ n, F (d.fates n)) (hP : P d.contents) :
    ∃ a d', x d = (.ok a, d') ∧ Q a d'.contents :=
  let ⟨a, d', hrun, hd⟩ := h.ends_on hF hP
  ⟨a, d', hrun, hd.2⟩

/-! ## 4. Relations that a program keeps to -/

section Moves

variable {R : σ → σ → Prop}

/-- Whatever becomes of `x`, it moves the contents along `R`. -/
def Moves (R : σ → σ → Prop) (x : Interruptible σ φ ε α) : Prop :=
  ∀ d, R d.contents (x d).2.contents

theorem Moves.mono {R' : σ → σ → Prop} {x : Interruptible σ φ ε α} (h : Moves R x)
    (hR : ∀ s s', R s s' → R' s s') : Moves R' x :=
  fun d => hR _ _ (h d)

theorem Moves.pure [Std.Refl R] {a : α} : Moves R (Pure.pure a : Interruptible σ φ ε α) :=
  fun d => Std.Refl.refl d.contents

theorem Moves.throw [Std.Refl R] {e : ε} : Moves R (throw e : Interruptible σ φ ε α) :=
  fun d => Std.Refl.refl d.contents

theorem Moves.halt [Std.Refl R] {message : String} :
    Moves R (halt message : Interruptible σ φ ε α) :=
  fun d => Std.Refl.refl d.contents

theorem Moves.gets [Std.Refl R] {f : Device σ φ → α} :
    Moves R (Prog.gets f : Interruptible σ φ ε α) :=
  fun d => Std.Refl.refl d.contents

theorem Moves.bind [IsTrans σ R] {x : Interruptible σ φ ε α} {f : α → Interruptible σ φ ε β}
    (hx : Moves R x) (hf : ∀ a, Moves R (f a)) : Moves R (x >>= f) := by
  intro d
  have hd := hx d
  revert hd
  rw [Prog.bind_run]
  rcases x d with ⟨o, d'⟩
  cases o with
  | ok a => exact fun hd => IsTrans.trans _ _ _ hd (hf a d')
  | err e => exact id
  | panic p => exact p.elim

theorem Moves.step [Std.Refl R] {fault : φ → ε} {f : σ → Except ε (α × σ)}
    (h : ∀ s a s', f s = .ok (a, s') → R s s') : Moves R (step fault f) := by
  rintro ⟨s, fates⟩
  unfold Interruptible.step
  dsimp only
  cases fates 0 with
  | powerLoss => exact Std.Refl.refl s
  | fault x => exact Std.Refl.refl s
  | done =>
    cases hf : f s with
    | ok r => exact h s r.1 r.2 hf
    | error e => exact Std.Refl.refl s

theorem Moves.probe [Std.Refl R] {fault : φ → ε} {f : σ → Except ε α} :
    Moves R (probe fault f) := by
  refine Moves.step fun s a _ h => ?_
  cases hf : f s with
  | ok b =>
    rw [hf] at h
    cases h
    exact Std.Refl.refl s
  | error e =>
    rw [hf] at h
    cases h

theorem Moves.attempt {x : Interruptible σ φ ε α} (h : Moves R x) :
    Moves R (attempt x : Interruptible σ φ ε' (Except ε α)) := by
  intro d
  rw [attempt_snd]
  exact h d

theorem Moves.mapErr_stop {g : Stop ε → Stop ε'} {x : Interruptible σ φ ε α} (h : Moves R x) :
    Moves R (Prog.mapErr g x : Interruptible σ φ ε' α) := by
  intro d
  rw [Prog.mapErr_snd]
  exact h d

theorem Moves.mapErr {g : ε → ε'} {x : Interruptible σ φ ε α} (h : Moves R x) :
    Moves R (mapErr g x) :=
  h.mapErr_stop

theorem Moves.expect {message : String} {x : Interruptible σ φ ε α} (h : Moves R x) :
    Moves R (expect message x : Interruptible σ φ ε' α) :=
  h.mapErr_stop

theorem Moves.onlyIf [Std.Refl R] {c : Prop} [Decidable c] {x : Interruptible σ φ ε Unit}
    (h : Moves R x) : Moves R (Prog.onlyIf c x) := by
  unfold Prog.onlyIf
  split
  · exact h
  · exact Moves.pure

theorem Moves.forEach {ι : Type} [Std.Refl R] [IsTrans σ R] {l : List ι}
    {f : ι → Interruptible σ φ ε Unit} (h : ∀ i, Moves R (f i)) :
    Moves R (Prog.forEach l f) := by
  induction l with
  | nil => exact Moves.pure
  | cons i l ih => exact (h i).bind fun _ => ih

theorem Spec.anyhow {x : Interruptible σ φ ε α} {P : σ → Prop} :
    Spec (fun _ => True) P x (fun _ _ => True) fun _ _ => True := by
  intro d _
  rcases x d with ⟨o, d'⟩
  cases o with
  | ok a => exact ⟨fun _ => trivial, trivial⟩
  | err e => exact ⟨fun _ => trivial, trivial⟩
  | panic p => exact p.elim

/-- A relation that keeps `P` gives an invariant. -/
theorem Moves.spec {x : Interruptible σ φ ε α} {P : σ → Prop} (h : Moves R x)
    (hP : ∀ s s', R s s' → P s → P s') :
    Spec (fun _ => True) P x (fun _ => P) fun _ => P := by
  intro d hd
  have := hP _ _ (h d) hd.2
  revert this
  rcases x d with ⟨o, d'⟩
  cases o with
  | ok a => exact fun h => ⟨fun _ => trivial, h⟩
  | err e => exact fun h => ⟨fun _ => trivial, h⟩
  | panic p => exact p.elim

/-- A specification and a relation that keeps `I`. -/
theorem Moves.with_spec {x : Interruptible σ φ ε α} {F : Fate φ → Prop} {P I : σ → Prop}
    {Q : α → σ → Prop} {E : Stop ε → σ → Prop} (h : Moves R x)
    (hI : ∀ s s', R s s' → P s → I s') (hx : Spec F P x Q E) :
    Spec F P x (fun a s => Q a s ∧ I s) fun e s => E e s ∧ I s := by
  intro d hd
  have hkept := hI _ _ (h d) hd.2
  have hrun := hx d hd
  revert hkept hrun
  rcases x d with ⟨o, d'⟩
  cases o with
  | ok a => exact fun hkept hrun => ⟨hrun.1, hrun.2, hkept⟩
  | err e => exact fun hkept hrun => ⟨hrun.1, hrun.2, hkept⟩
  | panic p => exact p.elim

/-- What holds where `x` ends, and is kept by what follows, holds where both end. -/
theorem bind_ends {x : Interruptible σ φ ε α} {f : α → Interruptible σ φ ε β} {I : σ → Prop}
    {d : Device σ φ} (hx : I (x d).2.contents)
    (hf : ∀ a d', x d = (.ok a, d') → I d'.contents → I (f a d').2.contents) :
    I ((x >>= f) d).2.contents := by
  revert hx hf
  rw [Prog.bind_run]
  rcases x d with ⟨o, d'⟩
  cases o with
  | ok a => exact fun hx hf => hf a d' rfl hx
  | err e => exact fun hx _ => hx
  | panic p => exact p.elim

end Moves

end Interruptible

end Interrupt
