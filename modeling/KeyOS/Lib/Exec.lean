import Mathlib

/-!
# Programs that edit a state, fail and panic

A method with a mutable receiver edits its state in place, returns a value or an
error, or stops the machine. An error does not undo the edits made before it, so
the state is returned beside the outcome, not inside it.

`Triple` is partial correctness with three postconditions: one for values, one
for errors, one for panics. `Keeps` is the special case of an invariant.
-/

namespace Exec

theorem bind_eq_ok {ε α β : Type} {x : Except ε α} {f : α → Except ε β} {b : β} :
    x >>= f = .ok b ↔ ∃ a, x = .ok a ∧ f a = .ok b := by
  cases x with
  | error e => exact ⟨nofun, nofun⟩
  | ok a => exact ⟨fun h => ⟨a, rfl, h⟩, fun ⟨_, rfl, h⟩ => h⟩

theorem bind_eq_error {ε α β : Type} {x : Except ε α} {f : α → Except ε β} {e : ε} :
    x >>= f = .error e ↔ x = .error e ∨ ∃ a, x = .ok a ∧ f a = .error e := by
  cases x with
  | error e' =>
    refine ⟨fun h => .inl (by cases h; rfl), ?_⟩
    rintro (h | ⟨_, h, -⟩)
    · cases h
      rfl
    · cases h
  | ok a => exact ⟨fun h => .inr ⟨a, rfl, h⟩, fun h => h.elim nofun fun ⟨_, rfl, h⟩ => h⟩

/-- The results of a traversal that succeeds, one by one. -/
theorem mapM_eq_ok {ε α β : Type} {f : α → Except ε β} {l : List α} {bs : List β}
    (h : l.mapM f = .ok bs) :
    bs.length = l.length ∧ ∀ (i : Nat) (b : β), bs[i]? = some b → ∃ a, l[i]? = some a ∧ f a = .ok b := by
  induction l generalizing bs with
  | nil =>
    cases h
    exact ⟨rfl, fun i b hb => by cases hb⟩
  | cons a l ih =>
    rw [List.mapM_cons] at h
    obtain ⟨b, hb, h⟩ := bind_eq_ok.1 h
    obtain ⟨bs', hbs, h⟩ := bind_eq_ok.1 h
    cases h
    obtain ⟨hlen, hat⟩ := ih hbs
    refine ⟨by simp [hlen], fun i b' hb' => ?_⟩
    cases i with
    | zero =>
      cases hb'
      exact ⟨a, rfl, hb⟩
    | succ i => exact hat i b' hb'

theorem mapM_ok {ε α β : Type} {f : α → Except ε β} {g : α → β} {l : List α}
    (h : ∀ a ∈ l, f a = .ok (g a)) : l.mapM f = .ok (l.map g) := by
  induction l with
  | nil => rfl
  | cons a l ih =>
    rw [List.mapM_cons, h a List.mem_cons_self, ih fun b hb => h b (List.mem_cons_of_mem a hb)]
    rfl

theorem mapM_error {ε α β : Type} {f : α → Except ε β} {l : List α} {a : α} (ha : a ∈ l)
    (h : ∃ e, f a = .error e) : ∃ e, l.mapM f = .error e := by
  cases hl : l.mapM f with
  | error e => exact ⟨e, rfl⟩
  | ok bs =>
    obtain ⟨e, he⟩ := h
    obtain ⟨hlen, hat⟩ := mapM_eq_ok hl
    obtain ⟨i, hi, hia⟩ := List.getElem_of_mem ha
    obtain ⟨a', ha', hok⟩ := hat i bs[i] (List.getElem?_eq_getElem (hlen ▸ hi))
    rw [List.getElem?_eq_getElem hi, hia] at ha'
    rw [← Option.some.inj ha', he] at hok
    cases hok

theorem mapError_eq_ok {ε ε' α : Type} {x : Except ε α} {f : ε → ε'} {a : α} :
    x.mapError f = .ok a ↔ x = .ok a := by
  cases x with
  | error e => exact ⟨nofun, nofun⟩
  | ok a => exact ⟨fun h => by cases h; rfl, fun h => by cases h; rfl⟩

inductive Outcome (π ε α : Type) where
  | ok (a : α)
  | err (e : ε)
  | panic (p : π)
deriving DecidableEq, Repr

/-- A program over the state `σ`, with panics `π`, errors `ε` and values `α`. -/
def Prog (σ π ε α : Type) : Type := σ → Outcome π ε α × σ

namespace Prog

variable {σ τ π ε α β ι : Type}

/-! ## 1. Operations -/

def pure (a : α) : Prog σ π ε α := fun s => (.ok a, s)

def bind (x : Prog σ π ε α) (f : α → Prog σ π ε β) : Prog σ π ε β := fun s =>
  match x s with
  | (.ok a, s') => f a s'
  | (.err e, s') => (.err e, s')
  | (.panic p, s') => (.panic p, s')

instance : Monad (Prog σ π ε) where
  pure := Prog.pure
  bind := Prog.bind

def throw (e : ε) : Prog σ π ε α := fun s => (.err e, s)

def panic (p : π) : Prog σ π ε α := fun s => (.panic p, s)

def get : Prog σ π ε σ := fun s => (.ok s, s)

def gets (f : σ → α) : Prog σ π ε α := fun s => (.ok (f s), s)

def modify (f : σ → σ) : Prog σ π ε Unit := fun s => (.ok (), f s)

def ofExcept : Except ε α → Prog σ π ε α
  | .ok a => pure a
  | .error e => throw e

/-- `ok_or(e)?` -/
def okOr (e : ε) : Option α → Prog σ π ε α
  | some a => pure a
  | none => throw e

/-- `expect` and `unwrap` of an `Option`. -/
def expect (p : π) : Option α → Prog σ π ε α
  | some a => pure a
  | none => panic p

/-- `assert!` -/
def require (p : π) (c : Bool) : Prog σ π ε Unit :=
  if c then pure () else panic p

/-- An `if` without an `else`. -/
def onlyIf (c : Prop) [Decidable c] (x : Prog σ π ε Unit) : Prog σ π ε Unit :=
  if c then x else pure ()

/-- Run `x` and look at its result instead of propagating its error. -/
def attempt (x : Prog σ π ε α) : Prog σ π ε (Except ε α) := fun s =>
  match x s with
  | (.ok a, s') => (.ok (.ok a), s')
  | (.err e, s') => (.ok (.error e), s')
  | (.panic p, s') => (.panic p, s')

/-- What holds after `attempt`: one condition for values, one for errors. -/
def onResult (Q : α → σ → Prop) (E : ε → σ → Prop) : Except ε α → σ → Prop
  | .ok a => Q a
  | .error e => E e

/-- As `attempt`, where the errors that follow are of another type. -/
def result {ε' : Type} (x : Prog σ π ε α) : Prog σ π ε' (Except ε α) := fun s =>
  match x s with
  | (.ok a, s') => (.ok (.ok a), s')
  | (.err e, s') => (.ok (.error e), s')
  | (.panic p, s') => (.panic p, s')

/-- `x.ok();` -/
def ignore (x : Prog σ π ε α) : Prog σ π ε Unit := fun s =>
  match x s with
  | (.ok _, s') => (.ok (), s')
  | (.err _, s') => (.ok (), s')
  | (.panic p, s') => (.panic p, s')

/-- `x.map_err(f)` -/
def mapErr {ε' : Type} (f : ε → ε') (x : Prog σ π ε α) : Prog σ π ε' α := fun s =>
  match x s with
  | (.ok a, s') => (.ok a, s')
  | (.err e, s') => (.err (f e), s')
  | (.panic p, s') => (.panic p, s')

/-- `x.unwrap()`: an error of `x` becomes a panic. -/
def unwrap (p : π) (x : Prog σ π ε α) : Prog σ π ε α := fun s =>
  match x s with
  | (.ok a, s') => (.ok a, s')
  | (.err _, s') => (.panic p, s')
  | (.panic q, s') => (.panic q, s')

/-- Run `x` on the part of the state that `view` reads and `put` writes back. -/
def zoom (view : σ → τ) (put : τ → σ → σ) (x : Prog τ π ε α) : Prog σ π ε α := fun s =>
  match x (view s) with
  | (o, t) => (o, put t s)

/-- Run `x` on a local variable that starts as `t` and return its last value. -/
def onLocal (t : τ) (x : Prog τ π ε α) : Prog σ π ε τ := fun s =>
  match x t with
  | (.ok _, t') => (.ok t', s)
  | (.err e, _) => (.err e, s)
  | (.panic p, _) => (.panic p, s)

def forEach : List ι → (ι → Prog σ π ε Unit) → Prog σ π ε Unit
  | [], _ => pure ()
  | i :: is, f => bind (f i) fun _ => forEach is f

/-- `for k in first..first + left { if let Err(e) = body(k) { undo(k); return Err(e) } }` -/
def forOrUndo (body undo : Nat → Prog σ π ε Unit) : Nat → Nat → Prog σ π ε Unit
  | 0, _ => pure ()
  | left + 1, k => bind (attempt (body k)) fun result =>
    match result with
    | .ok () => forOrUndo body undo left (k + 1)
    | .error e => bind (undo k) fun _ => throw e

/-! ## 2. Running a program -/

section Run

variable {s s' : σ}

@[simp] theorem pure_run (a : α) (s : σ) :
    (Pure.pure a : Prog σ π ε α) s = (.ok a, s) := rfl

@[simp] theorem pure_run' (a : α) (s : σ) : (Prog.pure a : Prog σ π ε α) s = (.ok a, s) := rfl

theorem bind_run (x : Prog σ π ε α) (f : α → Prog σ π ε β) (s : σ) :
    (x >>= f) s = match x s with
      | (.ok a, s') => f a s'
      | (.err e, s') => (.err e, s')
      | (.panic p, s') => (.panic p, s') := rfl

theorem bind_ok {x : Prog σ π ε α} {a : α} (f : α → Prog σ π ε β) (h : x s = (.ok a, s')) :
    (x >>= f) s = f a s' := by
  simp only [bind_run, h]

theorem bind_err {x : Prog σ π ε α} {e : ε} (f : α → Prog σ π ε β) (h : x s = (.err e, s')) :
    (x >>= f) s = (.err e, s') := by
  simp only [bind_run, h]

theorem bind_panic {x : Prog σ π ε α} {p : π} (f : α → Prog σ π ε β)
    (h : x s = (.panic p, s')) : (x >>= f) s = (.panic p, s') := by
  simp only [bind_run, h]

theorem of_bind_ok {x : Prog σ π ε α} {f : α → Prog σ π ε β} {b : β}
    (h : (x >>= f) s = (.ok b, s')) : ∃ a t, x s = (.ok a, t) ∧ f a t = (.ok b, s') := by
  revert h
  rw [bind_run]
  rcases x s with ⟨o, t⟩
  cases o with
  | ok a => exact fun h => ⟨a, t, rfl, h⟩
  | err e => exact fun h => by cases h
  | panic p => exact fun h => by cases h

theorem of_mapErr_ok {ε' : Type} {x : Prog σ π ε α} {f : ε → ε'} {a : α}
    (h : mapErr f x s = (.ok a, s')) : x s = (.ok a, s') := by
  revert h
  unfold mapErr
  rcases x s with ⟨o, t⟩
  cases o with
  | ok b => exact fun h => by cases h; rfl
  | err e => exact fun h => by cases h
  | panic p => exact fun h => by cases h

theorem mapErr_err {ε' : Type} {x : Prog σ π ε α} {e : ε} (f : ε → ε')
    (h : x s = (.err e, s')) : mapErr f x s = (.err (f e), s') := by
  simp only [mapErr, h]

/-- Two programs that run alike are followed alike. -/
theorem bind_run_congr {x y : Prog σ π ε α} {t : σ} (f : α → Prog σ π ε β) (h : x s = y t) :
    (x >>= f) s = (y >>= f) t := by
  simp only [bind_run, h]

theorem mapErr_run_congr {ε' : Type} {x y : Prog σ π ε α} {t : σ} (f : ε → ε') (h : x s = y t) :
    mapErr f x s = mapErr f y t := by
  simp only [mapErr, h]

theorem mapErr_snd {ε' : Type} (f : ε → ε') (x : Prog σ π ε α) (s : σ) :
    (mapErr f x s).2 = (x s).2 := by
  unfold mapErr
  rcases x s with ⟨o, t⟩
  cases o <;> rfl

@[simp] theorem throw_run (e : ε) (s : σ) : (throw e : Prog σ π ε α) s = (.err e, s) := rfl

@[simp] theorem panic_run (p : π) (s : σ) : (panic p : Prog σ π ε α) s = (.panic p, s) := rfl

@[simp] theorem get_run (s : σ) : (get : Prog σ π ε σ) s = (.ok s, s) := rfl

@[simp] theorem gets_run (f : σ → α) (s : σ) : (gets f : Prog σ π ε α) s = (.ok (f s), s) := rfl

@[simp] theorem modify_run (f : σ → σ) (s : σ) :
    (modify f : Prog σ π ε Unit) s = (.ok (), f s) := rfl

@[simp] theorem ofExcept_ok_run (a : α) (s : σ) :
    (ofExcept (.ok a) : Prog σ π ε α) s = (.ok a, s) := rfl

@[simp] theorem ofExcept_error_run (e : ε) (s : σ) :
    (ofExcept (.error e) : Prog σ π ε α) s = (.err e, s) := rfl

theorem ofExcept_run {x : Except ε α} {a : α} (h : x = .ok a) (s : σ) :
    (ofExcept x : Prog σ π ε α) s = (.ok a, s) := by
  rw [h]
  rfl

theorem ofExcept_err_run {x : Except ε α} {e : ε} (h : x = .error e) (s : σ) :
    (ofExcept x : Prog σ π ε α) s = (.err e, s) := by
  rw [h]
  rfl

@[simp] theorem okOr_some_run (e : ε) (a : α) (s : σ) :
    (okOr e (some a) : Prog σ π ε α) s = (.ok a, s) := rfl

@[simp] theorem okOr_none_run (e : ε) (s : σ) :
    (okOr e none : Prog σ π ε α) s = (.err e, s) := rfl

@[simp] theorem expect_some_run (p : π) (a : α) (s : σ) :
    (expect p (some a) : Prog σ π ε α) s = (.ok a, s) := rfl

theorem require_run (p : π) {c : Bool} (h : c = true) (s : σ) :
    (require p c : Prog σ π ε Unit) s = (.ok (), s) := by
  rw [require, if_pos h]
  rfl

theorem onlyIf_true_run {c : Prop} [Decidable c] (h : c) (x : Prog σ π ε Unit) (s : σ) :
    onlyIf c x s = x s := by
  rw [onlyIf, if_pos h]

theorem onlyIf_false_run {c : Prop} [Decidable c] (h : ¬ c) (x : Prog σ π ε Unit) (s : σ) :
    onlyIf c x s = (.ok (), s) := by
  rw [onlyIf, if_neg h]
  rfl

end Run

/-! ## 3. Triples -/

/-- From a state in `P`, the program ends in `Q a` with a value `a`, in `E e` with
an error `e`, or panics at a place in `A`. -/
def Triple (P : σ → Prop) (x : Prog σ π ε α) (Q : α → σ → Prop) (E : ε → σ → Prop)
    (A : π → Prop) : Prop :=
  ∀ s, P s → match x s with
    | (.ok a, s') => Q a s'
    | (.err e, s') => E e s'
    | (.panic p, _) => A p

/-- `x` keeps the invariant `I`, whether it succeeds or fails. -/
abbrev Keeps (I : σ → Prop) (x : Prog σ π ε α) (A : π → Prop) : Prop :=
  Triple I x (fun _ => I) (fun _ => I) A

section Rules

variable {P S : σ → Prop} {Q Q' : α → σ → Prop} {R : β → σ → Prop} {E E' : ε → σ → Prop}
  {A A' : π → Prop} {I : σ → Prop}

theorem Triple.conseq {x : Prog σ π ε α} (h : Triple P x Q E A) (hP : ∀ s, S s → P s)
    (hQ : ∀ a s, Q a s → Q' a s) (hE : ∀ e s, E e s → E' e s) (hA : ∀ p, A p → A' p) :
    Triple S x Q' E' A' := by
  intro s hs
  have := h s (hP s hs)
  revert this
  rcases x s with ⟨o, s'⟩
  cases o with
  | ok a => exact hQ a s'
  | err e => exact hE e s'
  | panic p => exact hA p

theorem Triple.pre {x : Prog σ π ε α} (h : Triple P x Q E A) (hP : ∀ s, S s → P s) :
    Triple S x Q E A :=
  h.conseq hP (fun _ _ => id) (fun _ _ => id) fun _ => id

theorem Triple.post {x : Prog σ π ε α} (h : Triple P x Q E A) (hQ : ∀ a s, Q a s → Q' a s) :
    Triple P x Q' E A :=
  h.conseq (fun _ => id) hQ (fun _ _ => id) fun _ => id

theorem Triple.pure {a : α} (h : ∀ s, P s → Q a s) :
    Triple P (Pure.pure a : Prog σ π ε α) Q E A := h

theorem Triple.throw {e : ε} (h : ∀ s, P s → E e s) :
    Triple P (Prog.throw e : Prog σ π ε α) Q E A := h

theorem Triple.panic {p : π} (h : A p) : Triple P (Prog.panic p : Prog σ π ε α) Q E A :=
  fun _ _ => h

theorem Triple.bind {x : Prog σ π ε α} {f : α → Prog σ π ε β} (hx : Triple P x Q E A)
    (hf : ∀ a, Triple (Q a) (f a) R E A) : Triple P (x >>= f) R E A := by
  intro s hs
  have := hx s hs
  revert this
  rw [bind_run]
  rcases x s with ⟨o, s'⟩
  cases o with
  | ok a => exact hf a s'
  | err e => exact id
  | panic p => exact id

theorem Triple.get {Q : σ → σ → Prop} (h : ∀ s, P s → Q s s) :
    Triple P (Prog.get : Prog σ π ε σ) Q E A := h

/-- What holds of every state holds after every program. -/
theorem Triple.of_any {x : Prog σ π ε α} (h : ∀ e s, E e s) :
    Triple P x (fun _ _ => True) E fun _ => True := by
  intro s _
  rcases x s with ⟨o, s'⟩
  cases o with
  | ok a => trivial
  | err e => exact h e s'
  | panic p => trivial

/-- The rule of a program that reads its state first. -/
theorem Triple.get_bind {f : σ → Prog σ π ε α}
    (h : ∀ s, P s → Triple (· = s) (f s) Q E A) : Triple P (Prog.get >>= f) Q E A :=
  fun s hs => h s hs s rfl

theorem Triple.gets {f : σ → α} (h : ∀ s, P s → Q (f s) s) :
    Triple P (Prog.gets f : Prog σ π ε α) Q E A := h

theorem Triple.modify {Q : Unit → σ → Prop} {f : σ → σ} (h : ∀ s, P s → Q () (f s)) :
    Triple P (Prog.modify f : Prog σ π ε Unit) Q E A := h

theorem Triple.ofExcept {x : Except ε α} (hok : ∀ a, x = .ok a → ∀ s, P s → Q a s)
    (herr : ∀ e, x = .error e → ∀ s, P s → E e s) :
    Triple P (Prog.ofExcept x : Prog σ π ε α) Q E A := by
  cases x with
  | ok a => exact hok a rfl
  | error e => exact herr e rfl

theorem Triple.okOr {e : ε} {x : Option α} (hsome : ∀ a, x = some a → ∀ s, P s → Q a s)
    (hnone : x = none → ∀ s, P s → E e s) :
    Triple P (Prog.okOr e x : Prog σ π ε α) Q E A := by
  cases x with
  | some a => exact hsome a rfl
  | none => exact hnone rfl

theorem Triple.expect {p : π} {x : Option α} (hsome : ∀ a, x = some a → ∀ s, P s → Q a s)
    (hnone : x = none → A p) : Triple P (Prog.expect p x : Prog σ π ε α) Q E A := by
  cases x with
  | some a => exact hsome a rfl
  | none => exact fun _ _ => hnone rfl

theorem Triple.require {p : π} {c : Bool} {Q : Unit → σ → Prop}
    (ht : c = true → ∀ s, P s → Q () s) (hf : c = false → A p) :
    Triple P (Prog.require p c : Prog σ π ε Unit) Q E A := by
  cases c with
  | true => exact ht rfl
  | false => exact fun _ _ => hf rfl

theorem Triple.attempt {x : Prog σ π ε α} {Q' : Except ε α → σ → Prop} {E' : ε → σ → Prop}
    (h : Triple P x (fun a => Q' (.ok a)) (fun e => Q' (.error e)) A) :
    Triple P x.attempt Q' E' A := by
  intro s hs
  have := h s hs
  revert this
  unfold Prog.attempt
  rcases x s with ⟨o, s'⟩
  cases o <;> exact id

theorem Triple.result {ε' : Type} {x : Prog σ π ε α} {Q' : Except ε α → σ → Prop}
    {E' : ε' → σ → Prop} (h : Triple P x (fun a => Q' (.ok a)) (fun e => Q' (.error e)) A) :
    Triple P (x.result : Prog σ π ε' (Except ε α)) Q' E' A := by
  intro s hs
  have := h s hs
  revert this
  unfold Prog.result
  rcases x s with ⟨o, s'⟩
  cases o <;> exact id

theorem Triple.ignore {x : Prog σ π ε α} {Q' : Unit → σ → Prop} {E' : ε → σ → Prop}
    (h : Triple P x (fun _ => Q' ()) (fun _ => Q' ()) A) : Triple P x.ignore Q' E' A := by
  intro s hs
  have := h s hs
  revert this
  unfold Prog.ignore
  rcases x s with ⟨o, s'⟩
  cases o <;> exact id

theorem Triple.mapErr {ε' : Type} {f : ε → ε'} {x : Prog σ π ε α} {E' : ε' → σ → Prop}
    (h : Triple P x Q (fun e => E' (f e)) A) : Triple P (x.mapErr f) Q E' A := by
  intro s hs
  have := h s hs
  revert this
  unfold Prog.mapErr
  rcases x s with ⟨o, s'⟩
  cases o <;> exact id

theorem Triple.unwrap {p : π} {x : Prog σ π ε α} (h : Triple P x Q (fun _ _ => A p) A) :
    Triple P (x.unwrap p) Q E A := by
  intro s hs
  have := h s hs
  revert this
  unfold Prog.unwrap
  rcases x s with ⟨o, s'⟩
  cases o <;> exact id

/-- The rule of `zoom`: what `x` does on the part is what the whole sees. -/
theorem Triple.zoom {view : σ → τ} {put : τ → σ → σ} {x : Prog τ π ε α}
    (h : ∀ s, P s → match x (view s) with
      | (.ok a, t) => Q a (put t s)
      | (.err e, t) => E e (put t s)
      | (.panic p, _) => A p) : Triple P (Prog.zoom view put x) Q E A := by
  intro s hs
  have := h s hs
  revert this
  unfold Prog.zoom
  rcases x (view s) with ⟨o, t⟩
  cases o <;> exact id

/-- The loop rule: a body that keeps `I` for every element keeps it over the list. -/
theorem Triple.forEach {l : List ι} {f : ι → Prog σ π ε Unit}
    (h : ∀ i ∈ l, Triple I (f i) (fun _ => I) E A) :
    Triple I (Prog.forEach l f) (fun _ => I) E A := by
  induction l with
  | nil => exact fun _ => id
  | cons i l ih =>
    exact Triple.bind (h i List.mem_cons_self) fun _ =>
      ih fun j hj => h j (List.mem_cons_of_mem i hj)

/-- The loop rule with an invariant that names the elements still to do. -/
theorem Triple.forEach_rest {J : List ι → σ → Prop} {l : List ι} {f : ι → Prog σ π ε Unit}
    (h : ∀ i rest, Triple (J (i :: rest)) (f i) (fun _ => J rest) E A) :
    Triple (J l) (Prog.forEach l f) (fun _ => J []) E A := by
  induction l with
  | nil => exact fun _ => id
  | cons i l ih => exact Triple.bind (h i l) fun _ => ih

/-- The loop rule of `forOrUndo`: `J k` before round `k`, and `F k` when it has failed. -/
theorem Triple.forOrUndo {J F : Nat → σ → Prop} {G : ε → σ → Prop}
    {body undo : Nat → Prog σ π ε Unit} {n : Nat}
    (hbody : ∀ k < n, Triple (J k) (body k) (fun _ => J (k + 1)) (fun _ => F k) A)
    (hundo : ∀ k < n, ∀ e, Triple (F k) (undo k) (fun _ => G e) (fun _ => G e) A)
    (hthrow : ∀ e e' s, G e s → G e' s) (left k : Nat) (hk : k + left = n) :
    Triple (J k) (Prog.forOrUndo body undo left k) (fun _ => J n) G A := by
  induction left generalizing k with
  | zero =>
    obtain rfl : k = n := hk
    exact fun _ => id
  | succ left ih =>
    have hlt : k < n := by omega
    refine Triple.bind (Q := fun result s => match result with
      | .ok () => J (k + 1) s
      | .error _ => F k s) (Triple.attempt (hbody k hlt)) fun result => ?_
    cases result with
    | ok u => exact ih (k + 1) (by omega)
    | error e =>
      refine Triple.bind (Q := fun _ => G e) ?_ fun _ => Triple.throw fun _ => id
      exact (hundo k hlt e).conseq (fun _ => id) (fun _ _ => id) (fun e' s => hthrow e e' s)
        fun _ => id

theorem Triple.ite {c : Prop} [Decidable c] {x y : Prog σ π ε α}
    (hx : c → Triple P x Q E A) (hy : ¬ c → Triple P y Q E A) :
    Triple P (if c then x else y) Q E A := by
  split
  · next h => exact hx h
  · next h => exact hy h

theorem Triple.onlyIf {c : Prop} [Decidable c] {x : Prog σ π ε Unit} {Q : Unit → σ → Prop}
    (hx : c → Triple P x Q E A) (hno : ¬ c → ∀ s, P s → Q () s) :
    Triple P (Prog.onlyIf c x) Q E A :=
  Triple.ite hx fun h => Triple.pure (hno h)

/-- A run that ends with an error or with a value, and not in a panic. -/
theorem Triple.of_cases {x : Prog σ π ε α}
    (h : ∀ s, P s → (∃ e s', x s = (.err e, s') ∧ E e s') ∨ ∃ a s', x s = (.ok a, s') ∧ Q a s') :
    Triple P x Q E A := by
  intro s hs
  rcases h s hs with ⟨e, s', hx, hE⟩ | ⟨a, s', hx, hQ⟩
  · rw [hx]
    exact hE
  · rw [hx]
    exact hQ

/-- Two facts about one program; the panics are those of the first. -/
theorem Triple.and {P₂ : σ → Prop} {Q₂ : α → σ → Prop} {E₂ : ε → σ → Prop}
    {x : Prog σ π ε α} (h : Triple P x Q E A) (h₂ : Triple P₂ x Q₂ E₂ fun _ => True) :
    Triple (fun s => P s ∧ P₂ s) x (fun a s => Q a s ∧ Q₂ a s) (fun e s => E e s ∧ E₂ e s) A := by
  intro s hs
  have h₁ := h s hs.1
  have h₂ := h₂ s hs.2
  revert h₁ h₂
  rcases x s with ⟨o, s'⟩
  cases o with
  | ok a => exact And.intro
  | err e => exact And.intro
  | panic p => exact fun hp _ => hp

/-- A fact about the precondition that does not depend on the state. -/
theorem Triple.assume {c : Prop} {x : Prog σ π ε α} (h : c → Triple P x Q E A) :
    Triple (fun s => c ∧ P s) x Q E A :=
  fun s hs => h hs.1 s hs.2

/-- What a program ends in from one state is also where its run ends. -/
theorem Triple.observed {s : σ} {x : Prog σ π ε α} (h : Triple (· = s) x Q E A) :
    Triple (· = s) x (fun a s' => Q a s' ∧ x s = (.ok a, s')) E A := by
  rintro s' rfl
  have := h s' rfl
  revert this
  rcases x s' with ⟨o, t⟩
  cases o with
  | ok a => exact fun hQ => ⟨hQ, rfl⟩
  | err e => exact id
  | panic p => exact id

/-- A program that neither fails nor panics has a value. -/
theorem Triple.runs {x : Prog σ π ε α} (h : Triple P x Q (fun _ _ => False) fun _ => False)
    {s : σ} (hs : P s) : ∃ a s', x s = (.ok a, s') ∧ Q a s' := by
  have := h s hs
  revert this
  rcases x s with ⟨o, s'⟩
  cases o with
  | ok a => exact fun hQ => ⟨a, s', rfl, hQ⟩
  | err e => exact False.elim
  | panic p => exact False.elim

/-- A run that ends with a value meets the postcondition. -/
theorem Triple.of_run {x : Prog σ π ε α}
    (h : ∀ s, P s → ∃ a s', x s = (.ok a, s') ∧ Q a s') : Triple P x Q E A := by
  intro s hs
  obtain ⟨a, s', hx, hQ⟩ := h s hs
  rw [hx]
  exact hQ

/-- Where `x` succeeds, it leaves a state that satisfies `C`: the weakest liberal
precondition of `C`. -/
def Yields (x : Prog σ π ε α) (C : α → σ → Prop) (s : σ) : Prop :=
  ∀ a s', x s = (.ok a, s') → C a s'

theorem yields_bind {x : Prog σ π ε α} {f : α → Prog σ π ε β} {C : β → σ → Prop} {s : σ}
    (h : Yields (x >>= f) C s) : Yields x (fun a => Yields (f a) C) s := by
  intro a s' hx b s'' hf
  refine h b s'' ?_
  rw [bind_run, hx]
  exact hf

/-- What `x` yields may be assumed of the states that it leaves. -/
theorem Triple.yields {x : Prog σ π ε α} {C : α → σ → Prop} (h : Triple P x Q E A) :
    Triple (fun s => P s ∧ Yields x C s) x (fun a s => Q a s ∧ C a s) E A := by
  rintro s ⟨hP, hC⟩
  have hx := h s hP
  revert hx
  rcases heq : x s with ⟨o, s'⟩
  cases o with
  | ok a => exact fun hQ => ⟨hQ, hC a s' heq⟩
  | err e => exact id
  | panic p => exact id

end Rules

/-! ## 4. Runs -/

section Runs

/-- The state after `x`, unless `x` panics. An error keeps the edits made before it. -/
def after (x : Prog σ π ε α) (s : σ) : Except π σ :=
  match x s with
  | (.panic p, _) => .error p
  | (_, s') => .ok s'

/-- One program after the other. -/
def run (f : ι → Prog σ π ε α) : List ι → σ → Except π σ
  | [], s => .ok s
  | i :: is, s => after (f i) s >>= run f is

/-- `Steps f C s is s'`: the programs `is` take `s` to `s'`, none panics, and each `i`
starts in a state that satisfies `C i`. -/
inductive Steps (f : ι → Prog σ π ε α) (C : ι → σ → Prop) : σ → List ι → σ → Prop where
  | nil (s : σ) : Steps f C s [] s
  | cons {i : ι} {is : List ι} {s s' s'' : σ} (hC : C i s) (hi : after (f i) s = .ok s')
      (rest : Steps f C s' is s'') : Steps f C s (i :: is) s''

variable {I : σ → Prop} {f : ι → Prog σ π ε α} {C : ι → σ → Prop}

/-- Where nothing can panic, `I` holds of the state that is left. -/
theorem Triple.snd {x : Prog σ Empty ε α} {P I : σ → Prop} {A : Empty → Prop} {s : σ}
    (hx : Triple P x (fun _ => I) (fun _ => I) A) (hs : P s) : I (x s).2 := by
  have := hx s hs
  revert this
  rcases x s with ⟨o, t⟩
  cases o with
  | ok a => exact id
  | err e => exact id
  | panic p => exact p.elim

theorem after_keeps {x : Prog σ π ε α} {P : σ → Prop} {A : π → Prop} {s s' : σ}
    (hx : Triple P x (fun _ => I) (fun _ => I) A) (hs : P s) (h : after x s = .ok s') : I s' := by
  have := hx s hs
  revert this h
  unfold after
  rcases x s with ⟨o, t⟩
  cases o with
  | ok a => rintro h ht; cases h; exact ht
  | err e => rintro h ht; cases h; exact ht
  | panic p => rintro h; cases h

theorem run_cons_ok {i : ι} {s s' : σ} (is : List ι) (h : after (f i) s = .ok s') :
    run f (i :: is) s = run f is s' := by
  show after (f i) s >>= run f is = run f is s'
  rw [h]
  rfl

theorem run_append (is js : List ι) (s : σ) :
    run f (is ++ js) s = (run f is s) >>= run f js := by
  induction is generalizing s with
  | nil => rfl
  | cons i is ih =>
    show after (f i) s >>= run f (is ++ js) = (after (f i) s >>= run f is) >>= run f js
    cases after (f i) s with
    | error p => rfl
    | ok t => exact ih t

/-- The run rule: programs that keep `I` and never panic run to the end in `I`. -/
theorem run_keeps (is : List ι) (hf : ∀ i ∈ is, ∀ s, I s → ∃ s', after (f i) s = .ok s' ∧ I s')
    {s : σ} (hs : I s) : ∃ s', run f is s = .ok s' ∧ I s' := by
  induction is generalizing s with
  | nil => exact ⟨s, rfl, hs⟩
  | cons i is ih =>
    obtain ⟨t, ht, hI⟩ := hf i List.mem_cons_self s hs
    obtain ⟨s', hs', hI'⟩ := ih (fun j hj => hf j (List.mem_cons_of_mem i hj)) hI
    exact ⟨s', (run_cons_ok is ht).trans hs', hI'⟩

/-- The run rule for programs that keep `I` unless they panic. -/
theorem run_ok_keeps {A : π → Prop} {is : List ι} (hf : ∀ i ∈ is, Keeps I (f i) A) {s s' : σ}
    (h : run f is s = .ok s') (hs : I s) : I s' := by
  induction is generalizing s with
  | nil =>
    cases h
    exact hs
  | cons i is ih =>
    cases ht : after (f i) s with
    | error p =>
      rw [run, ht] at h
      cases h
    | ok t =>
      rw [run_cons_ok is ht] at h
      exact ih (fun j hj => hf j (List.mem_cons_of_mem i hj)) h
        (after_keeps (hf i List.mem_cons_self) hs ht)

/-- A program that keeps `I` and cannot panic has a state after it. -/
theorem Keeps.after {x : Prog σ π ε α} (hx : Keeps I x fun _ => False) {s : σ} (hs : I s) :
    ∃ s', Prog.after x s = .ok s' ∧ I s' := by
  have := hx s hs
  revert this
  unfold Prog.after
  rcases x s with ⟨o, t⟩
  cases o with
  | ok a => exact fun ht => ⟨t, rfl, ht⟩
  | err e => exact fun ht => ⟨t, rfl, ht⟩
  | panic p => exact False.elim

/-- The run rule for steps that keep `I` where their condition holds. -/
theorem Steps.keeps (hf : ∀ i s s', I s → C i s → after (f i) s = .ok s' → I s')
    {is : List ι} {s s' : σ} (h : Steps f C s is s') (hs : I s) : I s' := by
  induction h with
  | nil => exact hs
  | cons hC hi _ ih => exact ih (hf _ _ _ hs hC hi)

end Runs

end Prog

end Exec
