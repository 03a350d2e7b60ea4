import KeyOS.Fido.Server

/-!
# Signing keys stay aligned with what is registered

For every index the signing keys in memory are those derived for the registered keys, in order,
and the cached next key is the one derived for the next index. A request keeps this whether it
succeeds or fails, and a panic leaves a file that a restart can be aligned with again.
-/

namespace Fido

open Exec Prog FidoServer

variable {K F : Type} {P : Platform K F} {env : Env}

/-! ## 1. Alignment -/

/-- The signing key that belongs to a pair of indices. -/
def derived (P : Platform K F) (i j : Nat) : Option K :=
  P.fromSlice (P.hmac256 (derivationPath i j))

/-- The signing keys of the security key `i`, which has `n` registered keys. -/
structure KeyAligned (P : Platform K F) (i n : Nat) (key : FidoKey K) : Prop where
  length : key.signingKeys.length = n
  keys : ∀ j k, key.signingKeys[j]? = some k → derived P i j = some k
  next : ∀ k pub, key.next = some (k, pub) → derived P i n = some k ∧ pub = P.publicKey k

/-- How many keys are registered with the security key `i`; none when it does not exist yet. -/
def registeredCount (state : FidoKeysState) (i : Nat) : Nat :=
  (state[i]?.map fun key => key.registeredKeys.length).getD 0

structure Fits (state : FidoKeysState) : Prop where
  keys : state.length ≤ maxLen
  registered : ∀ key ∈ state, key.registeredKeys.length ≤ maxLen

/-- After a failed creation there can be more signing keys than security keys. -/
structure Aligned (P : Platform K F) (s : FidoServer K F) : Prop where
  fits : Fits s.state
  covered : s.state.length ≤ s.fidoKeys.length
  keys : ∀ i key, s.fidoKeys[i]? = some key → KeyAligned P i (registeredCount s.state i) key

/-- The server holds this state, is aligned with it and has room for `n` security keys. -/
structure Holds (P : Platform K F) (state : FidoKeysState) (n : Nat) (s : FidoServer K F) :
    Prop where
  state : s.state = state
  room : n ≤ s.fidoKeys.length
  aligned : Aligned P s

theorem registeredCount_of_some {state : FidoKeysState} {i : Nat} {key : SecurityKey}
    (h : state[i]? = some key) : registeredCount state i = key.registeredKeys.length := by
  rw [registeredCount, h]
  rfl

theorem signingKey_ok {i j : Nat} {k : K} (h : signingKey P env i j = .ok k) :
    derived P i j = some k := by
  unfold signingKey at h
  unfold derived
  dsimp only at h
  split at h
  · split at h
    · next key hkey =>
      cases h
      exact hkey
    · cases h
  · cases h

/-- Another key for one index. -/
theorem Aligned.setFidoKey {s : FidoServer K F} (h : Aligned P s) {i : Nat} {key : FidoKey K}
    (hkey : KeyAligned P i (registeredCount s.state i) key) :
    Aligned P { s with fidoKeys := s.fidoKeys.set i key } := by
  refine ⟨h.fits, by simpa using h.covered, fun i' key' hkey' => ?_⟩
  dsimp only at hkey'
  rw [List.getElem?_set] at hkey'
  split at hkey'
  · next heq =>
    subst heq
    split at hkey'
    · cases hkey'
      exact hkey
    · cases hkey'
  · exact h.keys i' key' hkey'

/-! ## 2. The next key -/

section Next

variable {state : FidoKeysState} {i n : Nat} {A : FidoKeysState → Prop}

/-- The cached next key of the security key `i`. -/
def NextIs (i : Nat) (k : K) (pub : Bytes) (s : FidoServer K F) : Prop :=
  ∃ key, s.fidoKeys[i]? = some key ∧ key.next = some (k, pub)

theorem fidoKey_spec :
    Triple (Holds P state n) (fidoKey i : Handler K F FidoError (FidoKey K))
      (fun key s => Holds P state n s ∧ s.fidoKeys[i]? = some key) (fun _ => Holds P state n) A :=
  Triple.get_bind fun _ hs => Triple.okOr
    (fun _ hkey _ heq => heq ▸ ⟨hs, hkey⟩) fun _ _ heq => heq ▸ hs

theorem computeNextSigningKeyIfNeeded_spec :
    Triple (Holds P state n) (computeNextSigningKeyIfNeeded P env i)
      (fun _ s => Holds P state n s ∧ ∃ k pub, NextIs i k pub s) (fun _ => Holds P state n) A := by
  refine Triple.bind fidoKey_spec fun key => ?_
  cases hnext : key.next with
  | some next => exact Triple.pure fun s hs => ⟨hs.1, next.1, next.2, key, hs.2, hnext⟩
  | none =>
    dsimp only
    refine Triple.bind (Q := fun k s => (Holds P state n s ∧ s.fidoKeys[i]? = some key) ∧
        derived P i key.signingKeys.length = some k)
      (Triple.ofExcept (fun k hk s hs => ⟨hs, signingKey_ok hk⟩) fun _ _ s hs => hs.1) fun k => ?_
    refine Triple.modify fun s ⟨⟨hs, hkey⟩, hk⟩ => ?_
    have hold := hs.aligned.keys i key hkey
    refine ⟨⟨hs.state, by simpa using hs.room,
      hs.aligned.setFidoKey ⟨hold.length, hold.keys, ?_⟩⟩, k, P.publicKey k,
      { key with next := some (k, P.publicKey k) }, ?_, rfl⟩
    · rintro k' pub ⟨⟩
      rw [hold.length] at hk
      exact ⟨hk, rfl⟩
    · have hlt := (List.getElem?_eq_some_iff.1 hkey).1
      simp [hlt]

theorem computeNextSigningKeys_spec :
    Triple (Holds P state n) (computeNextSigningKeys P env) (fun _ => Holds P state n)
      (fun _ => Holds P state n) A := by
  refine Triple.get_bind fun s hs => Triple.pre ?_ fun s' heq => heq ▸ hs
  exact Triple.forEach fun i _ => computeNextSigningKeyIfNeeded_spec.post fun _ _ h => h.1

theorem refreshAndNotify_spec {ε : Type} {E : ε → FidoServer K F → Prop} :
    Triple (Holds P state n) (refreshAndNotify P env) (fun _ => Holds P state n) E A :=
  Triple.bind (Q := fun _ => Holds P state n) (Triple.result computeNextSigningKeys_spec)
    fun _ => Triple.pure fun _ => id

theorem peekNextRegistrationPublicKey_spec :
    Triple (Holds P state n) (peekNextRegistrationPublicKey P env i)
      (fun pub s => Holds P state n s ∧ ∃ k, NextIs i k pub s) (fun _ => Holds P state n) A := by
  refine Triple.bind (computeNextSigningKeyIfNeeded_spec.post fun _ _ h => h.1) fun _ => ?_
  refine Triple.bind fidoKey_spec fun key => ?_
  refine Triple.bind (Q := fun next s => Holds P state n s ∧ NextIs i next.1 next.2 s)
    (Triple.okOr (fun next hnext s hs => ⟨hs.1, key, hs.2, hnext⟩) fun _ s hs => hs.1) fun next => ?_
  exact Triple.pure fun s hs => ⟨hs.1, next.1, hs.2⟩

end Next

/-! ## 3. Edits under a guard -/

section Guard

variable {α : Type} {state : FidoKeysState} {A : FidoKeysState → Prop}
  {Pre : FidoServer K F → Prop} {fails : Prop} {Q : α → FidoKeysState → Prop}
  {edit : FidoKeysState → Handler K F FidoError (α × FidoKeysState)}

/-- An edit that only looks at the server ends in an edited state, in an error, which it can only
if `fails`, or in a panic with what the file held before. -/
def Edits (edit : FidoKeysState → Handler K F FidoError (α × FidoKeysState))
    (state : FidoKeysState) (Q : α → FidoKeysState → Prop) (fails : Prop) : Prop :=
  ∀ s, s.state = state → (∃ a state', edit state s = (.ok (a, state'), s) ∧ Q a state') ∨
    (fails ∧ ∃ e, edit state s = (.err e, s)) ∨ edit state s = (.panic state, s)

/-- The rule of `guard`: the server has the edited state or the old one, and so has the file. -/
theorem guard_spec (hstate : ∀ s, Pre s → s.state = state) (hedit : Edits edit state Q fails)
    (hold : A state) (hnew : ∀ a state', Q a state' → A state') :
    Triple Pre (FidoServer.guard env edit)
      (fun a s => ∃ s₀ state', Pre s₀ ∧ Q a state' ∧ s = { s₀ with state := state' })
      (fun _ s => fails ∧ Pre s) A := by
  intro s hs
  have heq := hstate s hs
  unfold FidoServer.guard
  rw [bind_ok _ (get_run s), heq]
  rcases hedit s heq with ⟨a, state', hrun, hQ⟩ | ⟨hfails, e, hrun⟩ | hrun
  · have hattempt : Prog.attempt (edit state) s = (.ok (.ok (a, state')), s) := by
      rw [Prog.attempt, hrun]
    rw [bind_ok _ hattempt]
    cases env.save with
    | saved => exact ⟨s, state', hs, hQ, rfl⟩
    | lost => exact hold
    | replaced => exact hnew a state' hQ
  · have hattempt : Prog.attempt (edit state) s = (.ok (.error e), s) := by
      rw [Prog.attempt, hrun]
    rw [bind_ok _ hattempt]
    cases env.save with
    | saved =>
      have hsame : ({ s with state := state } : FidoServer K F) = s := by rw [← heq]
      exact ⟨hfails, hsame.symm ▸ hs⟩
    | lost => exact hold
    | replaced => exact hold
  · have hattempt : Prog.attempt (edit state) s = (.panic state, s) := by
      rw [Prog.attempt, hrun]
    rw [bind_panic _ hattempt]
    exact hold

end Guard

end Fido
