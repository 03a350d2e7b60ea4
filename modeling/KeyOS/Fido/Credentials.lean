import KeyOS.Fido.SigningKeys

/-!
# What a request does to the credentials

A credential is found by its handle. A request registers one under a handle that was free, counts
up the counter of the one that it signs with, or leaves the credentials as they are; a panic leaves
a file in which the same was done or nothing.
-/

namespace Fido

open Exec Prog FidoServer

variable {K F : Type} {P : Platform K F} {env : Env} {state state' : FidoKeysState} {i : Nat}

/-! ## 1. Credentials of a state -/

def registeredAt (state : FidoKeysState) (h : KeyHandle) : Option RegisteredKey :=
  state[h.securityKeyIndex]?.bind fun key => key.registeredKeys[h.registeredKeyIndex]?

/-- Every credential is still there, for the same application, with a counter that did not go
back. -/
def Extends (old new : FidoKeysState) : Prop :=
  ∀ h key, registeredAt old h = some (.u2f key) → ∃ key', registeredAt new h = some (.u2f key') ∧
    key'.applicationParameter = key.applicationParameter ∧
    key.signatureCounter ≤ key'.signatureCounter

theorem Extends.refl (state : FidoKeysState) : Extends state state :=
  fun _ key h => ⟨key, h, rfl, Nat.le_refl _⟩

theorem registeredAt_set {key : SecurityKey} {h : KeyHandle} (hi : i < state.length) :
    registeredAt (state.set i key) h =
      if i = h.securityKeyIndex then key.registeredKeys[h.registeredKeyIndex]?
      else registeredAt state h := by
  unfold registeredAt
  rw [List.getElem?_set]
  split
  · rw [Option.bind_some]
  · rfl

theorem Extends.set {key key' : SecurityKey} (hkey : state[i]? = some key)
    (hkept : ∀ (j : Nat) (r : RegisteredKeyU2f), key.registeredKeys[j]? = some (.u2f r) →
      ∃ r', key'.registeredKeys[j]? = some (.u2f r') ∧
      r'.applicationParameter = r.applicationParameter ∧
      r.signatureCounter ≤ r'.signatureCounter) : Extends state (state.set i key') := by
  intro h r hr
  rw [registeredAt_set (List.getElem?_eq_some_iff.1 hkey).1]
  split
  · next heq =>
    subst heq
    rw [registeredAt, hkey] at hr
    exact hkept _ r hr
  · exact ⟨r, hr, rfl, Nat.le_refl _⟩

theorem Extends.append (key : SecurityKey) : Extends state (state ++ [key]) := by
  intro h r hr
  refine ⟨r, ?_, rfl, Nat.le_refl _⟩
  unfold registeredAt at hr ⊢
  cases hget : state[h.securityKeyIndex]? with
  | none =>
    rw [hget] at hr
    cases hr
  | some key' =>
    rw [hget] at hr
    rw [List.getElem?_append_left (List.getElem?_eq_some_iff.1 hget).1, hget]
    exact hr

/-! ## 2. Changes of the state -/

theorem registeredCount_set {key : SecurityKey} (hi : i < state.length) (i' : Nat) :
    registeredCount (state.set i key) i' =
      if i = i' then key.registeredKeys.length else registeredCount state i' := by
  unfold registeredCount
  rw [List.getElem?_set]
  split
  · rfl
  · rfl

theorem Fits.set {key : SecurityKey} (h : Fits state)
    (hkey : key.registeredKeys.length ≤ maxLen) : Fits (state.set i key) := by
  refine ⟨by simpa using h.keys, fun key' hmem => ?_⟩
  rcases List.mem_or_eq_of_mem_set hmem with hold | rfl
  · exact h.registered key' hold
  · exact hkey

theorem Fits.append {key : SecurityKey} (h : Fits state) (hlen : state.length < maxLen)
    (hkey : key.registeredKeys = []) : Fits (state ++ [key]) := by
  refine ⟨by rw [List.length_append]; exact hlen, fun key' hmem => ?_⟩
  rcases List.mem_append.1 hmem with hold | hnew
  · exact h.registered key' hold
  · rw [List.mem_singleton.1 hnew, hkey]
    exact Nat.zero_le _

theorem registeredCount_append {key : SecurityKey} (hkey : key.registeredKeys = []) (i : Nat) :
    registeredCount (state ++ [key]) i = registeredCount state i := by
  unfold registeredCount
  rcases Nat.lt_trichotomy i state.length with hlt | rfl | hgt
  · rw [List.getElem?_append_left hlt]
  · simp [hkey]
  · rw [List.getElem?_eq_none (by simp; omega), List.getElem?_eq_none (by omega)]

/-- A state with as many registered keys for every index. -/
theorem Aligned.setState {s : FidoServer K F} (h : Aligned P s) (hfits : Fits state)
    (hroom : state.length ≤ s.fidoKeys.length)
    (hcount : ∀ i, registeredCount state i = registeredCount s.state i) :
    Aligned P { s with state := state } := by
  refine ⟨hfits, hroom, fun i key hkey => ?_⟩
  dsimp only
  rw [hcount]
  exact h.keys i key hkey

/-- What an edit of the key at an index makes of the state. -/
structure SetsKey (state : FidoKeysState) (i : Nat) (key key' : SecurityKey)
    (state' : FidoKeysState) : Prop where
  key : state[i]? = some key
  state : state' = state.set i key'

theorem SetsKey.lt {key key' : SecurityKey} (h : SetsKey state i key key' state') :
    i < state.length := (List.getElem?_eq_some_iff.1 h.key).1

theorem SetsKey.length {key key' : SecurityKey} (h : SetsKey state i key key' state') :
    state'.length = state.length := by
  rw [h.state, List.length_set]

/-- The same number of registered keys for the key that is set. -/
theorem SetsKey.holds {key key' : SecurityKey} {s : FidoServer K F} {n : Nat}
    (h : SetsKey state i key key' state') (hs : Holds P state n s)
    (hlen : key'.registeredKeys.length = key.registeredKeys.length) :
    Fits state' ∧ Aligned P { s with state := state' } := by
  have hfits : Fits state := hs.state ▸ hs.aligned.fits
  have hkey : key'.registeredKeys.length ≤ maxLen := by
    rw [hlen]
    exact hfits.registered key (List.mem_of_getElem? h.key)
  have hfits' : Fits state' := h.state ▸ hfits.set hkey
  refine ⟨hfits', hs.aligned.setState hfits' ?_ fun i' => ?_⟩
  · rw [h.length, ← hs.state]
    exact hs.aligned.covered
  · rw [h.state, registeredCount_set h.lt, hs.state]
    split
    · next heq =>
      subst heq
      rw [hlen, registeredCount_of_some h.key]
    · rfl

/-! ## 3. Security keys -/

/-- An aligned server whose credentials extend those of the state before. -/
def Kept (P : Platform K F) (state : FidoKeysState) (s : FidoServer K F) : Prop :=
  Aligned P s ∧ Extends state s.state

/-- A file that a restart can read, with credentials that extend those of the state before. -/
def KeptFile (state file : FidoKeysState) : Prop := Fits file ∧ Extends state file

section SecurityKeys

variable {n : Nat}

theorem Holds.kept {s : FidoServer K F} (h : Holds P state n s) : Kept P state s :=
  ⟨h.aligned, h.state ▸ Extends.refl _⟩

theorem Holds.keptFile {s : FidoServer K F} (h : Holds P state n s) : KeptFile state state :=
  ⟨h.state ▸ h.aligned.fits, Extends.refl state⟩

/-- The key at an index is replaced by one with the same registered keys. -/
theorem editKey_spec {f : SecurityKey → SecurityKey}
    (hf : ∀ key, (f key).registeredKeys = key.registeredKeys) :
    Triple (Holds P state n) (editKey env i f) (fun _ => Kept P state) (fun _ => Kept P state)
      (KeptFile state) := by
  intro s hs
  have hedits : Edits (K := K) (F := F) (fun state => do
      let key ← Prog.okOr .invalidIndex state[i]?
      return ((), state.set i (f key))) state
      (fun _ state' => ∃ key, SetsKey state i key (f key) state') True := by
    intro s' _
    cases hkey : state[i]? with
    | none =>
      refine .inr (.inl ⟨trivial, .invalidIndex, ?_⟩)
      dsimp only
      rw [hkey]
      rfl
    | some key =>
      refine .inl ⟨(), state.set i (f key), ?_, key, hkey, rfl⟩
      dsimp only
      rw [hkey]
      rfl
  have hkept : ∀ key state', SetsKey state i key (f key) state' → ∀ s', Holds P state n s' →
      Kept P state { s' with state := state' } ∧ KeptFile state state' := by
    intro key state' hset s' hs'
    obtain ⟨hfits, haligned⟩ := hset.holds hs' (by rw [hf])
    have hextends : Extends state state' := by
      rw [hset.state]
      refine Extends.set hset.key fun j r hr => ⟨r, ?_, rfl, Nat.le_refl _⟩
      rwa [hf]
    exact ⟨⟨haligned, hextends⟩, hfits, hextends⟩
  have hguard := @guard_spec _ _ env _ _ (KeptFile state) (Holds P state n) _ _ _
    (fun _ h => h.state) hedits hs.keptFile
    (fun _ state' ⟨key, hset⟩ => (hkept key state' hset s hs).2)
  refine hguard.conseq (fun _ => id) ?_ (fun _ _ h => h.2.kept) (fun _ => id) s hs
  rintro a s' ⟨s₀, state', hs₀, ⟨key, hset⟩, rfl⟩
  exact (hkept key state' hset s₀ hs₀).1

theorem editSecurityKey_spec {label icon : String} {color date : Nat} :
    Triple (Holds P state n) (editSecurityKey env i label color icon date)
      (fun _ => Kept P state) (fun _ => Kept P state) (KeptFile state) := by
  refine Triple.get_bind fun s hs => ?_
  have hrefused : ∀ e, Triple (· = s) (Prog.throw e : Handler K F FidoError Unit)
      (fun _ => Kept P state) (fun _ => Kept P state) (KeptFile state) :=
    fun e => Triple.throw fun _ heq => heq ▸ hs.kept
  refine Triple.ite (fun _ => hrefused _) fun _ => Triple.ite (fun _ => ?_) fun _ => hrefused _
  exact (editKey_spec (by exact fun _ => rfl)).pre fun _ heq => heq ▸ hs

theorem setArchived_spec {archived : Bool} :
    Triple (Holds P state n) (FidoServer.setArchived env i archived) (fun _ => Kept P state)
      (fun _ => Kept P state) (KeptFile state) :=
  editKey_spec fun _ => rfl

theorem selectSecurityKey_spec {index : Option Nat} :
    Triple (Holds P state n) (selectSecurityKey env index) (fun _ => Kept P state)
      (fun _ => Kept P state) (KeptFile state) := by
  refine Triple.get_bind fun s hs => Triple.ite (fun _ => ?_) fun _ => ?_
  · exact Triple.throw fun _ heq => heq ▸ hs.kept
  · refine Triple.modify fun s' heq => ?_
    subst heq
    exact ⟨⟨hs.aligned.fits, hs.aligned.covered, hs.aligned.keys⟩, hs.kept.2⟩

/-- Room for one more security key is made before the keys are derived and the state is edited. -/
theorem createSecurityKey_spec {label icon : String} {color : Nat} :
    Triple (Holds P state n) (createSecurityKey P env label color icon) (fun _ => Kept P state)
      (fun _ => Kept P state) (KeptFile state) := by
  refine Triple.get_bind fun s hs => ?_
  have hrefused : ∀ e, Triple (· = s) (Prog.throw e : Handler K F FidoError Nat)
      (fun _ => Kept P state) (fun _ => Kept P state) (KeptFile state) :=
    fun e => Triple.throw fun _ heq => heq ▸ hs.kept
  refine Triple.ite (fun _ => hrefused _) fun _ => Triple.ite (fun _ => ?_) fun _ => hrefused _
  refine Triple.bind (Q := fun keys s' => s' = s ∧ keys = s.fidoKeys ++ [({} : FidoKey K)]) ?push fun keys => ?_
  case push =>
    refine Triple.get_bind fun s' heq => Triple.ite (fun _ => ?_) fun _ => ?_
    · exact Triple.pure fun s₀ hs₀ => ⟨hs₀.trans heq, rfl⟩
    · exact Triple.panic (heq ▸ hs.state ▸ hs.keptFile)
  refine Triple.bind (Q := fun _ => Holds P state (state.length + 1)) ?room fun _ => ?_
  case room =>
    refine Triple.modify fun s' ⟨heq, hkeys⟩ => ?_
    subst heq hkeys
    have hcovered := hs.aligned.covered
    rw [hs.state] at hcovered
    refine ⟨hs.state, by simpa using hcovered, hs.aligned.fits, ?_, fun i key hkey => ?_⟩
    · have := hs.aligned.covered
      simp only [List.length_append, List.length_singleton]
      omega
    · dsimp only at hkey ⊢
      rcases Nat.lt_or_ge i s'.fidoKeys.length with hlt | hge
      · rw [List.getElem?_append_left hlt] at hkey
        exact hs.aligned.keys i key hkey
      · have hnone : registeredCount s'.state i = 0 := by
          have := hs.aligned.covered
          rw [registeredCount, List.getElem?_eq_none (by omega)]
          rfl
        obtain rfl : key = {} := by
          rw [List.getElem?_append_right hge] at hkey
          exact List.mem_singleton.1 (List.mem_of_getElem? hkey)
        rw [hnone]
        exact ⟨rfl, fun j k hk => by simp at hk, by simp⟩
  refine Triple.bind (computeNextSigningKeys_spec.conseq (fun _ => id) (fun _ _ => id)
    (fun _ _ h => h.kept) fun _ => id) fun _ => ?_
  let key : SecurityKey :=
    { label := label, color := color, icon := icon, live := true, date := env.systemTime }
  have hedits : Edits (K := K) (F := F) (fun state => do
      let state ← push state key
      return (s.state.length, state)) state
      (fun _ state' => state' = state ++ [key] ∧ state.length < maxLen) False := by
    intro s' hs'
    by_cases hlen : state.length < maxLen
    · refine .inl ⟨s.state.length, state ++ [key], ?_, rfl, hlen⟩
      simp [push, bind_run, hlen]
    · refine .inr (.inr ?_)
      simp [push, bind_run, hlen, hs']
  have hfile : ∀ state', state' = state ++ [key] ∧ state.length < maxLen →
      KeptFile state state' := by
    rintro state' ⟨rfl, hlen⟩
    exact ⟨(hs.state ▸ hs.aligned.fits : Fits state).append hlen rfl, Extends.append key⟩
  have hguard := @guard_spec _ _ env _ _ (KeptFile state) (Holds P state (state.length + 1)) _ _ _
    (fun _ h => h.state) hedits hs.keptFile
    (fun _ state' h => hfile state' h)
  refine hguard.conseq (fun _ => id) ?_ (fun _ _ h => h.1.elim) (fun _ => id)
  rintro a s' ⟨s₀, state', hs₀, hstate', rfl⟩
  obtain ⟨hfits, hextends⟩ := hfile state' hstate'
  refine ⟨hs₀.aligned.setState hfits ?_ fun i => ?_, hextends⟩
  · rw [hstate'.1, List.length_append]
    exact hs₀.room
  · rw [hstate'.1, registeredCount_append rfl, hs₀.state]

end SecurityKeys

/-! ## 4. Register -/

/-- A credential for the application is added under a handle that was free. -/
def Registers (state : FidoKeysState) (h : KeyHandle) (applicationParameter : Bytes)
    (state' : FidoKeysState) : Prop :=
  ∃ key timestamp, key.registeredKeys.length = h.registeredKeyIndex ∧
    h.registeredKeyIndex < maxLen ∧
    SetsKey state h.securityKeyIndex key
      { key with
        registeredKeys := key.registeredKeys ++ [.u2f ⟨applicationParameter, 0, timestamp⟩] } state'

section Register

variable {h : KeyHandle} {app challenge : Bytes} {n : Nat}

theorem Registers.free (hr : Registers state h app state') : registeredAt state h = none := by
  obtain ⟨key, t, hlen, -, hset⟩ := hr
  rw [registeredAt, hset.key, Option.bind_some, List.getElem?_eq_none (Nat.le_of_eq hlen)]

theorem Registers.registered (hr : Registers state h app state') :
    ∃ key, registeredAt state' h = some (.u2f key) ∧ key.applicationParameter = app := by
  obtain ⟨key, t, hlen, -, hset⟩ := hr
  refine ⟨⟨app, 0, t⟩, ?_, rfl⟩
  rw [hset.state, registeredAt_set hset.lt, if_pos rfl, ← hlen]
  simp

theorem Registers.keptFile (hr : Registers state h app state') (hfits : Fits state) :
    KeptFile state state' := by
  obtain ⟨key, t, hlen, hmax, hset⟩ := hr
  refine ⟨hset.state ▸ hfits.set ?_, hset.state ▸ Extends.set hset.key fun j r hr => ?_⟩
  · rw [List.length_append, hlen]
    exact hmax
  · refine ⟨r, ?_, rfl, Nat.le_refl _⟩
    rw [List.getElem?_append_left (List.getElem?_eq_some_iff.1 hr).1]
    exact hr

/-- The next signing key becomes that of the credential that is added. -/
theorem Registers.aligned {s : FidoServer K F} {fidoKey : FidoKey K} {k : K}
    (hr : Registers state h app state') (hs : Holds P state n s)
    (hkey : s.fidoKeys[h.securityKeyIndex]? = some fidoKey)
    (hk : derived P h.securityKeyIndex h.registeredKeyIndex = some k) :
    Aligned P { s with
      state := state'
      fidoKeys := s.fidoKeys.set h.securityKeyIndex
        { signingKeys := fidoKey.signingKeys ++ [k], next := none } } := by
  have hfits := (hr.keptFile (hs.state ▸ hs.aligned.fits)).1
  obtain ⟨key, t, hlen, hmax, hset⟩ := hr
  have hold := hs.aligned.keys _ fidoKey hkey
  rw [hs.state, registeredCount_of_some hset.key, hlen] at hold
  refine ⟨hfits, ?_, fun i' key' hkey' => ?_⟩
  · rw [List.length_set, hset.length, ← hs.state]
    exact hs.aligned.covered
  · dsimp only at hkey' ⊢
    rw [hset.state, registeredCount_set hset.lt]
    rw [List.getElem?_set] at hkey'
    split at hkey'
    · next heq =>
      subst heq
      split at hkey'
      · cases hkey'
        rw [if_pos rfl, List.length_append, hlen]
        refine ⟨by simp [hold.length], fun j k' hk' => ?_, nofun⟩
        rcases Nat.lt_or_ge j fidoKey.signingKeys.length with hlt | hge
        · rw [List.getElem?_append_left hlt] at hk'
          exact hold.keys j k' hk'
        · have hj := (List.getElem?_eq_some_iff.1 hk').1
          simp only [List.length_append, List.length_singleton] at hj
          obtain rfl : j = h.registeredKeyIndex := by
            rw [← hold.length]
            omega
          rw [← hold.length] at hk'
          simp only [List.getElem?_concat_length, Option.some.injEq] at hk'
          rw [hk, hk']
      · cases hkey'
    · next hne =>
      rw [if_neg hne, ← hs.state]
      exact hs.aligned.keys i' key' hkey'

theorem useNextSigningKey_run {s : FidoServer K F} {key : FidoKey K} {k : K} {pub : Bytes}
    (hkey : s.fidoKeys[i]? = some key) (hnext : key.next = some (k, pub)) :
    useNextSigningKey P env i s =
      if key.signingKeys.length < maxLen then
        (.ok pub, { s with
          fidoKeys := s.fidoKeys.set i { signingKeys := key.signingKeys ++ [k], next := none } })
      else (.panic s.state, s) := by
  have hfido : (fidoKey i : Handler K F FidoError (FidoKey K)) s = (.ok key, s) := by
    rw [fidoKey, bind_ok _ (get_run s), hkey]
    rfl
  have hcompute : computeNextSigningKeyIfNeeded P env i s = (.ok (), s) := by
    rw [computeNextSigningKeyIfNeeded, bind_ok _ hfido, hnext]
    rfl
  rw [useNextSigningKey, bind_ok _ hcompute, bind_ok _ hfido, hnext,
    bind_ok _ (okOr_some_run _ _ _)]
  split
  · next hlt =>
    have hpush : (push key.signingKeys k : Handler K F FidoError _) s =
        (.ok (key.signingKeys ++ [k]), s) := by
      rw [push, bind_ok _ (get_run s), if_pos hlt]
      rfl
    rw [bind_ok _ hpush]
    rfl
  · next hge =>
    have hpush : (push key.signingKeys k : Handler K F FidoError _) s = (.panic s.state, s) := by
      rw [push, bind_ok _ (get_run s), if_neg hge]
      rfl
    rw [bind_panic _ hpush]

theorem securityKey_spec {ε : Type} {f : FidoError → ε} {Pre : FidoServer K F → Prop}
    {A : FidoKeysState → Prop} (hpre : ∀ s, Pre s → Holds P state n s) :
    Triple Pre (Prog.mapErr f (securityKey i)) (fun key s => Pre s ∧ state[i]? = some key)
      (fun _ => Kept P state) A := by
  refine Triple.mapErr (Triple.get_bind fun s hs => Triple.okOr ?_ ?_)
  · rintro key hkey s' rfl
    exact ⟨hs, (hpre s' hs).state ▸ hkey⟩
  · rintro - s' rfl
    exact (hpre s' hs).kept

/-- A registration that returns has added its credential under the handle that it returns, with
the public key that is derived for this handle. -/
theorem attestAndRegisterU2f_spec :
    Triple (Holds P state n) (attestAndRegisterU2f P env i app challenge)
      (fun resp s => Aligned P s ∧ Registers state resp.keyHandle app s.state ∧
        ∃ k, derived P resp.keyHandle.securityKeyIndex resp.keyHandle.registeredKeyIndex = some k ∧
          resp.userPublicKey = P.publicKey k)
      (fun _ => Kept P state) (KeptFile state) := by
  refine Triple.bind (Triple.mapErr (peekNextRegistrationPublicKey_spec.conseq (fun _ => id)
    (fun _ _ => id) (fun _ _ h => h.kept) fun _ => id)) fun pub => ?_
  refine Triple.bind (securityKey_spec fun _ h => h.1) fun key => ?_
  refine Triple.get_bind fun s ⟨⟨hs, k, fidoKey, hfido, hnext⟩, hkey⟩ => ?_
  refine Triple.bind (Q := fun _ s' => s' = s) (Triple.ofExcept (fun _ _ _ => id) ?_) fun sig => ?_
  · rintro e - s' rfl
    exact hs.kept
  have haligned := hs.aligned.keys i fidoKey hfido
  rw [hs.state, registeredCount_of_some hkey] at haligned
  obtain ⟨hk, hpub⟩ := haligned.next k pub hnext
  have hfits : Fits state := hs.state ▸ hs.aligned.fits
  let keyHandle : KeyHandle := ⟨i, key.registeredKeys.length⟩
  let committed : FidoServer K F := { s with
    fidoKeys := s.fidoKeys.set i { signingKeys := fidoKey.signingKeys ++ [k], next := none } }
  refine Triple.bind (Q := fun _ s' => ∃ state', Registers state keyHandle app state' ∧
    s' = { committed with state := state' }) (Triple.mapErr ?commit) fun _ => ?_
  case commit =>
    refine Triple.bind (Q := fun _ s' => s' = committed ∧ key.registeredKeys.length < maxLen)
      ?use fun _ => Triple.pre (S := fun s' => s' = committed ∧ key.registeredKeys.length < maxLen)
        ?_ fun _ => id
    case use =>
      rintro s' rfl
      rw [useNextSigningKey_run hfido hnext]
      by_cases hlt : fidoKey.signingKeys.length < maxLen
      · rw [if_pos hlt]
        exact ⟨rfl, haligned.length ▸ hlt⟩
      · rw [if_neg hlt]
        exact hs.state ▸ hs.keptFile
    have hedits : Edits (K := K) (F := F) (fun state => do
        let key ← Prog.okOr .invalidIndex state[i]?
        let registeredKeys ← push key.registeredKeys (.u2f ⟨app, 0, env.systemTime⟩)
        return ((), state.set i { key with registeredKeys := registeredKeys })) state
        (fun _ state' => Registers state keyHandle app state') False := by
      intro s' hs'
      dsimp only
      rw [hkey]
      by_cases hlen : key.registeredKeys.length < maxLen
      · refine .inl ⟨(), _, ?_, key, env.systemTime, rfl, hlen, hkey, rfl⟩
        simp [push, bind_run, hlen, keyHandle]
      · refine .inr (.inr ?_)
        simp [push, bind_run, hlen, hs']
    have hguard := @guard_spec _ _ env _ _ (KeptFile state)
      (fun s' => s' = committed ∧ key.registeredKeys.length < maxLen) _ _ _
      (by rintro _ ⟨rfl, -⟩; exact hs.state) hedits hs.keptFile
      (fun _ _ hr => hr.keptFile hfits)
    refine hguard.conseq (fun _ => id) ?_ (fun _ _ h => h.1.elim) (fun _ => id)
    rintro a s' ⟨s₀, state', ⟨rfl, -⟩, hr, rfl⟩
    exact ⟨state', hr, rfl⟩
  refine Triple.pure fun s' ⟨state', hr, heq⟩ => ?_
  subst heq
  exact ⟨hr.aligned hs hfido hk, hr, k, hk, hpub⟩

end Register

/-! ## 5. Authenticate -/

/-- The counter of the credential under the handle is counted up. -/
def CountsUp (state : FidoKeysState) (h : KeyHandle) (state' : FidoKeysState) : Prop :=
  ∃ key r, key.registeredKeys[h.registeredKeyIndex]? = some r ∧
    SetsKey state h.securityKeyIndex key
      { key with
        registeredKeys := key.registeredKeys.set h.registeredKeyIndex r.incSignatureCounter } state'

section Authenticate

variable {h : KeyHandle} {n : Nat}

theorem CountsUp.registered (hc : CountsUp state h state') {key : RegisteredKeyU2f}
    (hkey : registeredAt state h = some (.u2f key)) : registeredAt state' h =
      some (.u2f { key with signatureCounter := (key.signatureCounter + 1) % 2 ^ 32 }) := by
  obtain ⟨sk, r, hr, hset⟩ := hc
  rw [registeredAt, hset.key, Option.bind_some, hr] at hkey
  cases hkey
  rw [hset.state, registeredAt_set hset.lt, if_pos rfl,
    List.getElem?_set_self (List.getElem?_eq_some_iff.1 hr).1]
  rfl

/-- While the counter does not wrap, all credentials are extended. -/
theorem CountsUp.extends (hc : CountsUp state h state') {key : RegisteredKeyU2f}
    (hkey : registeredAt state h = some (.u2f key)) (hwrap : key.signatureCounter + 1 < 2 ^ 32) :
    Extends state state' := by
  obtain ⟨sk, r, hr, hset⟩ := hc
  rw [registeredAt, hset.key, Option.bind_some, hr] at hkey
  cases hkey
  rw [hset.state]
  refine Extends.set hset.key fun j r' hr' => ?_
  rcases Nat.decEq h.registeredKeyIndex j with hne | rfl
  · refine ⟨r', ?_, rfl, Nat.le_refl _⟩
    rw [List.getElem?_set_ne hne]
    exact hr'
  · rw [hr] at hr'
    cases hr'
    refine ⟨_, List.getElem?_set_self (List.getElem?_eq_some_iff.1 hr).1, rfl, ?_⟩
    dsimp only
    rw [Nat.mod_eq_of_lt hwrap]
    exact Nat.le_succ _

theorem CountsUp.holds (hc : CountsUp state h state') {s : FidoServer K F} (hs : Holds P state n s) :
    Fits state' ∧ Aligned P { s with state := state' } := by
  obtain ⟨key, r, hr, hset⟩ := hc
  exact hset.holds hs (by simp)

/-- A signature is made with the key that is derived for the handle. -/
theorem signDer_spec {data : Bytes} {A : FidoKeysState → Prop} (hold : A state)
    (hnew : ∀ state', CountsUp state h state' → A state') :
    Triple (Holds P state n) (signDer P env h.securityKeyIndex h.registeredKeyIndex data)
      (fun sig s => Aligned P s ∧ CountsUp state h s.state ∧
        ∃ k, derived P h.securityKeyIndex h.registeredKeyIndex = some k ∧ sig = P.sign k data)
      (fun _ => Kept P state) A := by
  refine Triple.bind (fidoKey_spec.conseq (fun _ => id) (fun _ _ => id) (fun _ _ h => h.kept)
    fun _ => id) fun fidoKey => ?_
  refine Triple.bind (Q := fun k s => Holds P state n s ∧
    derived P h.securityKeyIndex h.registeredKeyIndex = some k) (Triple.okOr ?_ ?_) fun k => ?_
  · rintro k hk s ⟨hs, hkey⟩
    exact ⟨hs, (hs.aligned.keys _ fidoKey hkey).keys _ k hk⟩
  · rintro - s ⟨hs, -⟩
    exact hs.kept
  have hedits : Edits (K := K) (F := F) (fun state => do
      let key ← Prog.okOr .invalidIndex state[h.securityKeyIndex]?
      let registered ← Prog.okOr .invalidIndex key.registeredKeys[h.registeredKeyIndex]?
      let registeredKeys :=
        key.registeredKeys.set h.registeredKeyIndex registered.incSignatureCounter
      return ((), state.set h.securityKeyIndex { key with registeredKeys := registeredKeys })) state
      (fun _ state' => CountsUp state h state') True := by
    intro s' _
    dsimp only
    cases hkey : state[h.securityKeyIndex]? with
    | none => exact .inr (.inl ⟨trivial, .invalidIndex, rfl⟩)
    | some key =>
      cases hr : key.registeredKeys[h.registeredKeyIndex]? with
      | none =>
        refine .inr (.inl ⟨trivial, .invalidIndex, ?_⟩)
        simp [bind_run, hr]
      | some r =>
        refine .inl ⟨(), _, ?_, key, r, hr, hkey, rfl⟩
        simp [bind_run, hr]
  have hguard := @guard_spec _ _ env _ _ A (fun s => Holds P state n s ∧
      derived P h.securityKeyIndex h.registeredKeyIndex = some k) _ _ _
    (fun _ hs => hs.1.state) hedits hold (fun _ => hnew)
  refine Triple.bind (hguard.conseq (fun _ => id) (fun _ _ => id) (fun _ _ h => h.2.1.kept)
    fun _ => id) fun _ => ?_
  refine Triple.pure ?_
  rintro s ⟨s₀, state', ⟨hs₀, hk⟩, hc, rfl⟩
  exact ⟨(hc.holds hs₀).2, hc, k, hk, rfl⟩

/-- The response to a request signs with the credential of its handle, which was issued for the
application that asks, and counts it up. -/
def Signs (P : Platform K F) (state : FidoKeysState) (req : AuthenticateRequest)
    (resp : AuthenticateResponse) (state' : FidoKeysState) : Prop :=
  ∃ key k, registeredAt state req.keyHandle = some (.u2f key) ∧
    key.applicationParameter = req.applicationParameter ∧ key.signatureCounter + 1 < 2 ^ 32 ∧
    resp.counter = key.signatureCounter ∧ CountsUp state req.keyHandle state' ∧
    derived P req.keyHandle.securityKeyIndex req.keyHandle.registeredKeyIndex = some k ∧
    resp.signature = P.sign k (signatureBase req.applicationParameter req.challengeParameter
      resp.userPresence resp.counter)

/-- The counter of the credential that the request asks for can be counted up. -/
def CanCount (state : FidoKeysState) (req : AuthenticateRequest) : Prop :=
  ∀ key, registeredAt state req.keyHandle = some (.u2f key) →
    key.applicationParameter = req.applicationParameter → key.signatureCounter + 1 < 2 ^ 32

theorem signRequest_spec {req : AuthenticateRequest} {userPresent : Bool}
    (hcount : CanCount state req) :
    Triple (Holds P state n) (signRequest P env req userPresent)
      (fun resp s => Aligned P s ∧ Signs P state req resp s.state) (fun _ => Kept P state)
      (KeptFile state) := by
  refine Triple.bind (securityKey_spec fun _ => id) fun key => ?_
  refine Triple.bind (Q := fun registered s => Holds P state n s ∧
    registeredAt state req.keyHandle = some registered) (Triple.mapErr (Triple.ofExcept ?_ ?_))
    fun registered => ?_
  · rintro registered hregistered s ⟨hs, hkey⟩
    refine ⟨hs, ?_⟩
    rw [registeredAt, hkey, Option.bind_some]
    unfold SecurityKey.registeredKey at hregistered
    split at hregistered
    · next r hr =>
      cases hregistered
      exact hr
    · cases hregistered
  · rintro e - s ⟨hs, -⟩
    exact hs.kept
  cases registered with
  | ctap key => exact Triple.throw fun _ hs => hs.1.kept
  | u2f key =>
    refine Triple.ite (fun happ => ?_) fun _ => Triple.throw fun _ hs => hs.1.kept
    refine fun s ⟨hs, hregistered⟩ => (?_ : Triple (Holds P state n) _ _ _ _) s hs
    have hwrap := hcount key hregistered happ
    refine Triple.bind (Triple.mapErr (signDer_spec hs.keptFile fun state' hc =>
      ⟨(hc.holds hs).1, hc.extends hregistered hwrap⟩)) fun sig => Triple.pure ?_
    rintro s' ⟨haligned, hc, k, hk, rfl⟩
    exact ⟨haligned, key, k, hregistered, happ, hwrap, rfl, hc, hk, rfl⟩

theorem pollOrStartPresence_spec [DecidableEq F] {ε : Type} {E : ε → FidoServer K F → Prop}
    {A : FidoKeysState → Prop} {fp : F} {options : UserPresenceOptions} :
    Triple (Holds P state n) (pollOrStartPresence env fp options) (fun _ => Holds P state n) E A := by
  refine Triple.get_bind fun s hs => Triple.bind (Q := fun _ => Holds P state n)
    (Triple.modify ?_) fun _ => Triple.pure fun _ => id
  rintro s' rfl
  exact ⟨hs.state, hs.room, hs.aligned.fits, hs.aligned.covered, hs.aligned.keys⟩

theorem authenticationPresence_spec [DecidableEq F] {fp : F} {transport : Transport}
    {selected : Bool} {A : FidoKeysState → Prop} :
    Triple (Holds P state n) (authenticationPresence env fp transport selected i)
      (fun present s => Holds P state n s ∧ present = true) (fun _ => Kept P state) A := by
  refine Triple.ite (fun _ => Triple.pure fun _ hs => ⟨hs, rfl⟩) fun _ => ?_
  cases transport with
  | nfc => exact Triple.pure fun _ hs => ⟨hs, rfl⟩
  | usb =>
    refine Triple.bind pollOrStartPresence_spec fun verdict => ?_
    cases verdict with
    | pending => exact Triple.throw fun _ hs => hs.kept
    | dismissed => exact Triple.throw fun _ hs => hs.kept
    | confirmed selected => exact Triple.pure fun _ hs => ⟨hs, rfl⟩

theorem registrationKey_spec [DecidableEq F] {fp : F} {transport : Transport}
    {A : FidoKeysState → Prop} :
    Triple (Holds P state n) (registrationKey env fp transport) (fun _ => Holds P state n)
      (fun _ => Kept P state) A := by
  refine Triple.get_bind fun s hs => ?_
  cases transport with
  | nfc =>
    refine Triple.bind (Q := fun _ => Holds P state n) (Triple.okOr ?_ ?_) fun _ =>
      Triple.pure fun _ => id
    · rintro selected - s' rfl
      exact hs
    · rintro - s' rfl
      exact hs.kept
  | usb =>
    refine Triple.bind (pollOrStartPresence_spec.pre fun _ heq => heq ▸ hs) fun verdict => ?_
    cases verdict with
    | pending => exact Triple.throw fun _ hs => hs.kept
    | dismissed => exact Triple.throw fun _ hs => hs.kept
    | confirmed selected => exact Triple.okOr (fun _ _ _ => id) fun _ _ hs => hs.kept

/-- The user is present for the request, or need not be asked. -/
def Granted [DecidableEq F] (P : Platform K F) (env : Env) (s : FidoServer K F)
    (command : U2fApduCommand) (transport : Transport) (i : Nat) : Prop :=
  (authenticationPresence env (P.presenceFingerprint command.data) transport
    (preSelected env s = some i) i s).1 = .ok true

/-- If the request is an authentication that gets as far as signing, the counter that it signs
with can be counted up. -/
def Unwrapped [DecidableEq F] (P : Platform K F) (env : Env) (s : FidoServer K F)
    (command : U2fApduCommand) (transport : Transport) : Prop :=
  ∀ req key, command.p2 = 0 → command.instruction = 0x02 → command.p1 = 0x03 ∨ command.p1 = 0x08 →
    AuthenticateRequest.fromApduData command.data = .ok req →
    s.state[req.keyHandle.securityKeyIndex]? = some key →
    key.live = true ∨ preSelected env s = some req.keyHandle.securityKeyIndex →
    Granted P env s command transport req.keyHandle.securityKeyIndex → CanCount s.state req

theorem authenticate_spec [DecidableEq F] {s : FidoServer K F} {command : U2fApduCommand}
    {transport : Transport} {req : AuthenticateRequest} (hs : Holds P state n s)
    (hp2 : command.p2 = 0) (hins : command.instruction = 0x02)
    (hreq : AuthenticateRequest.fromApduData command.data = .ok req)
    (hwrap : Unwrapped P env s command transport) :
    Triple (· = s) (authenticate P env req command.p1 (P.presenceFingerprint command.data) transport)
      (fun resp s' => Aligned P s' ∧ Signs P state req resp s'.state) (fun _ => Kept P state)
      (KeptFile state) := by
  have hpre : ∀ s', s' = s → Holds P state n s' := fun _ heq => heq ▸ hs
  refine Triple.ite (fun _ => ?check) fun _ => Triple.ite (fun hp1 => ?sign) fun _ => ?other
  case check =>
    refine Triple.bind (securityKey_spec hpre) fun key => Triple.ite (fun _ => ?_) fun _ => ?_
    · exact Triple.throw fun s' hs' => (hpre s' hs'.1).kept
    · exact Triple.throw fun s' hs' => (hpre s' hs'.1).kept
  case other => exact Triple.throw fun s' hs' => (hpre s' hs').kept
  case sign =>
    refine Triple.get_bind fun s' hs' => ?_
    subst hs'
    refine Triple.bind (securityKey_spec hpre) fun key => Triple.ite (fun _ => ?_) fun hlive => ?_
    · exact Triple.throw fun s'' hs'' => (hpre s'' hs''.1).kept
    rintro s'' ⟨rfl, hkey⟩
    refine Triple.bind (Triple.observed (authenticationPresence_spec.pre hpre)) (fun present => ?_)
      s'' rfl
    refine Triple.ite (fun _ => Triple.throw fun _ hs => hs.1.1.kept) fun _ => ?_
    rintro s₁ ⟨⟨hs₁, rfl⟩, hrun⟩
    refine signRequest_spec ?_ s₁ hs₁
    have hgranted : Granted P env s'' command transport req.keyHandle.securityKeyIndex := by
      rw [Granted, hrun]
    rw [← hs.state] at hkey ⊢
    refine hwrap req key hp2 hins hp1 hreq hkey ?_ hgranted
    by_contra hnot
    rw [not_or] at hnot
    exact hlive ⟨by simpa using hnot.1, hnot.2⟩

end Authenticate

/-! ## 6. U2F requests -/

section U2f

variable [DecidableEq F] {n : Nat} {command : U2fApduCommand} {transport : Transport}

/-- What a reply says about the credentials before and after it. -/
def Answered (P : Platform K F) (state : FidoKeysState) (command : U2fApduCommand) (reply : Reply)
    (state' : FidoKeysState) : Prop :=
  match reply with
  | .registered resp => ∃ req, RegisterRequest.fromApduData command.data = .ok req ∧
      Registers state resp.keyHandle req.applicationParameter state' ∧
      ∃ k, derived P resp.keyHandle.securityKeyIndex resp.keyHandle.registeredKeyIndex = some k ∧
        resp.userPublicKey = P.publicKey k
  | .authenticated resp => ∃ req, AuthenticateRequest.fromApduData command.data = .ok req ∧
      Signs P state req resp state'
  | .version => state' = state

theorem processApdu_spec {s : FidoServer K F} (hs : Holds P state n s)
    (hwrap : Unwrapped P env s command transport) :
    Triple (· = s) (processApdu P env command transport)
      (fun reply s' => Aligned P s' ∧ Answered P state command reply s'.state)
      (fun _ => Kept P state) (KeptFile state) := by
  have hpre : ∀ s', s' = s → Holds P state n s' := fun _ heq => heq ▸ hs
  have hrefused : ∀ e, Triple (· = s) (Prog.throw e : Handler K F Error Reply)
      (fun reply s' => Aligned P s' ∧ Answered P state command reply s'.state)
      (fun _ => Kept P state) (KeptFile state) :=
    fun e => Triple.throw fun s' hs' => (hpre s' hs').kept
  refine Triple.ite (fun _ => hrefused _) fun hp2 => ?_
  rw [not_ne_iff] at hp2
  refine Triple.ite (fun _ => ?register) fun _ => Triple.ite (fun hins => ?authenticate) fun _ =>
    Triple.ite (fun _ => Triple.ite (fun _ => hrefused _) fun _ => ?version) fun _ => hrefused _
  case register =>
    refine Triple.bind (Q := fun req s' => s' = s ∧
      RegisterRequest.fromApduData command.data = .ok req) (Triple.ofExcept ?_ ?_) fun req => ?_
    · exact fun req hreq s' hs' => ⟨hs', hreq⟩
    · exact fun _ _ s' hs' => (hpre s' hs').kept
    rintro s' ⟨rfl, hreq⟩
    refine Triple.bind (registrationKey_spec.pre hpre) (fun i => ?_) s' rfl
    refine Triple.bind attestAndRegisterU2f_spec fun resp => Triple.pure ?_
    rintro s'' ⟨haligned, hr, hk⟩
    exact ⟨haligned, req, hreq, hr, hk⟩
  case authenticate =>
    refine Triple.bind (Q := fun req s' => s' = s ∧
      AuthenticateRequest.fromApduData command.data = .ok req) (Triple.ofExcept ?_ ?_) fun req => ?_
    · exact fun req hreq s' hs' => ⟨hs', hreq⟩
    · exact fun _ _ s' hs' => (hpre s' hs').kept
    rintro s' ⟨rfl, hreq⟩
    refine Triple.bind (authenticate_spec hs hp2 hins hreq hwrap) (fun resp => Triple.pure ?_) s' rfl
    rintro s'' ⟨haligned, hsigns⟩
    exact ⟨haligned, req, hreq, hsigns⟩
  case version =>
    refine Triple.pure fun s' hs' => ?_
    subst hs'
    exact ⟨hs.aligned, hs.state⟩

omit [DecidableEq F] in
/-- The next keys are computed for whatever state the server has reached. -/
theorem refreshAndNotify_keeps {ε : Type} {R : FidoKeysState → Prop}
    {E : ε → FidoServer K F → Prop} {A : FidoKeysState → Prop} :
    Triple (fun s => Aligned P s ∧ R s.state) (refreshAndNotify P env)
      (fun _ s => Aligned P s ∧ R s.state) E A :=
  fun s hs => (refreshAndNotify_spec.post fun _ _ h => ⟨h.aligned, h.state ▸ hs.2⟩) s
    ⟨rfl, Nat.zero_le _, hs.1⟩

/-- What the outcome of a request says about the credentials. -/
def Effect (P : Platform K F) (state : FidoKeysState) : Request → Option (Except Error Reply) →
    FidoKeysState → Prop
  | .u2fProcessApdu command _, some (.ok reply), state' => Answered P state command reply state'
  | _, _, state' => Extends state state'

theorem u2fProcessApdu_spec {s : FidoServer K F} {E : FidoError → FidoServer K F → Prop}
    (hs : Holds P state n s) (hwrap : Unwrapped P env s command transport) :
    Triple (· = s) (u2fProcessApdu P env command transport)
      (fun res s' => Aligned P s' ∧
        Effect P state (.u2fProcessApdu command transport) (some res) s'.state) E
      (KeptFile state) := by
  refine Triple.bind (Q := fun res s' => Aligned P s' ∧
    Effect P state (.u2fProcessApdu command transport) (some res) s'.state)
    (Triple.result (processApdu_spec hs hwrap)) fun res => ?_
  cases res with
  | error e => exact fun s hs => hs
  | ok reply =>
    have hkept : Triple (fun s' => Aligned P s' ∧ Answered P state command reply s'.state)
        (Pure.pure (.ok reply) : Handler K F FidoError (Except Error Reply))
        (fun res s' => Aligned P s' ∧
          Effect P state (.u2fProcessApdu command transport) (some res) s'.state) E
        (KeptFile state) := Triple.pure fun _ hs => hs
    cases reply with
    | registered resp => exact Triple.bind refreshAndNotify_keeps fun _ => hkept
    | authenticated resp => exact Triple.bind refreshAndNotify_keeps fun _ => hkept
    | version => exact hkept

end U2f

/-! ## 7. All requests -/

section Handle

variable [DecidableEq F] {n : Nat}

/-- The request is not a signature with a counter at its end. -/
def Request.Unwrapped (P : Platform K F) (env : Env) (s : FidoServer K F) : Request → Prop
  | .u2fProcessApdu command transport => Fido.Unwrapped P env s command transport
  | _ => True

theorem handle_spec {s : FidoServer K F} {r : Request} (hs : Holds P state n s)
    (hwrap : r.Unwrapped P env s) :
    Triple (· = s) (handle P env r) (fun reply s' => Aligned P s' ∧ Effect P state r reply s'.state)
      (fun _ => Kept P state) (KeptFile state) := by
  have hpre : ∀ s', s' = s → Holds P state n s' := fun _ heq => heq ▸ hs
  cases r with
  | createSecurityKey label color icon =>
    exact Triple.bind (createSecurityKey_spec.pre hpre) fun _ =>
      Triple.bind (refreshAndNotify_keeps (R := Extends state)) fun _ => Triple.pure fun _ => id
  | editSecurityKey index label color icon date =>
    exact Triple.bind (editSecurityKey_spec.pre hpre) fun _ =>
      Triple.bind (refreshAndNotify_keeps (R := Extends state)) fun _ => Triple.pure fun _ => id
  | setArchived index archived =>
    exact Triple.bind (setArchived_spec.pre hpre) fun _ =>
      Triple.bind (refreshAndNotify_keeps (R := Extends state)) fun _ => Triple.pure fun _ => id
  | selectSecurityKey index =>
    exact Triple.bind (selectSecurityKey_spec.pre hpre) fun _ => Triple.pure fun _ => id
  | u2fProcessApdu command transport =>
    exact Triple.bind (u2fProcessApdu_spec hs hwrap) fun _ => Triple.pure fun _ => id

omit [DecidableEq F] in
/-- A start reads the file and derives all keys anew. -/
theorem new_holds {file : FidoKeysState} {certificate : Option Bytes} {s : FidoServer K F}
    (hfits : Fits file) (h : FidoServer.new P env file certificate = .ok s) : Holds P file 0 s := by
  unfold FidoServer.new at h
  split at h
  · cases h
  · next certificate =>
    obtain ⟨keys, hkeys, h⟩ := bind_eq_ok.1 h
    obtain ⟨hlen, hat⟩ := mapM_eq_ok hkeys
    rw [List.length_zipIdx] at hlen
    have hholds : Holds P file 0
        (⟨file, keys, certificate, NavThread.start, none⟩ : FidoServer K F) := by
      refine ⟨rfl, Nat.zero_le _, hfits, Nat.le_of_eq hlen.symm, fun i key hkey => ?_⟩
      obtain ⟨⟨sk, i'⟩, hsk, hkey⟩ := hat i key hkey
      rw [List.getElem?_zipIdx, Option.map_eq_some_iff] at hsk
      obtain ⟨sk', hsk, heq⟩ := hsk
      cases heq
      obtain ⟨signingKeys, hsigning, hkey⟩ := bind_eq_ok.1 hkey
      cases hkey
      obtain ⟨hslen, hsat⟩ := mapM_eq_ok hsigning
      rw [List.length_zipIdx] at hslen
      dsimp only
      rw [registeredCount_of_some hsk]
      refine ⟨hslen, fun j k hk => ?_, nofun⟩
      obtain ⟨⟨r, j'⟩, hr, hk⟩ := hsat j k hk
      rw [List.getElem?_zipIdx, Option.map_eq_some_iff] at hr
      obtain ⟨r', -, heq⟩ := hr
      cases heq
      simpa using signingKey_ok hk
    have hcompute := @computeNextSigningKeys_spec _ _ _ env _ _ (fun _ => True) _ hholds
    revert h hcompute
    rcases computeNextSigningKeys P env
      (⟨file, keys, certificate, NavThread.start, none⟩ : FidoServer K F) with ⟨o, s'⟩
    cases o with
    | ok u =>
      rintro ⟨⟩ hs
      exact hs
    | err e => exact fun h => by cases h
    | panic p => exact fun h => by cases h

end Handle

end Fido
