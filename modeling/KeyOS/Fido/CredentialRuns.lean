import KeyOS.Fido.Credentials
import KeyOS.Lib.History

/-!
# Credentials stay bound to their key and counter

The server takes requests in any order, with any of its calls failing, and is stopped and started
again at any time. The history records what was registered and what was signed.
-/

namespace Fido

open Exec Prog FidoServer History ByteStream

variable {K F : Type}

/-! ## 1. Runs -/

inductive CredentialEvent where
  | registered (applicationParameter keyHandle publicKey : Bytes)
  | authenticated (applicationParameter challengeParameter keyHandle : Bytes)
      (resp : AuthenticateResponse)
deriving DecidableEq

/-- The server is down when there is none; the file stays. -/
structure Device (K F : Type) where
  file : FidoKeysState
  server : Option (FidoServer K F)
  history : List CredentialEvent

/-- A start, also of a server that is up, a request, and whatever the navigation thread makes of
its slot. -/
inductive Move (F : Type) where
  | start (env : Env) (attestationCertificate : Option Bytes)
  | request (env : Env) (r : Request)
  | navigate (slot : PresenceState F)

def observed : Request → Option (Except Error Reply) → List CredentialEvent
  | .u2fProcessApdu command _, some (.ok (.registered resp)) =>
    [.registered (command.data.drop 32) resp.keyHandle.toVec resp.userPublicKey]
  | .u2fProcessApdu command _, some (.ok (.authenticated resp)) =>
    [.authenticated ((command.data.drop 32).take 32) (command.data.take 32) (command.data.drop 65)
      resp]
  | _, _ => []

namespace Device

variable [DecidableEq F] (P : Platform K F)

/-- No state was saved yet. -/
def initial : Device K F := ⟨[], none, []⟩

def step (d : Device K F) : Move F → Device K F
  | .start env attestationCertificate =>
    { d with server := (FidoServer.new P env d.file attestationCertificate).toOption }
  | .request env r =>
    match d.server with
    | none => d
    | some s =>
      match handle P env r s with
      | (.ok reply, s') => ⟨s'.state, some s', d.history ++ observed r reply⟩
      | (.err _, s') => ⟨s'.state, some s', d.history⟩
      | (.panic file, _) => ⟨file, none, d.history⟩
  | .navigate slot =>
    { d with server := d.server.map fun s => { s with nav := { s.nav with slot := slot } } }

def run (d : Device K F) (moves : List (Move F)) : Device K F := moves.foldl (step P) d

theorem run_append (d : Device K F) (ms ms' : List (Move F)) :
    d.run P (ms ++ ms') = (d.run P ms).run P ms' := List.foldl_append

/-- A request that signs does so with a counter that can be counted up. -/
def Careful (d : Device K F) : Move F → Prop
  | .request env r => ∀ s, d.server = some s → r.Unwrapped P env s
  | _ => True

/-- A run whose moves are all careful in the states that they find. -/
def CarefulRun (d : Device K F) : List (Move F) → Prop
  | [] => True
  | m :: ms => d.Careful P m ∧ (d.step P m).CarefulRun ms

end Device

/-! ## 2. What is recorded -/

/-- The credentials behind a history. -/
structure Recorded (P : Platform K F) (file : FidoKeysState) (es : List CredentialEvent) : Prop where
  registered : ∀ r app handle pub, At es r (.registered app handle pub) → ∃ h key k,
    handle = h.toVec ∧ registeredAt file h = some (.u2f key) ∧ key.applicationParameter = app ∧
    derived P h.securityKeyIndex h.registeredKeyIndex = some k ∧ pub = P.publicKey k
  authenticated : ∀ a app challenge handle resp,
    At es a (.authenticated app challenge handle resp) → ∃ h key k,
    KeyHandle.fromBytes handle = .ok h ∧ registeredAt file h = some (.u2f key) ∧
    key.applicationParameter = app ∧ resp.counter < key.signatureCounter ∧
    derived P h.securityKeyIndex h.registeredKeyIndex = some k ∧
    resp.signature = P.sign k (signatureBase app challenge resp.userPresence resp.counter)
  handles : ∀ r r' app app' handle pub pub', r < r' → At es r (.registered app handle pub) →
    ¬ At es r' (.registered app' handle pub')
  counters : ∀ a a' app app' challenge challenge' handle resp resp', a < a' →
    At es a (.authenticated app challenge handle resp) →
    At es a' (.authenticated app' challenge' handle resp') → resp.counter < resp'.counter

section Recorded

variable {P : Platform K F} {file file' : FidoKeysState} {es : List CredentialEvent}

theorem Recorded.extends (h : Recorded P file es) (hext : Extends file file') :
    Recorded P file' es := by
  refine ⟨?_, ?_, h.handles, h.counters⟩
  · intro r app handle pub hr
    obtain ⟨kh, key, k, hh, hkey, happ, hk, hpub⟩ := h.registered r app handle pub hr
    obtain ⟨key', hkey', happ', -⟩ := hext kh key hkey
    exact ⟨kh, key', k, hh, hkey', happ'.trans happ, hk, hpub⟩
  · intro a app challenge handle resp ha
    obtain ⟨kh, key, k, hh, hkey, happ, hlt, hk, hsig⟩ :=
      h.authenticated a app challenge handle resp ha
    obtain ⟨key', hkey', happ', hle⟩ := hext kh key hkey
    exact ⟨kh, key', k, hh, hkey', happ'.trans happ, Nat.lt_of_lt_of_le hlt hle, hk, hsig⟩

/-- The event that is added comes last. -/
theorem at_added {e e' : CredentialEvent} {i : Nat} (h : At (es ++ [e]) i e') :
    At es i e' ∨ i = es.length ∧ e' = e := by
  rcases at_or_new h with hold | ⟨hge, hmem⟩
  · exact .inl hold
  · have hlt := lt_of_at h
    simp only [List.length_append, List.length_singleton] at hlt
    exact .inr ⟨by omega, List.mem_singleton.1 hmem⟩

theorem fromBytes_toVec {h : KeyHandle} (hs : h.securityKeyIndex < 2 ^ 32)
    (hr : h.registeredKeyIndex < 2 ^ 32) : KeyHandle.fromBytes h.toVec = .ok h := by
  have hlen : (be 4 h.securityKeyIndex).length = 4 := length_be 4 _
  unfold KeyHandle.fromBytes KeyHandle.toVec
  rw [if_pos (by simp), List.take_left' hlen, List.drop_left' hlen, ofBe_be hs, ofBe_be hr]

/-- The indices of a credential are 32 bits wide. -/
theorem Fits.index_lt {h : KeyHandle} {key : RegisteredKey} (hfits : Fits file)
    (hkey : registeredAt file h = some key) :
    h.securityKeyIndex < 2 ^ 32 ∧ h.registeredKeyIndex < 2 ^ 32 := by
  obtain ⟨sk, hsk, hr⟩ := Option.bind_eq_some_iff.1 hkey
  have hi := (List.getElem?_eq_some_iff.1 hsk).1
  have hj := (List.getElem?_eq_some_iff.1 hr).1
  have hkeys := hfits.keys
  have hregistered := hfits.registered sk (List.mem_of_getElem? hsk)
  unfold maxLen at hkeys hregistered
  constructor <;> omega

/-- A credential is recorded under a handle that no earlier one has. -/
theorem Recorded.register {h : KeyHandle} {app : Bytes} {k : K} (hrec : Recorded P file es)
    (hfits : Fits file) (hfits' : Fits file') (hr : Registers file h app file')
    (hk : derived P h.securityKeyIndex h.registeredKeyIndex = some k) :
    Recorded P file' (es ++ [.registered app h.toVec (P.publicKey k)]) := by
  have hold := hrec.extends (hr.keptFile hfits).2
  obtain ⟨key, hkey, happ⟩ := hr.registered
  obtain ⟨hi, hj⟩ := hfits'.index_lt hkey
  refine ⟨?_, ?_, ?_, ?_⟩
  · intro r app' handle pub hr'
    rcases at_added hr' with hr' | ⟨-, heq⟩
    · exact hold.registered r app' handle pub hr'
    · cases heq
      exact ⟨h, key, k, rfl, hkey, happ, hk, rfl⟩
  · intro a app' challenge handle resp ha
    rcases at_added ha with ha | ⟨-, heq⟩
    · exact hold.authenticated a app' challenge handle resp ha
    · cases heq
  · intro r r' app₁ app₂ handle pub₁ pub₂ hlt h₁ h₂
    rcases at_added h₂ with hold₂ | ⟨hlen, heq⟩
    · exact hrec.handles r r' app₁ app₂ handle pub₁ pub₂ hlt
        ((at_append_iff (Nat.lt_trans hlt (lt_of_at hold₂))).1 h₁) hold₂
    · cases heq
      -- The credential recorded before is registered under its handle, this handle was free.
      obtain ⟨h', key', -, hh', hkey', -⟩ :=
        hrec.registered r _ _ _ ((at_append_iff (hlen ▸ hlt)).1 h₁)
      obtain ⟨hi', hj'⟩ := hfits.index_lt hkey'
      have heq : h = h' := by
        have := congrArg KeyHandle.fromBytes hh'
        rw [fromBytes_toVec hi hj, fromBytes_toVec hi' hj'] at this
        exact Except.ok.inj this
      rw [← heq, hr.free] at hkey'
      cases hkey'
  · intro a a' app₁ app₂ c₁ c₂ handle resp₁ resp₂ hlt h₁ h₂
    rcases at_added h₂ with hold₂ | ⟨-, heq⟩
    · exact hrec.counters a a' app₁ app₂ c₁ c₂ handle resp₁ resp₂ hlt
        ((at_append_iff (Nat.lt_trans hlt (lt_of_at hold₂))).1 h₁) hold₂
    · cases heq

/-- A signature carries the counter as it stands, above those of all earlier signatures. -/
theorem Recorded.authenticate {req : AuthenticateRequest} {resp : AuthenticateResponse}
    {handle : Bytes} (hrec : Recorded P file es)
    (hhandle : KeyHandle.fromBytes handle = .ok req.keyHandle) (hsigns : Signs P file req resp file') :
    Recorded P file' (es ++ [.authenticated req.applicationParameter req.challengeParameter handle
      resp]) := by
  obtain ⟨key, k, hkey, happ, hwrap, hcounter, hc, hk, hsig⟩ := hsigns
  have hold := hrec.extends (hc.extends hkey hwrap)
  refine ⟨?_, ?_, ?_, ?_⟩
  · intro r app' handle' pub hr
    rcases at_added hr with hr | ⟨-, heq⟩
    · exact hold.registered r app' handle' pub hr
    · cases heq
  · intro a app' challenge handle' resp' ha
    rcases at_added ha with ha | ⟨-, heq⟩
    · exact hold.authenticated a app' challenge handle' resp' ha
    · cases heq
      refine ⟨req.keyHandle, _, k, hhandle, hc.registered hkey, happ, ?_, hk, hsig⟩
      dsimp only
      rw [Nat.mod_eq_of_lt hwrap, hcounter]
      exact Nat.lt_succ_self _
  · intro r r' app₁ app₂ handle' pub₁ pub₂ hlt h₁ h₂
    rcases at_added h₂ with hold₂ | ⟨-, heq⟩
    · exact hrec.handles r r' app₁ app₂ handle' pub₁ pub₂ hlt
        ((at_append_iff (Nat.lt_trans hlt (lt_of_at hold₂))).1 h₁) hold₂
    · cases heq
  · intro a a' app₁ app₂ c₁ c₂ handle' resp₁ resp₂ hlt h₁ h₂
    rcases at_added h₂ with hold₂ | ⟨hlen, heq⟩
    · exact hrec.counters a a' app₁ app₂ c₁ c₂ handle' resp₁ resp₂ hlt
        ((at_append_iff (Nat.lt_trans hlt (lt_of_at hold₂))).1 h₁) hold₂
    · cases heq
      obtain ⟨h', key', k', hh', hkey', -, hlt', -⟩ :=
        hrec.authenticated a _ _ _ _ ((at_append_iff (hlen ▸ hlt)).1 h₁)
      rw [hhandle] at hh'
      cases hh'
      rw [hkey] at hkey'
      cases hkey'
      rw [hcounter]
      exact hlt'

end Recorded

/-! ## 3. Moves -/

section Moves

variable [DecidableEq F] {P : Platform K F} {d : Device K F}

/-- The invariant of all careful runs. -/
structure Sound (P : Platform K F) (d : Device K F) : Prop where
  fits : Fits d.file
  server : ∀ s, d.server = some s → Holds P d.file 0 s
  recorded : Recorded P d.file d.history

theorem fromApduData_register {data : Bytes} {req : RegisterRequest}
    (h : RegisterRequest.fromApduData data = .ok req) :
    req.applicationParameter = data.drop 32 := by
  unfold RegisterRequest.fromApduData at h
  split at h <;> cases h
  rfl

theorem fromApduData_authenticate {data : Bytes} {req : AuthenticateRequest}
    (h : AuthenticateRequest.fromApduData data = .ok req) :
    req.applicationParameter = (data.drop 32).take 32 ∧ req.challengeParameter = data.take 32 ∧
      KeyHandle.fromBytes (data.drop 65) = .ok req.keyHandle := by
  unfold AuthenticateRequest.fromApduData at h
  split at h
  · cases h
  · split at h
    · split at h
      · next hkey =>
        cases h
        exact ⟨rfl, rfl, hkey⟩
      · cases h
    · cases h

omit [DecidableEq F] in
/-- What a request does to the credentials is what it adds to the history. -/
theorem Recorded.observe {file file' : FidoKeysState} {es : List CredentialEvent} {r : Request}
    {reply : Option (Except Error Reply)} (hrec : Recorded P file es) (hfits : Fits file)
    (hfits' : Fits file') (heffect : Effect P file r reply file') :
    Recorded P file' (es ++ observed r reply) := by
  have hnothing : Extends file file' → Recorded P file' (es ++ []) := by
    intro hext
    rw [List.append_nil]
    exact hrec.extends hext
  cases r with
  | createSecurityKey label color icon => exact hnothing heffect
  | editSecurityKey index label color icon date => exact hnothing heffect
  | setArchived index archived => exact hnothing heffect
  | selectSecurityKey index => exact hnothing heffect
  | u2fProcessApdu command transport =>
    cases reply with
    | none => exact hnothing heffect
    | some res =>
      cases res with
      | error e => exact hnothing heffect
      | ok reply =>
        cases reply with
        | version => exact hnothing (Eq.symm heffect ▸ Extends.refl file)
        | registered resp =>
          obtain ⟨req, hreq, hr, k, hk, hpub⟩ := heffect
          rw [fromApduData_register hreq] at hr
          have := hrec.register hfits hfits' hr hk
          rw [← hpub] at this
          exact this
        | authenticated resp =>
          obtain ⟨req, hreq, hsigns⟩ := heffect
          obtain ⟨happ, hchallenge, hhandle⟩ := fromApduData_authenticate hreq
          have := hrec.authenticate hhandle hsigns
          rw [happ, hchallenge] at this
          exact this

omit [DecidableEq F] in
theorem sound_initial : Sound P (Device.initial : Device K F) :=
  ⟨⟨Nat.zero_le _, fun _ h => absurd h List.not_mem_nil⟩, nofun,
    ⟨fun _ _ _ _ h => absurd h not_at_nil, fun _ _ _ _ _ h => absurd h not_at_nil,
      fun _ _ _ _ _ _ _ _ h => absurd h not_at_nil,
      fun _ _ _ _ _ _ _ _ _ _ h => absurd h not_at_nil⟩⟩

theorem Sound.step {m : Move F} (h : Sound P d) (hcareful : d.Careful P m) :
    Sound P (d.step P m) := by
  cases m with
  | start env certificate =>
    refine ⟨h.fits, fun s hs => ?_, h.recorded⟩
    simp only [Device.step] at hs
    cases hnew : FidoServer.new P env d.file certificate with
    | error e =>
      rw [hnew] at hs
      cases hs
    | ok s' =>
      rw [hnew] at hs
      cases hs
      exact new_holds h.fits hnew
  | navigate slot =>
    refine ⟨h.fits, fun s hs => ?_, h.recorded⟩
    obtain ⟨s', hs', rfl⟩ := Option.map_eq_some_iff.1 hs
    have hold := h.server s' hs'
    exact ⟨hold.state, hold.room, hold.aligned.fits, hold.aligned.covered, hold.aligned.keys⟩
  | request env r =>
    unfold Device.step
    dsimp only
    split
    · exact h
    · next s hs =>
      have hspec := handle_spec (h.server s hs) (hcareful s hs) s rfl
      revert hspec
      rcases handle P env r s with ⟨o, s'⟩
      cases o with
      | ok reply =>
        rintro ⟨haligned, heffect⟩
        refine ⟨haligned.fits, ?_, h.recorded.observe h.fits haligned.fits heffect⟩
        rintro s'' ⟨⟩
        exact ⟨rfl, Nat.zero_le _, haligned⟩
      | err e =>
        rintro ⟨haligned, hext⟩
        refine ⟨haligned.fits, ?_, h.recorded.extends hext⟩
        rintro s'' ⟨⟩
        exact ⟨rfl, Nat.zero_le _, haligned⟩
      | panic file =>
        rintro ⟨hfits, hext⟩
        exact ⟨hfits, nofun, h.recorded.extends hext⟩

theorem Sound.run {ms : List (Move F)} (h : Sound P d) (hcareful : d.CarefulRun P ms) :
    Sound P (d.run P ms) := by
  induction ms generalizing d with
  | nil => exact h
  | cons m ms ih => exact ih (h.step hcareful.1) hcareful.2

end Moves

/-! ## 4. The credentials of a history -/

theorem digits_slash_inj {l l' r r' : List Char} (hl : ∀ c ∈ l, c.isDigit)
    (hl' : ∀ c ∈ l', c.isDigit) (h : l ++ '/' :: r = l' ++ '/' :: r') : l = l' ∧ r = r' := by
  have htake : l = l' := by
    have := congrArg (List.takeWhile Char.isDigit) h
    rwa [List.takeWhile_append_of_pos hl, List.takeWhile_append_of_pos hl',
      List.takeWhile_cons_of_neg (by decide), List.takeWhile_cons_of_neg (by decide),
      List.append_nil, List.append_nil] at this
  subst htake
  exact ⟨rfl, by simpa using h⟩

theorem isDigit_of_mem {n : Nat} : ∀ c ∈ Nat.toDigits 10 n, c.isDigit :=
  fun _ hc => Nat.isDigit_of_mem_toDigits (by decide) (by decide) hc

theorem toDigits_inj {m n : Nat} (h : Nat.toDigits 10 m = Nat.toDigits 10 n) : m = n := by
  rw [← Nat.ofDigitChars_ten_toDigits (n := m), h, Nat.ofDigitChars_ten_toDigits]

/-- The decimal digits of the indices are separated, so the path determines them. -/
theorem derivationPath_inj {i j i' j' : Nat} (h : derivationPath i j = derivationPath i' j') :
    i = i' ∧ j = j' := by
  unfold derivationPath at h
  generalize "m/83696968’/1179473391’/" = root at h
  have hlist := congrArg String.toList h
  simp only [String.toList_append, List.append_assoc, Nat.toString_eq_repr,
    Nat.toList_repr] at hlist
  obtain ⟨hi, hj⟩ := digits_slash_inj isDigit_of_mem isDigit_of_mem
    (List.append_cancel_left hlist)
  exact ⟨toDigits_inj hi, toDigits_inj hj⟩

/-! ## 5. A credential that signs -/

section Sample

def samplePlatform : Platform Bytes Bytes where
  hmac256 path := path.toUTF8.data.toList
  fromSlice bytes := some bytes
  publicKey key := key
  sign key data := key ++ data
  verify pub data sig := sig == pub ++ data
  presenceFingerprint data := data

def sampleEnv : Env where
  now := 0
  systemTime := 0
  hmacAnswers _ := true
  sha256 data := some data
  signWithFidoKey hash := some hash
  signatureToDer sig := some sig
  save := .saved

def sampleApplication : Bytes := List.replicate 32 9

def sampleChallenge : Bytes := List.replicate 32 7

/-- A key is created and selected, and a credential registered with it by a tap. -/
def setup : List (Move Bytes) :=
  [.start sampleEnv (some []), .request sampleEnv (.createSecurityKey "key" 0 ""),
    .request sampleEnv (.selectSecurityKey (some 0)),
    .request sampleEnv (.u2fProcessApdu ⟨1, 0, 0, sampleChallenge ++ sampleApplication⟩ .nfc)]

def signMove : Move Bytes :=
  .request sampleEnv (.u2fProcessApdu
    ⟨2, 8, 0, sampleChallenge ++ sampleApplication ++ [8, 0, 0, 0, 0, 0, 0, 0, 0]⟩ .nfc)

theorem samplePlatform_verifies (k data : Bytes) :
    samplePlatform.verify (samplePlatform.publicKey k) data (samplePlatform.sign k data) = true :=
  beq_self_eq_true (k ++ data)

theorem samplePlatform_distinct {i j i' j' : Nat} {k k' : Bytes}
    (hk : derived samplePlatform i j = some k) (hk' : derived samplePlatform i' j' = some k')
    (h : samplePlatform.publicKey k = samplePlatform.publicKey k') :
    derivationPath i j = derivationPath i' j' := by
  have heq : (derivationPath i j).toUTF8.data.toList = (derivationPath i' j').toUTF8.data.toList :=
    (Option.some.inj hk).trans (h.trans (Option.some.inj hk').symm)
  exact String.toByteArray_inj.1 (ByteArray.ext (Array.toList_inj.1 heq))

/-- What the device holds once the credential is registered and its counter stands at `n`. -/
def signedDevice (n : Nat) (history : List CredentialEvent) : Device Bytes Bytes :=
  let key : SecurityKey :=
    { registeredKeys := [.u2f ⟨sampleApplication, n, 0⟩], live := true, label := "key" }
  let signingKey (j : Nat) : Bytes := (derivationPath 0 j).toUTF8.data.toList
  { file := [key]
    server := some
      { state := [key]
        fidoKeys := [{ signingKeys := [signingKey 0], next := some (signingKey 1, signingKey 1) }]
        attestationCertificate := []
        nav := NavThread.start
        selected := some (0, 0) }
    history := history }

def signedResponse (n : Nat) : AuthenticateResponse :=
  ⟨1, n, (derivationPath 0 0).toUTF8.data.toList ++
    signatureBase sampleApplication sampleChallenge 1 n⟩

def signedEvent (n : Nat) : CredentialEvent :=
  .authenticated sampleApplication sampleChallenge [0, 0, 0, 0, 0, 0, 0, 0] (signedResponse n)

theorem setup_run : ∃ event, (Device.initial : Device Bytes Bytes).run samplePlatform setup =
    signedDevice 0 [event] :=
  ⟨_, rfl⟩

theorem signMove_careful {n : Nat} (history : List CredentialEvent) (hn : n + 1 < 2 ^ 32) :
    (signedDevice n history).Careful samplePlatform signMove := by
  rintro s ⟨⟩ req key - - - hreq - - -
  cases hreq
  rintro key ⟨⟩ -
  exact hn

theorem setup_careful : (Device.initial : Device Bytes Bytes).CarefulRun samplePlatform
    (setup ++ [signMove]) := by
  refine ⟨trivial, fun _ _ => trivial, fun _ _ => trivial, ?_, ?_, trivial⟩
  · rintro s ⟨⟩ req key - hins
    cases hins
  · obtain ⟨event, hsetup⟩ := setup_run
    have := signMove_careful [event] (n := 0) (by decide)
    rw [← hsetup] at this
    exact this

theorem signMoves_run (m n : Nat) (history : List CredentialEvent) (hn : n < 2 ^ 32) :
    ∃ signed, (signedDevice n history).run samplePlatform (List.replicate m signMove) =
      signedDevice ((n + m) % 2 ^ 32) (history ++ signed) := by
  induction m generalizing n history with
  | zero => exact ⟨[], by rw [List.append_nil, Nat.add_zero, Nat.mod_eq_of_lt hn]; rfl⟩
  | succ m ih =>
    obtain ⟨signed, hrun⟩ := ih ((n + 1) % 2 ^ 32) (history ++ [signedEvent n])
      (Nat.mod_lt _ (by decide))
    refine ⟨signedEvent n :: signed, ?_⟩
    rw [Nat.mod_add_mod, List.append_assoc] at hrun
    rw [show n + (m + 1) = n + 1 + m by omega]
    exact hrun

end Sample

end Fido
