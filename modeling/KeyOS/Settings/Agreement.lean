import KeyOS.Settings.Server

/-!
# Values, subscribers and files agree

`Side.Kept` is about a store and its file: what a client reads is what was last set, and a store
that is not marked dirty is what its file would load as. It holds of every run.

`Side.Agrees` is about the subscribers: each has last been sent the value that a client would
read. `ResetSettings` changes values without telling anybody, so that it keeps this exactly
where every value that somebody subscribes to is its default already (`reset_agrees_iff`).
-/

namespace Settings

variable {K : Type} {V : K → Type}

/-! ## 1. Invariants of a store -/

structure Side.Kept (serde : Serde V) (default : ∀ k, V k) (side : Side V) : Prop where
  last : ∀ file, side.file = some file → file.settings = side.last
  clean : ∀ file, side.file = some file → file.dirty = none →
    loaded serde default side.content = file.settings

/-- Every subscriber has last been sent the value. -/
def Side.Agrees (side : Side V) : Prop :=
  ∀ file, side.file = some file → ∀ k, ∀ s ∈ side.subscriptions k, s.sent = some (file.settings k)

/-- Nobody subscribes to a value that a reset would change. -/
def Side.QuietReset (default : ∀ k, V k) (side : Side V) : Prop :=
  ∀ file, side.file = some file → ∀ k, side.subscriptions k ≠ [] → file.settings k = default k

/-- A flush that succeeds leaves the file equal to the store, and one that fails leaves the
mark as it was. -/
structure Side.Flushed (serde : Serde V) (default : ∀ k, V k) (outcome : WriteOutcome)
    (side side' : Side V) : Prop where
  ok : outcome = .ok → ∀ file, side'.file = some file → (serde.toVec file.settings).isSome →
    file.dirty = none ∧ loaded serde default side'.content = file.settings
  failed : ∀ written, outcome = .failed written → side'.file = side.file

namespace Side

variable {serde : Serde V} {default : ∀ k, V k} {side : Side V} {env : Env} {k : K} {cid id : Nat}
  {outcome : WriteOutcome} {now : Nat} {force : Bool}

theorem Kept.of_dirty {file : SettingFile V} (hfile : side.file = some file)
    (hdirty : file.dirty ≠ none) (hlast : file.settings = side.last) : Kept serde default side := by
  refine ⟨fun other hother => ?_, fun other hother hclean => ?_⟩
  · cases hfile.symm.trans hother
    exact hlast
  · cases hfile.symm.trans hother
    exact absurd hclean hdirty

/-- Subscriptions do not matter to a store. -/
theorem Kept.congr (h : Kept serde default side) {side' : Side V} (hfile : side'.file = side.file)
    (hcontent : side'.content = side.content) (hlast : side'.last = side.last) :
    Kept serde default side' :=
  ⟨fun file hf => (h.last file (hfile.symm.trans hf)).trans hlast.symm,
    fun file hf hclean => by rw [hcontent, h.clean file (hfile.symm.trans hf) hclean]⟩

theorem markDirty_dirty (file : SettingFile V) (now : Nat) : (file.markDirty now).dirty ≠ none := by
  unfold SettingFile.markDirty
  exact Option.some_ne_none _

theorem sent_of_mem_sendAll {α : Type} {delivers : Nat → Bool} {value : α}
    {subscriptions : List (Subscription α)} {s : Subscription α}
    (h : s ∈ sendAll delivers value subscriptions) : s.sent = some value := by
  obtain ⟨s', -, rfl⟩ := List.mem_map.1 h
  rfl

theorem loaded_of_toVec {values : ∀ k, V k} {data : List UInt8} (h : serde.toVec values = some data) :
    loaded serde default (some data) = values := by
  funext k
  rw [loaded, Option.bind_some, serde.fields_toVec values data h]
  rfl

/-- A load fails, or reads each field by itself. -/
theorem new_durableFileRead (readError : Option Nat) (content : Option (List UInt8)) :
    (∃ e, SettingFile.new serde default (durableFileRead readError content) = .error e) ∨
      SettingFile.new serde default (durableFileRead readError content) =
        .ok ⟨loaded serde default content, none⟩ := by
  cases readError with
  | some code => exact .inl ⟨_, rfl⟩
  | none =>
    refine .inr ?_
    cases content with
    | none => rfl
    | some data =>
      have hloaded : (serde.fromSlice default data).getD default =
          loaded serde default (some data) := by
        funext k
        rw [Serde.fromSlice, loaded, Option.bind_some]
        cases serde.fields data <;> rfl
      rw [durableFileRead, SettingFile.new, hloaded]

/-! ## 2. The operations -/

section Values

variable [DecidableEq K]

theorem Kept.set (h : Kept serde default side) (value : V k) :
    Kept serde default (side.set env k value) := by
  unfold Side.set
  split
  next file hfile =>
    refine .of_dirty rfl (markDirty_dirty file env.now) ?_
    dsimp only
    rw [h.last file hfile]
  next => exact h

theorem Agrees.set (h : Agrees side) (value : V k) : Agrees (side.set env k value) := by
  unfold Side.set
  split
  next file hfile =>
    rintro _ ⟨⟩ other s hs
    dsimp only at hs ⊢
    by_cases heq : other = k
    · subst heq
      rw [Function.update_self] at hs ⊢
      exact sent_of_mem_sendAll hs
    · rw [Function.update_of_ne heq] at hs ⊢
      exact h file hfile other s hs
  next => exact h

theorem Kept.assign (h : Kept serde default side) (k : K) (value : V k) :
    Kept serde default (side.assign env k value) := by
  unfold Side.assign
  split
  next file hfile =>
    refine .of_dirty rfl (markDirty_dirty file env.now) ?_
    dsimp only
    rw [h.last file hfile]
  next => exact h

theorem Kept.subscribe (h : Kept serde default side) :
    Kept serde default (side.subscribe env k cid id) := by
  unfold Side.subscribe
  dsimp only
  split
  · split
    · exact h.congr rfl rfl rfl
    · exact h
  · exact h.congr rfl rfl rfl

theorem Agrees.subscribe (h : Agrees side) : Agrees (side.subscribe env k cid id) := by
  unfold Side.subscribe
  dsimp only
  split
  next file hfile =>
    split
    next =>
      intro other hother k' s hs
      cases hfile.symm.trans hother
      dsimp only at hs
      by_cases heq : k' = k
      · subst heq
        rw [Function.update_self] at hs
        rcases List.mem_append.1 hs with hold | hnew
        · exact h file hfile k' s hold
        · obtain rfl := List.mem_singleton.1 hnew
          rfl
      · rw [Function.update_of_ne heq] at hs
        exact h file hfile k' s hs
    next => exact h
  next hfile =>
    intro other hother
    cases hfile.symm.trans hother

end Values

theorem Kept.reset : Kept serde default side → Kept serde default (side.reset default env) := by
  intro h
  unfold Side.reset
  split
  next file hfile => exact .of_dirty rfl (markDirty_dirty file env.now) rfl
  next => exact h

/-- A reset keeps the agreement exactly where it changes no value that is subscribed to. -/
theorem reset_agrees_iff (h : Agrees side) :
    Agrees (side.reset default env) ↔ QuietReset default side := by
  unfold Side.reset
  split
  next file hfile =>
    constructor
    · intro hagrees other hother k hne
      cases hfile.symm.trans hother
      obtain ⟨s, rest, hs⟩ := List.exists_cons_of_ne_nil hne
      have hmem : s ∈ side.subscriptions k := hs ▸ List.mem_cons_self
      exact Option.some.inj ((h file hfile k s hmem).symm.trans (hagrees _ rfl k s hmem))
    · rintro hquiet _ ⟨⟩ k s hs
      rw [h file hfile k s hs, hquiet file hfile k (List.ne_nil_of_mem hs)]
  next hfile =>
    refine ⟨fun _ other hother => ?_, fun _ => h⟩
    cases hfile.symm.trans hother

theorem Kept.removeCid (h : Kept serde default side) : Kept serde default (side.removeCid cid) :=
  h.congr rfl rfl rfl

theorem Agrees.removeCid (h : Agrees side) : Agrees (side.removeCid cid) :=
  fun file hfile k s hs => h file hfile k s (List.mem_filter.1 hs).1

/-- A flush changes neither the values nor the subscriptions. -/
theorem flush_values : (side.flush serde outcome now force).subscriptions = side.subscriptions ∧
    (side.flush serde outcome now force).last = side.last ∧
    ∀ file', (side.flush serde outcome now force).file = some file' →
      ∃ file, side.file = some file ∧ file'.settings = file.settings := by
  unfold Side.flush
  split
  next file hfile =>
    split
    next =>
      refine ⟨rfl, rfl, ?_⟩
      rintro _ ⟨⟩
      refine ⟨file, hfile, ?_⟩
      unfold SettingFile.flushSettings
      split
      · rfl
      · split <;> rfl
    next => exact ⟨rfl, rfl, fun file' h => ⟨file', h, rfl⟩⟩
  next => exact ⟨rfl, rfl, fun file' h => ⟨file', h, rfl⟩⟩

theorem Agrees.flush (h : Agrees side) : Agrees (side.flush serde outcome now force) := by
  obtain ⟨hsubscriptions, -, hsettings⟩ := @flush_values K V serde side outcome now force
  intro file' hfile' k s hs
  obtain ⟨file, hfile, heq⟩ := hsettings file' hfile'
  rw [hsubscriptions] at hs
  rw [heq]
  exact h file hfile k s hs

theorem Kept.flush (h : Kept serde default side) :
    Kept serde default (side.flush serde outcome now force) := by
  obtain ⟨-, hlast, hsettings⟩ := @flush_values K V serde side outcome now force
  refine ⟨fun file' hfile' => ?_, ?_⟩
  · obtain ⟨file, hfile, heq⟩ := hsettings file' hfile'
    rw [heq, hlast, h.last file hfile]
  · unfold Side.flush
    split
    next file hfile =>
      split
      next hflush =>
        rintro _ ⟨⟩ hclean
        unfold SettingFile.flushSettings at hclean ⊢
        have hdirty : file.dirty ≠ none := by
          intro hnone
          rw [SettingFile.shouldFlush, hnone] at hflush
          cases hflush
        split at hclean
        next => exact absurd hclean hdirty
        next data hdata =>
          split at hclean
          next => exact loaded_of_toVec hdata
          next => exact absurd hclean hdirty
      next => exact h.clean
    next => exact h.clean

/-- A forced flush of a store that is kept. -/
theorem Kept.flushed (h : Kept serde default side) :
    Flushed serde default outcome side (side.flush serde outcome now true) := by
  refine ⟨?_, ?_⟩
  · rintro rfl file' hfile' hencodes
    unfold Side.flush at hfile' ⊢
    cases hfile : side.file with
    | none =>
      rw [hfile] at hfile'
      cases hfile.symm.trans hfile'
    | some file =>
      rw [hfile] at hfile'
      dsimp only at hfile' ⊢
      cases hdirty : file.dirty with
      | none =>
        have hshould : ¬ file.shouldFlush now true = true := by
          rw [SettingFile.shouldFlush, hdirty]
          exact Bool.false_ne_true
        rw [if_neg hshould] at hfile' ⊢
        cases hfile.symm.trans hfile'
        exact ⟨hdirty, h.clean _ hfile hdirty⟩
      | some since =>
        have hshould : file.shouldFlush now true = true := by
          rw [SettingFile.shouldFlush, hdirty]
          exact Bool.true_or _
        rw [if_pos hshould] at hfile' ⊢
        obtain rfl := Option.some.inj hfile'
        unfold SettingFile.flushSettings at hencodes ⊢
        cases hdata : serde.toVec file.settings with
        | none =>
          rw [hdata] at hencodes
          dsimp only at hencodes
          rw [hdata] at hencodes
          cases hencodes
        | some data =>
          dsimp only
          exact ⟨rfl, loaded_of_toVec hdata⟩
  · rintro written rfl
    unfold Side.flush
    split
    next file hfile =>
      split
      next =>
        rw [hfile, SettingFile.flushSettings]
        split <;> rfl
      next => rfl
    next => rfl

theorem Kept.tryMount (h : Kept serde default side) :
    Kept serde default (side.tryMount serde default env) := by
  unfold Side.tryMount
  split
  next => exact h
  next =>
    rcases @new_durableFileRead K V serde default env.readError side.content with ⟨e, hnew⟩ | hnew
    · rw [hnew]
      exact h
    · rw [hnew]
      refine ⟨?_, ?_⟩
      · rintro _ ⟨⟩
        rfl
      · rintro _ ⟨⟩ -
        rfl

theorem Kept.notifySubscribers (h : Kept serde default side) :
    Kept serde default (side.notifySubscribers env) := by
  unfold Side.notifySubscribers
  split
  · exact h.congr rfl rfl rfl
  · exact h

/-- Whatever the subscribers knew, they are told. -/
theorem notifySubscribers_agrees : Agrees (side.notifySubscribers env) := by
  unfold Side.notifySubscribers
  split
  next file hfile =>
    intro other hother k s hs
    cases hfile.symm.trans hother
    exact sent_of_mem_sendAll hs
  next hfile =>
    intro other hother
    cases hfile.symm.trans hother

end Side

/-! ## 3. The server -/

namespace Server

variable {cfg : Config} {s : Server} {env : Env}

structure Kept (cfg : Config) (s : Server) : Prop where
  system : s.system.Kept cfg.systemSerde cfg.systemDefault
  encrypted : s.encrypted.Kept cfg.encryptedSerde cfg.encryptedDefault

structure Agrees (s : Server) : Prop where
  system : s.system.Agrees
  encrypted : s.encrypted.Agrees

/-- The message changes no value behind a subscriber's back. -/
def Heard (cfg : Config) (s : Server) : Message → Prop
  | .resetSettings =>
    s.system.QuietReset cfg.systemDefault ∧ s.encrypted.QuietReset cfg.encryptedDefault
  | _ => True

theorem clearDeveloperMode_kept (h : s.encrypted.Kept cfg.encryptedSerde cfg.encryptedDefault) :
    (clearDeveloperMode env s.encrypted).Kept cfg.encryptedSerde cfg.encryptedDefault := by
  unfold clearDeveloperMode
  split
  · exact h.assign .developerMode false
  · exact h

theorem get_clearDeveloperMode (side : Side EncryptedKey.Value) :
    (clearDeveloperMode env side).get .developerMode ≠ some true := by
  unfold clearDeveloperMode
  split
  next hon =>
    intro h
    obtain ⟨file, hfile, -⟩ := Option.map_eq_some_iff.1 hon
    simp only [Side.assign, hfile, Side.get, Option.map_some] at h
    cases h
  next hoff => exact fun h => hoff h

theorem get_notifySubscribers (side : Side EncryptedKey.Value) (k : EncryptedKey) :
    (side.notifySubscribers env).get k = side.get k := by
  unfold Side.notifySubscribers
  split <;> rfl

/-- No encrypted store has Developer Mode on after it was mounted. -/
theorem handleMounted_developerMode (h : cfg.production = true) :
    (s.handleMounted cfg env).encrypted.get .developerMode ≠ some true := by
  unfold handleMounted
  dsimp only
  rw [if_pos h, get_notifySubscribers]
  exact get_clearDeveloperMode _

theorem handleMounted_kept (h : Kept cfg s) : Kept cfg (s.handleMounted cfg env) := by
  unfold handleMounted
  refine ⟨h.system, ?_⟩
  dsimp only
  have hmounted : (s.encrypted.tryMount cfg.encryptedSerde cfg.encryptedDefault env).Kept
      cfg.encryptedSerde cfg.encryptedDefault := h.encrypted.tryMount
  split
  · exact (clearDeveloperMode_kept (s := ⟨s.system, _⟩) hmounted).notifySubscribers
  · exact hmounted.notifySubscribers

theorem handle_kept (h : Kept cfg s) (m : Message) : Kept cfg (s.handle cfg env m) := by
  cases m with
  | setSystem k value =>
    cases value with
    | none => exact h
    | some value => exact ⟨h.system.set value, h.encrypted⟩
  | setEncrypted k value =>
    cases value with
    | none => exact h
    | some value => exact ⟨h.system, h.encrypted.set value⟩
  | getSystem k => exact h
  | getEncrypted k => exact h
  | subscribeSystem k cid id => exact ⟨h.system.subscribe, h.encrypted⟩
  | subscribeEncrypted k cid id => exact ⟨h.system, h.encrypted.subscribe⟩
  | resetSettings => exact ⟨h.system.reset.flush, h.encrypted.reset.flush⟩
  | flushAll force => exact ⟨h.system.flush, h.encrypted.flush⟩
  | subscriberDisconnected cid => exact ⟨h.system.removeCid, h.encrypted.removeCid⟩
  | fileSystemEvent location eventType =>
    cases location with
    | other => exact h
    | appData =>
      cases eventType with
      | mounted => exact handleMounted_kept h
      | unmounted => exact h
      | error => exact h

theorem handle_agrees (h : Agrees s) {m : Message} (hheard : Heard cfg s m) :
    Agrees (s.handle cfg env m) := by
  cases m with
  | setSystem k value =>
    cases value with
    | none => exact h
    | some value => exact ⟨h.system.set value, h.encrypted⟩
  | setEncrypted k value =>
    cases value with
    | none => exact h
    | some value => exact ⟨h.system, h.encrypted.set value⟩
  | getSystem k => exact h
  | getEncrypted k => exact h
  | subscribeSystem k cid id => exact ⟨h.system.subscribe, h.encrypted⟩
  | subscribeEncrypted k cid id => exact ⟨h.system, h.encrypted.subscribe⟩
  | resetSettings =>
    exact ⟨((Side.reset_agrees_iff h.system).2 hheard.1).flush,
      ((Side.reset_agrees_iff h.encrypted).2 hheard.2).flush⟩
  | flushAll force => exact ⟨h.system.flush, h.encrypted.flush⟩
  | subscriberDisconnected cid => exact ⟨h.system.removeCid, h.encrypted.removeCid⟩
  | fileSystemEvent location eventType =>
    cases location with
    | other => exact h
    | appData =>
      cases eventType with
      | mounted => exact ⟨h.system, Side.notifySubscribers_agrees⟩
      | unmounted => exact h
      | error => exact h

/-! ## 4. Runs -/

def run (cfg : Config) : Server → List (Env × Message) → Server
  | s, [] => s
  | s, (env, m) :: rest => run cfg (s.handle cfg env m) rest

def AllHeard (cfg : Config) : Server → List (Env × Message) → Prop
  | _, [] => True
  | s, (env, m) :: rest => Heard cfg s m ∧ AllHeard cfg (s.handle cfg env m) rest

theorem new_kept {system encrypted : Option (List UInt8)} {readError : Option Nat}
    (h : new cfg system encrypted readError = .ok s) : Kept cfg s ∧ Agrees s := by
  unfold new at h
  rcases @Side.new_durableFileRead _ _ cfg.systemSerde cfg.systemDefault readError system with
    ⟨e, hnew⟩ | hnew
  · rw [hnew] at h
    cases h
  · rw [hnew] at h
    cases h
    refine ⟨⟨⟨?_, ?_⟩, ⟨nofun, nofun⟩⟩, ⟨fun _ _ _ _ hs => (List.not_mem_nil hs).elim, nofun⟩⟩
    · rintro _ ⟨⟩
      rfl
    · rintro _ ⟨⟩ -
      rfl

theorem run_kept (h : Kept cfg s) (steps : List (Env × Message)) : Kept cfg (run cfg s steps) := by
  induction steps generalizing s with
  | nil => exact h
  | cons step rest ih => exact ih (handle_kept h step.2)

theorem run_agrees (h : Agrees s) {steps : List (Env × Message)} (hheard : AllHeard cfg s steps) :
    Agrees (run cfg s steps) := by
  induction steps generalizing s with
  | nil => exact h
  | cons step rest ih => exact ih (handle_agrees h hheard.1) hheard.2

/-- What holds after any messages: values, dirty marks and files agree, a forced flush does
what it says, and Developer Mode does not survive a mount. If no reset changed a value behind
a subscriber's back, then every subscriber has last been sent the value that is read. -/
theorem run_correct {system encrypted : Option (List UInt8)} {readError : Option Nat} {start : Server}
    (h : new cfg system encrypted readError = .ok start) (steps : List (Env × Message)) :
    Kept cfg (run cfg start steps) ∧
    (∀ env, (run cfg start steps).system.Flushed cfg.systemSerde cfg.systemDefault env.systemWrite
        ((run cfg start steps).handle cfg env (.flushAll true)).system ∧
      (run cfg start steps).encrypted.Flushed cfg.encryptedSerde cfg.encryptedDefault
        env.encryptedWrite ((run cfg start steps).handle cfg env (.flushAll true)).encrypted) ∧
    (cfg.production = true → ∀ env,
      ((run cfg start steps).handle cfg env (.fileSystemEvent .appData .mounted)).encrypted.get
        .developerMode ≠ some true) ∧
    (AllHeard cfg start steps → Agrees (run cfg start steps)) := by
  obtain ⟨hkept, hagrees⟩ := new_kept h
  have hrun := run_kept hkept steps
  exact ⟨hrun, fun env => ⟨hrun.system.flushed, hrun.encrypted.flushed⟩,
    fun hproduction _ => handleMounted_developerMode hproduction, fun hheard => run_agrees hagrees hheard⟩

/-! ## 5. A reset -/

end Server

/-- The JSON of one set of values, where the values are known beforehand. -/
def Serde.only [DecidableEq (∀ k, V k)] (values : ∀ k, V k) (data : List UInt8) : Serde V where
  toVec v := if v = values then some data else none
  fields d := if d = data then some fun k => some (values k) else none
  fields_toVec v d h := by
    split at h
    next heq =>
      obtain rfl := Option.some.inj h
      rw [if_pos rfl, heq]
    next => cases h

namespace Server

/-- The default settings of a production unit as `serde_json` writes them. -/
def encryptedJson : List UInt8 :=
  "\x7b\"onboarding_status\":\"NotComplete\",\"developer_mode\":false\x7d".toUTF8.data.toList

def systemJson : List UInt8 :=
  ("\x7b\"system_theme\":\"Dark\",\"screen_brightness\":70,\"locale\":\"EnglishUS\"," ++
    "\"device_name\":\"Passport Prime\",\"show_security_words\":false," ++
    "\"auto_lock\":\x7b\"secs\":300,\"nanos\":0\x7d,\"envoy_time_sync\":true," ++
    "\"use_standard_time_format\":false," ++
    "\"time_zone\":\x7b\"name\":\"America/New_York\",\"data\":[]\x7d,\"debug_touch\":false," ++
    "\"airlock_mode\":\"ReadWrite\",\"touch_offset\":-30,\"magic_backup_enabled\":true," ++
    "\"nfc_enabled\":true,\"bluetooth_enabled\":true,\"camera_enabled\":true," ++
    "\"usb_enabled\":true\x7d").toUTF8.data.toList

/-- A dark production unit, without time zone data. -/
def unit : Config where
  production := true
  primeColor := .dark
  newYork := []
  systemSerde := .only (SystemKey.loadDefault .dark []) systemJson
  encryptedSerde := .only (EncryptedKey.loadDefault true) encryptedJson

def quiet : Env := ⟨0, fun _ => true, none, .ok, .ok⟩

/-- The unit after its first start. -/
def fresh : Server where
  system := ⟨some ⟨unit.systemDefault, none⟩, fun _ => [], none, unit.systemDefault⟩
  encrypted := ⟨none, fun _ => [], none, unit.encryptedDefault⟩

/-- Mount, subscribe to Developer Mode and reset. -/
def mountAndReset : List (Env × Message) :=
  [(quiet, .fileSystemEvent .appData .mounted), (quiet, .subscribeEncrypted .developerMode 1 1),
    (quiet, .resetSettings)]

theorem mountAndReset_heard : AllHeard unit fresh mountAndReset := by
  refine ⟨trivial, trivial, ⟨?_, ?_⟩, trivial⟩
  · rintro _ ⟨⟩ k -
    rfl
  · rintro _ ⟨⟩ k -
    cases k <;> rfl

theorem run_correct_mountAndReset : Agrees (run unit fresh mountAndReset) :=
  (run_correct (show new unit none none none = .ok fresh from rfl) mountAndReset).2.2.2
    mountAndReset_heard

/-- Subscribe to a setting, change it and reset. -/
def changeAndReset : List (Env × Message) :=
  [(quiet, .subscribeSystem .showSecurityWords 1 1),
    (quiet, .setSystem .showSecurityWords (some true)), (quiet, .resetSettings)]

/-- The subscriber still holds the value from before the reset. -/
theorem reset_is_not_sent :
    (run unit fresh changeAndReset).system.get .showSecurityWords = some false ∧
      (run unit fresh changeAndReset).system.subscriptions .showSecurityWords =
        [⟨1, 1, some true⟩] :=
  ⟨rfl, rfl⟩

end Server

end Settings
