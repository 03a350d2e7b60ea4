import Mathlib

/-!
# The settings server

The settings are in two stores, each with one file. The system store is loaded at the start,
the encrypted one when its volume is mounted. Clients set and read single settings, and
subscribe to them.

A store is modelled once, over its keys and the types of their values: the macros expand to the
same code for each setting, and what they do to a system setting is what they do to an
encrypted one whose store is loaded. `read` and `write` of a file are all-or-nothing, and a
write that fails may have written the file all the same. Each subscription carries the value it
was last sent, and each store the values that its clients last saw set.
-/

namespace Settings

/-! ## 1. Files -/

/-- JSON text as `serde_json` reads and writes it: the fields of an object that it finds, and
nothing for a text that is no object or holds a field of another type. -/
structure Serde {K : Type} (V : K → Type) where
  toVec : (∀ k, V k) → Option (List UInt8)
  fields : List UInt8 → Option (∀ k, Option (V k))
  fields_toVec : ∀ values data, toVec values = some data → fields data = some fun k => some (values k)

inductive FsError where
  | fileNotFound
  | other (code : Nat)
deriving DecidableEq

/-- `durable_file_read`, which may fail with another error than a missing file. -/
def durableFileRead (readError : Option Nat) (content : Option (List UInt8)) :
    Except FsError (List UInt8) :=
  match readError with
  | some code => .error (.other code)
  | none =>
    match content with
    | some data => .ok data
    | none => .error .fileNotFound

/-- How `durable_file_write` ends. -/
inductive WriteOutcome where
  | ok
  | failed (written : Bool)
deriving DecidableEq

/-- `DIRTY_TIMEOUT`, in milliseconds -/
def DIRTY_TIMEOUT : Nat := 2000

structure SettingFile {K : Type} (V : K → Type) where
  settings : ∀ k, V k
  /-- The oldest time the file was written to -/
  dirty : Option Nat

variable {K : Type} {V : K → Type}

/-- `serde_json::from_slice`, where a field that is missing gets its default. -/
def Serde.fromSlice (serde : Serde V) (default : ∀ k, V k) (data : List UInt8) :
    Option (∀ k, V k) :=
  (serde.fields data).map fun found k => (found k).getD (default k)

/-- What a client is to read once the file is loaded: its field, or the default of a field that
it lacks. -/
def loaded (serde : Serde V) (default : ∀ k, V k) (content : Option (List UInt8)) (k : K) : V k :=
  match content.bind serde.fields with
  | some found => (found k).getD (default k)
  | none => default k

namespace SettingFile

def new (serde : Serde V) (default : ∀ k, V k) :
    Except FsError (List UInt8) → Except FsError (SettingFile V)
  | .ok data => .ok ⟨(serde.fromSlice default data).getD default, none⟩
  -- Nothing has been saved yet
  | .error .fileNotFound => .ok ⟨default, none⟩
  | .error e => .error e

def markDirty (file : SettingFile V) (now : Nat) : SettingFile V :=
  { file with dirty := some (file.dirty.getD now) }

def shouldFlush (file : SettingFile V) (now : Nat) (force : Bool) : Bool :=
  match file.dirty with
  | some dirty => force || decide (DIRTY_TIMEOUT < now - dirty)
  | none => false

/-- The file and its content afterwards. An error is only logged. -/
def flushSettings (serde : Serde V) (outcome : WriteOutcome) (file : SettingFile V)
    (content : Option (List UInt8)) : SettingFile V × Option (List UInt8) :=
  match serde.toVec file.settings with
  | none => (file, content)
  | some data =>
    match outcome with
    | .ok => ({ file with dirty := none }, some data)
    | .failed written => (file, if written then some data else content)

end SettingFile

/-! ## 2. Subscriptions -/

structure Subscription (α : Type) where
  cid : Nat
  id : Nat
  /-- What it was last sent -/
  sent : Option α
deriving DecidableEq

/-- The subscribers that a value reaches keep their subscriptions. -/
def sendAll {α : Type} (delivers : Nat → Bool) (value : α) (subscriptions : List (Subscription α)) :
    List (Subscription α) :=
  (subscriptions.filter fun s => delivers s.id).map fun s => { s with sent := some value }

/-! ## 3. A store -/

/-- One store, its subscriptions and the content of its file. -/
structure Side {K : Type} (V : K → Type) where
  /-- Nothing while the store is not loaded -/
  file : Option (SettingFile V)
  subscriptions : ∀ k, List (Subscription (V k))
  content : Option (List UInt8)
  /-- What was last set or reset, or else what was to be loaded -/
  last : ∀ k, V k

/-- What a handler meets outside: the time, the sends that fail and how the files answer. -/
structure Env where
  /-- In milliseconds -/
  now : Nat
  delivers : Nat → Bool
  /-- An error of `durable_file_read` other than a missing file -/
  readError : Option Nat
  systemWrite : WriteOutcome
  encryptedWrite : WriteOutcome

namespace Side

variable [DecidableEq K]

/-- `get_value!` -/
def get (side : Side V) (k : K) : Option (V k) := side.file.map fun file => file.settings k

/-- `set_value!` -/
def set (env : Env) (k : K) (value : V k) (side : Side V) : Side V :=
  match side.file with
  | some file =>
    { side with
      file := some { file.markDirty env.now with settings := Function.update file.settings k value }
      subscriptions := Function.update side.subscriptions k
        (sendAll env.delivers value (side.subscriptions k))
      last := Function.update side.last k value }
  -- "global setting set called without encrypted partition being mounted"
  | none => side

/-- `subscribe_value!` -/
def subscribe (env : Env) (k : K) (cid id : Nat) (side : Side V) : Side V :=
  let add (sent : Option (V k)) : Side V :=
    { side with
      subscriptions :=
        Function.update side.subscriptions k (side.subscriptions k ++ [⟨cid, id, sent⟩]) }
  match side.file with
  | some file => if env.delivers id then add (some (file.settings k)) else side
  -- Store subscriber to be notified when partition mounts
  | none => add none

/-- The assignment of `Default::default()` in `ResetSettings`. -/
def reset (default : ∀ k, V k) (env : Env) (side : Side V) : Side V :=
  match side.file with
  | some file =>
    { side with file := some { file.markDirty env.now with settings := default }, last := default }
  | none => side

/-- `flush_dirty_files`, for this store. -/
def flush (serde : Serde V) (outcome : WriteOutcome) (now : Nat) (force : Bool) (side : Side V) :
    Side V :=
  match side.file with
  | some file =>
    if file.shouldFlush now force then
      { side with
        file := some (file.flushSettings serde outcome side.content).1
        content := (file.flushSettings serde outcome side.content).2 }
    else side
  | none => side

/-- `remove_cid` -/
def removeCid (cid : Nat) (side : Side V) : Side V :=
  { side with subscriptions := fun k => (side.subscriptions k).filter fun s => s.cid ≠ cid }

/-- `try_mount_encrypted`. A load that fails is only logged. -/
def tryMount (serde : Serde V) (default : ∀ k, V k) (env : Env) (side : Side V) : Side V :=
  match side.file with
  | some _ => side
  | none =>
    match SettingFile.new serde default (durableFileRead env.readError side.content) with
    | .ok file =>
      { side with file := some file, last := loaded serde default side.content }
    | .error _ => side

/-- An assignment that nobody is told of: `set_value!` without the subscribers. -/
def assign (env : Env) (k : K) (value : V k) (side : Side V) : Side V :=
  match side.file with
  | some file =>
    { side with
      file := some { file.markDirty env.now with settings := Function.update file.settings k value }
      last := Function.update side.last k value }
  | none => side

/-- `notify_encrypted_subscribers` -/
def notifySubscribers (env : Env) (side : Side V) : Side V :=
  match side.file with
  | some file =>
    { side with
      subscriptions := fun k => sendAll env.delivers (file.settings k) (side.subscriptions k) }
  | none => side

end Side

/-! ## 4. The registry -/

inductive SystemTheme where
  | dark
  | light
deriving DecidableEq

inductive Locale where
  | englishUS
deriving DecidableEq

structure Duration where
  secs : Nat
  nanos : Nat
deriving DecidableEq

structure TimeZone where
  name : String
  data : List UInt8
deriving DecidableEq

inductive AirlockMode where
  | disabled
  | readOnly
  | readWrite
deriving DecidableEq

inductive OnboardingStatus where
  | notComplete
  | complete
deriving DecidableEq

inductive SystemKey where
  | systemTheme
  | screenBrightness
  | locale
  | deviceName
  | showSecurityWords
  | autoLock
  | envoyTimeSync
  | useStandardTimeFormat
  | timeZone
  | debugTouch
  | airlockMode
  | touchOffset
  | magicBackupEnabled
  | nfcEnabled
  | bluetoothEnabled
  | cameraEnabled
  | usbEnabled
deriving DecidableEq

instance : Fintype SystemKey where
  elems := {.systemTheme, .screenBrightness, .locale, .deviceName, .showSecurityWords, .autoLock,
    .envoyTimeSync, .useStandardTimeFormat, .timeZone, .debugTouch, .airlockMode, .touchOffset,
    .magicBackupEnabled, .nfcEnabled, .bluetoothEnabled, .cameraEnabled, .usbEnabled}
  complete k := by cases k <;> decide

def SystemKey.Value : SystemKey → Type
  | .systemTheme => SystemTheme
  | .screenBrightness => UInt8
  | .locale => Locale
  | .deviceName => String
  | .autoLock => Duration
  | .timeZone => TimeZone
  | .airlockMode => AirlockMode
  | .touchOffset => Int32
  | .showSecurityWords | .envoyTimeSync | .useStandardTimeFormat | .debugTouch
  | .magicBackupEnabled | .nfcEnabled | .bluetoothEnabled | .cameraEnabled | .usbEnabled => Bool

instance SystemKey.decidableEqValue : ∀ k : SystemKey, DecidableEq k.Value
  | .systemTheme => inferInstanceAs (DecidableEq SystemTheme)
  | .screenBrightness => inferInstanceAs (DecidableEq UInt8)
  | .locale => inferInstanceAs (DecidableEq Locale)
  | .deviceName => inferInstanceAs (DecidableEq String)
  | .autoLock => inferInstanceAs (DecidableEq Duration)
  | .timeZone => inferInstanceAs (DecidableEq TimeZone)
  | .airlockMode => inferInstanceAs (DecidableEq AirlockMode)
  | .touchOffset => inferInstanceAs (DecidableEq Int32)
  | .showSecurityWords | .envoyTimeSync | .useStandardTimeFormat | .debugTouch
  | .magicBackupEnabled | .nfcEnabled | .bluetoothEnabled | .cameraEnabled | .usbEnabled =>
    inferInstanceAs (DecidableEq Bool)

/-- `load_default`, of the colour of the device and the time zone data of New York -/
def SystemKey.loadDefault (primeColor : SystemTheme) (newYork : List UInt8) :
    ∀ k : SystemKey, k.Value
  | .systemTheme => primeColor
  | .screenBrightness => (70 : UInt8)
  | .locale => Locale.englishUS
  | .deviceName => "Passport Prime"
  | .showSecurityWords => false
  | .autoLock => (⟨300, 0⟩ : Duration)
  | .envoyTimeSync => true
  | .useStandardTimeFormat => false
  | .timeZone => (⟨"America/New_York", newYork⟩ : TimeZone)
  | .debugTouch => false
  | .airlockMode => AirlockMode.readWrite
  | .touchOffset => (-30 : Int32)
  | .magicBackupEnabled => true
  | .nfcEnabled => true
  | .bluetoothEnabled => true
  | .cameraEnabled => true
  | .usbEnabled => true

inductive EncryptedKey where
  | onboardingStatus
  | developerMode
deriving DecidableEq

instance : Fintype EncryptedKey where
  elems := {.onboardingStatus, .developerMode}
  complete k := by cases k <;> decide

def EncryptedKey.Value : EncryptedKey → Type
  | .onboardingStatus => OnboardingStatus
  | .developerMode => Bool

instance EncryptedKey.decidableEqValue : ∀ k : EncryptedKey, DecidableEq k.Value
  | .onboardingStatus => inferInstanceAs (DecidableEq OnboardingStatus)
  | .developerMode => inferInstanceAs (DecidableEq Bool)

/-- The build and the device, with the code for the two files. -/
structure Config where
  /-- `cfg!(feature = "production")` -/
  production : Bool
  /-- The colour of the device, from its fuses -/
  primeColor : SystemTheme
  /-- The data of `jiff_tzdb` for New York -/
  newYork : List UInt8
  systemSerde : Serde SystemKey.Value
  encryptedSerde : Serde EncryptedKey.Value

def EncryptedKey.loadDefault (production : Bool) : ∀ k : EncryptedKey, k.Value
  | .onboardingStatus => OnboardingStatus.notComplete
  | .developerMode => !production

def Config.systemDefault (cfg : Config) : ∀ k : SystemKey, k.Value :=
  SystemKey.loadDefault cfg.primeColor cfg.newYork

def Config.encryptedDefault (cfg : Config) : ∀ k : EncryptedKey, k.Value :=
  EncryptedKey.loadDefault cfg.production

/-! ## 5. The server -/

structure Server where
  system : Side SystemKey.Value
  encrypted : Side EncryptedKey.Value

inductive Location where
  | appData
  | other
deriving DecidableEq

inductive FileSystemEventType where
  | mounted
  | unmounted
  | error
deriving DecidableEq

/-- A set that cannot be deserialized has no value. -/
inductive Message where
  | setSystem (k : SystemKey) (value : Option k.Value)
  | setEncrypted (k : EncryptedKey) (value : Option k.Value)
  | getSystem (k : SystemKey)
  | getEncrypted (k : EncryptedKey)
  | subscribeSystem (k : SystemKey) (cid id : Nat)
  | subscribeEncrypted (k : EncryptedKey) (cid id : Nat)
  | resetSettings
  | flushAll (force : Bool)
  | subscriberDisconnected (cid : Nat)
  | fileSystemEvent (location : Location) (eventType : FileSystemEventType)

namespace Server

/-- `Store::default`, which needs the system settings. -/
def new (cfg : Config) (system encrypted : Option (List UInt8)) (readError : Option Nat) :
    Except FsError Server :=
  match SettingFile.new cfg.systemSerde cfg.systemDefault (durableFileRead readError system) with
  | .ok file => .ok
    { system := ⟨some file, fun _ => [], system, loaded cfg.systemSerde cfg.systemDefault system⟩
      encrypted := ⟨none, fun _ => [], encrypted, cfg.encryptedDefault⟩ }
  | .error e => .error e

def flushDirtyFiles (cfg : Config) (env : Env) (force : Bool) (s : Server) : Server :=
  { system := s.system.flush cfg.systemSerde env.systemWrite env.now force
    encrypted := s.encrypted.flush cfg.encryptedSerde env.encryptedWrite env.now force }

/-- Developer Mode must not survive a power cycle on production firmware. -/
def clearDeveloperMode (env : Env) (side : Side EncryptedKey.Value) : Side EncryptedKey.Value :=
  match side.get .developerMode with
  | some true => side.assign env .developerMode false
  | _ => side

def handleMounted (cfg : Config) (env : Env) (s : Server) : Server :=
  let encrypted := s.encrypted.tryMount cfg.encryptedSerde cfg.encryptedDefault env
  let encrypted := if cfg.production then clearDeveloperMode env encrypted else encrypted
  { s with encrypted := encrypted.notifySubscribers env }

def handle (cfg : Config) (env : Env) (s : Server) : Message → Server
  | .setSystem k (some value) => { s with system := s.system.set env k value }
  | .setEncrypted k (some value) => { s with encrypted := s.encrypted.set env k value }
  | .setSystem _ none | .setEncrypted _ none | .getSystem _ | .getEncrypted _ => s
  | .subscribeSystem k cid id => { s with system := s.system.subscribe env k cid id }
  | .subscribeEncrypted k cid id => { s with encrypted := s.encrypted.subscribe env k cid id }
  | .resetSettings => flushDirtyFiles cfg env true
    { system := s.system.reset cfg.systemDefault env
      encrypted := s.encrypted.reset cfg.encryptedDefault env }
  | .flushAll force => s.flushDirtyFiles cfg env force
  | .subscriberDisconnected cid =>
    { system := s.system.removeCid cid, encrypted := s.encrypted.removeCid cid }
  | .fileSystemEvent .appData .mounted => s.handleMounted cfg env
  | .fileSystemEvent _ _ => s

end Server

end Settings
