import KeyOS.Lib.Exec
import KeyOS.Names.Server

/-!
# Owners of server names

The name server keeps what the accepted manifests declare in three tables: who owns a name,
who may register it, and the number of each message. `Declared` says that they hold what the
most recently accepted manifests say, and nothing else.
-/

namespace Names

open Manifests Exec

/-! ## 1. Runs -/

def track (manifests : AppId → Option Manifest) : Event → AppId → Option Manifest
  | .accepted manifest => Function.update manifests manifest.appId (some manifest)
  | .removed appId => Function.update manifests appId none
  | .answered _ _ => manifests
  | .granted _ => manifests
  | .registered _ _ _ _ _ => manifests

/-- The manifest most recently accepted for each app, unless it was removed since. -/
def accepted (log : List Event) : AppId → Option Manifest := log.foldl track fun _ => none

def answeredMsg : Event → Option MessageEnvelope
  | .answered msg _ => some msg
  | .granted _ => none
  | .registered _ _ _ _ _ => none
  | .accepted _ => none
  | .removed _ => none

/-- The messages answered, each as often as it was answered. -/
def answers (log : List Event) : List MessageEnvelope := log.filterMap answeredMsg

/-- The sender of the message waits for an answer. -/
def Owed (msg : MessageEnvelope) : Prop :=
  msg.id ≠ PROCESS_DISCONNECTED_MESSAGE_ID ∧ msg.body.isBlocking = true

instance (msg : MessageEnvelope) : Decidable (Owed msg) := inferInstanceAs (Decidable (_ ∧ _))

/-- The name server with its history. -/
structure World where
  server : NameServer
  log : List Event
  /-- The messages received so far that are owed an answer. -/
  received : List MessageEnvelope

namespace World

/-- The name server that has loaded the system manifests. -/
def load (manifests : List Manifest) : Except Error World := do
  let server ← NameServer.default.processSystemManifests manifests
  return ⟨server, manifests.map .accepted, []⟩

variable (tryFromBytes : List UInt8 → Option Manifest)

def step (w : World) (r : NameServer.Received) : Except Panic World := do
  let (server, events) ← w.server.step tryFromBytes r
  return ⟨server, w.log ++ events, w.received ++ if Owed r.msg then [r.msg] else []⟩

def run : World → List NameServer.Received → Except Panic World
  | w, [] => .ok w
  | w, r :: rs => do
    let w ← w.step tryFromBytes r
    w.run rs

end World

theorem accepted_append (log events : List Event) :
    accepted (log ++ events) = events.foldl track (accepted log) :=
  List.foldl_append

@[simp] theorem answers_append (log events : List Event) :
    answers (log ++ events) = answers log ++ answers events :=
  List.filterMap_append

/-- Events that edit no manifest. -/
def Quiet (events : List Event) : Prop :=
  ∀ event ∈ events, (∃ msg response, event = .answered msg response) ∨ ∃ grant, event = .granted grant

theorem Quiet.foldl_track {events : List Event} (h : Quiet events)
    (manifests : AppId → Option Manifest) : events.foldl track manifests = manifests := by
  induction events with
  | nil => rfl
  | cons event events ih =>
    have hrest : Quiet events := fun e he => h e (List.mem_cons_of_mem _ he)
    rcases h event List.mem_cons_self with ⟨msg, response, rfl⟩ | ⟨grant, rfl⟩
    · exact ih hrest
    · exact ih hrest

theorem Quiet.accepted {events : List Event} (h : Quiet events) (log : List Event) :
    accepted (log ++ events) = accepted log := by
  rw [accepted_append, h.foldl_track]

theorem Quiet.append {events more : List Event} (h : Quiet events) (h' : Quiet more) :
    Quiet (events ++ more) := by
  intro event he
  rcases List.mem_append.1 he with he | he
  · exact h event he
  · exact h' event he

/-! ## 2. The tables of the manifests -/

/-- The tables hold what the manifests declare. -/
structure Declared (s : NameServer) (manifests : AppId → Option Manifest) : Prop where
  appId : ∀ a m, manifests a = some m → m.appId = a
  owners : ∀ name a, s.serverOwners name = some a ↔
    ∃ m, manifests a = some m ∧ name ∈ m.serverNames
  registers : ∀ a, s.registerPermissions a =
    (manifests a).map fun m => m.servers.keys.toFinset
  numbers : ∀ name msg ids, s.messageNameToId (name, msg) = some ids ↔
    ∃ a m message, manifests a = some m ∧ m.message? name msg = some message ∧ ids = [message.id]

theorem mem_serverNames {m : Manifest} {name : String} :
    name ∈ m.serverNames ↔ name ∈ m.servers.keys ∨ name ∈ m.fixedSids.keys := by
  rw [Manifest.serverNames, List.mem_toFinset, List.mem_append]

theorem serverName_of_message {m : Manifest} {name msg : String} {message : Message}
    (h : m.message? name msg = some message) : name ∈ m.serverNames := by
  obtain ⟨messages, hget, -⟩ := Option.bind_eq_some_iff.1 h
  exact mem_serverNames.2 (.inl (SortedMap.mem_keys.2 ⟨messages, SortedMap.mem_of_get? hget⟩))

theorem fixedSid_eq_none {m : Manifest} (h : m.fixedSids.entries = []) (name : String) :
    NameServer.fixedSid m name = none := by
  unfold NameServer.fixedSid SortedMap.get?
  rw [h]
  rfl

theorem declared_default : Declared NameServer.default fun _ => none where
  appId := nofun
  owners _ _ := ⟨nofun, fun ⟨_, h, _⟩ => nomatch h⟩
  registers _ := rfl
  numbers _ _ _ := ⟨nofun, fun ⟨_, _, _, h, _⟩ => nomatch h⟩

namespace NameServer

variable {s s' : NameServer} {manifest : Manifest}

theorem processManifestServers_ok (h : s.processManifestServers manifest = .ok s') :
    (∀ name ∈ manifest.serverNames, ¬ s.Collides manifest.appId name) ∧
    s' = { s with
      messageNameToId := s'.messageNameToId
      serverOwners := s'.serverOwners
      nameTable := fun name => (fixedSid manifest name).or (s.nameTable name)
      registerPermissions := s'.registerPermissions } := by
  obtain ⟨_, hreject, h⟩ := bind_eq_ok.1 h
  cases h
  unfold rejectServerNameCollisions at hreject
  split at hreject
  · cases hreject
  · next hno => exact ⟨fun name hn hc => hno ⟨name, hn, hc⟩, rfl⟩

theorem serverPermissions_ok {serverName : String} {messages : List String}
    {before permissions : List MessageId}
    (h : s.serverPermissions serverName messages before = .ok permissions) :
    ∀ id ∈ permissions, id ∈ before ∨ ∃ messageName ∈ messages, ∃ ids,
      s.messageNameToId (serverName, messageName) = some ids ∧ id ∈ ids := by
  induction messages generalizing before with
  | nil =>
    cases h
    exact fun id hid => .inl hid
  | cons messageName messages ih =>
    unfold serverPermissions at h
    split at h
    · cases h
    · next ids hids =>
      intro id hid
      rcases ih h id hid with hid | ⟨messageName', hmem, hfound⟩
      · rcases List.mem_append.1 hid with hid | hid
        · exact .inl hid
        · exact .inr ⟨messageName, List.mem_cons_self, ids, hids, hid⟩
      · exact .inr ⟨messageName', List.mem_cons_of_mem _ hmem, hfound⟩

/-- Each permission is the number of a message that is listed. -/
theorem appPermissions_ok {entries : List (String × SortedSet String)}
    {before permissions : String → Option (List MessageId)}
    (h : s.appPermissions entries before = .ok permissions) :
    ∀ serverName ids, permissions serverName = some ids → ∀ id ∈ ids,
      (∃ ids', before serverName = some ids' ∧ id ∈ ids') ∨
      ∃ messages, (serverName, messages) ∈ entries ∧ ∃ messageName ∈ messages.elements, ∃ ids',
        s.messageNameToId (serverName, messageName) = some ids' ∧ id ∈ ids' := by
  induction entries generalizing before with
  | nil =>
    cases h
    exact fun serverName ids hids id hid => .inl ⟨ids, hids, hid⟩
  | cons entry entries ih =>
    obtain ⟨entryName, messages⟩ := entry
    obtain ⟨entryIds, hentry, h⟩ := bind_eq_ok.1 h
    intro serverName ids hids id hid
    rcases ih h serverName ids hids id hid with ⟨ids', hids', hid'⟩ | ⟨messages', hmem, hfound⟩
    · rcases eq_or_ne serverName entryName with rfl | hne
      · rw [Function.update_self] at hids'
        cases hids'
        rw [List.mem_insertionSort] at hid'
        rcases serverPermissions_ok hentry id hid' with hold | hfound
        · cases hb : before serverName with
          | none =>
            rw [hb] at hold
            exact absurd hold (List.not_mem_nil)
          | some old =>
            rw [hb] at hold
            exact .inl ⟨old, rfl, hold⟩
        · exact .inr ⟨messages, List.mem_cons_self, hfound⟩
      · rw [Function.update_of_ne hne] at hids'
        exact .inl ⟨ids', hids', hid'⟩
    · exact .inr ⟨messages', List.mem_cons_of_mem _ hmem, hfound⟩

/-- The connections that a manifest may open once its permissions were looked up in `s`. -/
theorem processManifestPermissions_ok (h : s.processManifestPermissions manifest = .ok s') :
    ∃ permissions : String → Option (List MessageId),
      s' = { s with
        connectPermissions := Function.update s.connectPermissions manifest.appId (some permissions) } ∧
      ∀ serverName ids, permissions serverName = some ids → ∀ id ∈ ids, ∃ messageName ids',
        manifest.Lists serverName messageName ∧
        s.messageNameToId (serverName, messageName) = some ids' ∧ id ∈ ids' := by
  obtain ⟨permissions, hperm, h⟩ := bind_eq_ok.1 h
  cases h
  refine ⟨permissions, rfl, fun serverName ids hids id hid => ?_⟩
  rcases appPermissions_ok hperm serverName ids hids id hid with ⟨_, hnone, _⟩ | hfound
  · cases hnone
  · obtain ⟨messages, hmem, messageName, hmsg, ids', hids', hid'⟩ := hfound
    exact ⟨messageName, ids', ⟨messages, hmem, hmsg⟩, hids', hid'⟩

end NameServer

variable {s s' : NameServer} {manifest : Manifest} {manifests : AppId → Option Manifest}

theorem Declared.not_collides (h : Declared s manifests) {name : String} {a b : AppId} {m : Manifest}
    (hno : ¬ s.Collides a name) (hb : manifests b = some m) (hname : name ∈ m.serverNames) : b = a := by
  by_contra hne
  exact hno (.inl ⟨b, (h.owners name b).2 ⟨m, hb, hname⟩, hne⟩)

theorem Declared.servers (h : Declared s manifests)
    (hok : s.processManifestServers manifest = .ok s') :
    Declared s' (Function.update manifests manifest.appId (some manifest)) := by
  obtain ⟨hno, -⟩ := NameServer.processManifestServers_ok hok
  obtain ⟨_, -, hok⟩ := bind_eq_ok.1 hok
  cases hok
  constructor
  · intro a m hm
    rcases eq_or_ne a manifest.appId with rfl | hne
    · rw [Function.update_self] at hm
      cases hm
      rfl
    · rw [Function.update_of_ne hne] at hm
      exact h.appId a m hm
  · intro name a
    dsimp only
    rcases eq_or_ne a manifest.appId with rfl | hne
    · rw [Function.update_self]
      split
      · next hin => exact ⟨fun _ => ⟨manifest, rfl, hin⟩, fun _ => rfl⟩
      · next hout =>
        refine ⟨fun heq => ?_, ?_⟩
        · split at heq
          · cases heq
          · next howner => exact absurd heq howner
        · rintro ⟨m, heq, hm⟩
          cases heq
          exact absurd hm hout
    · rw [Function.update_of_ne hne]
      split
      · next hin =>
        refine ⟨fun heq => absurd (Option.some.inj heq).symm hne, ?_⟩
        rintro ⟨m, hm, hname⟩
        exact absurd (h.not_collides (hno name hin) hm hname) hne
      · split
        · next howner =>
          refine ⟨nofun, fun hex => ?_⟩
          have := (h.owners name a).2 hex
          exact absurd (Option.some.inj (this.symm.trans howner)) hne
        · exact h.owners name a
  · intro a
    rcases eq_or_ne a manifest.appId with rfl | hne
    · simp only [Function.update_self, Option.map_some]
    · simp only [Function.update_of_ne hne, h.registers a]
  · intro name msg ids
    dsimp only
    have hother : ∀ b m message, b ≠ manifest.appId → manifests b = some m →
        m.message? name msg = some message → ¬ s.Replaced manifest name := by
      rintro b m message hne hm hmessage (howner | hin)
      · have hname := serverName_of_message hmessage
        have := (h.owners name b).2 ⟨m, hm, hname⟩
        exact hne (Option.some.inj (this.symm.trans howner))
      · exact hne (h.not_collides (hno name hin) hm (serverName_of_message hmessage))
    split
    · next message hmessage =>
      refine ⟨fun heq => ?_, ?_⟩
      · exact ⟨manifest.appId, manifest, message, Function.update_self .., hmessage,
          (Option.some.inj heq).symm⟩
      · rintro ⟨b, m, message', hm, hmessage', rfl⟩
        rcases eq_or_ne b manifest.appId with rfl | hne
        · rw [Function.update_self] at hm
          cases hm
          rw [hmessage] at hmessage'
          cases hmessage'
          rfl
        · rw [Function.update_of_ne hne] at hm
          exact absurd (.inr (serverName_of_message hmessage)) (hother b m message' hne hm hmessage')
    · next hmessage =>
      split
      · next hrep =>
        refine ⟨nofun, ?_⟩
        rintro ⟨b, m, message', hm, hmessage', rfl⟩
        rcases eq_or_ne b manifest.appId with rfl | hne
        · rw [Function.update_self] at hm
          cases hm
          rw [hmessage] at hmessage'
          cases hmessage'
        · rw [Function.update_of_ne hne] at hm
          exact absurd hrep (hother b m message' hne hm hmessage')
      · next hrep =>
        rw [h.numbers]
        constructor
        · rintro ⟨b, m, message', hm, hmessage', rfl⟩
          have hne : b ≠ manifest.appId := by
            rintro rfl
            exact hrep (.inl ((h.owners name _).2 ⟨m, hm, serverName_of_message hmessage'⟩))
          exact ⟨b, m, message', by rwa [Function.update_of_ne hne], hmessage', rfl⟩
        · rintro ⟨b, m, message', hm, hmessage', rfl⟩
          rcases eq_or_ne b manifest.appId with rfl | hne
          · rw [Function.update_self] at hm
            cases hm
            rw [hmessage] at hmessage'
            cases hmessage'
          · rw [Function.update_of_ne hne] at hm
            exact ⟨b, m, message', hm, hmessage', rfl⟩

/-- The three tables do not depend on the others. -/
theorem Declared.congr (h : Declared s manifests) (howners : s'.serverOwners = s.serverOwners)
    (hregisters : s'.registerPermissions = s.registerPermissions)
    (hnumbers : s'.messageNameToId = s.messageNameToId) : Declared s' manifests where
  appId := h.appId
  owners := by
    rw [howners]
    exact h.owners
  registers := by
    rw [hregisters]
    exact h.registers
  numbers := by
    rw [hnumbers]
    exact h.numbers

theorem NameServer.processManifestUpdate_ok (h : s.processManifestUpdate manifest = .ok s') :
    ∃ staged permissions, s.processManifestServers manifest = .ok staged ∧
      s' = { staged with
        connectPermissions := Function.update s.connectPermissions manifest.appId (some permissions) } ∧
      ∀ serverName ids, permissions serverName = some ids → ∀ id ∈ ids, ∃ messageName ids',
        manifest.Lists serverName messageName ∧
        staged.messageNameToId (serverName, messageName) = some ids' ∧ id ∈ ids' := by
  obtain ⟨staged₀, hservers, h⟩ := bind_eq_ok.1 h
  obtain ⟨staged₁, hperm, h⟩ := bind_eq_ok.1 h
  cases h
  obtain ⟨permissions, rfl, hlisted⟩ := processManifestPermissions_ok hperm
  obtain ⟨_, hreject, hservers⟩ := bind_eq_ok.1 hservers
  cases hservers
  refine ⟨_, permissions, bind_eq_ok.2 ⟨(), hreject, rfl⟩, rfl, hlisted⟩

theorem Declared.update (h : Declared s manifests) (hok : s.processManifestUpdate manifest = .ok s') :
    Declared s' (Function.update manifests manifest.appId (some manifest)) := by
  obtain ⟨staged, permissions, hservers, rfl, -⟩ := NameServer.processManifestUpdate_ok hok
  exact (h.servers hservers).congr rfl rfl rfl

theorem Declared.remove (h : Declared s manifests) (a : AppId) :
    Declared (s.removeManifest a) (Function.update manifests a none) := by
  constructor
  · intro b m hm
    rcases eq_or_ne b a with rfl | hne
    · rw [Function.update_self] at hm
      cases hm
    · rw [Function.update_of_ne hne] at hm
      exact h.appId b m hm
  · intro name b
    dsimp only [NameServer.removeManifest]
    rcases eq_or_ne b a with rfl | hne
    · rw [Function.update_self]
      refine ⟨fun heq => ?_, fun ⟨m, hm, _⟩ => nomatch hm⟩
      split at heq
      · cases heq
      · next hno => exact absurd heq hno
    · rw [Function.update_of_ne hne]
      split
      · next howner =>
        refine ⟨nofun, fun hex => ?_⟩
        have := (h.owners name b).2 hex
        exact absurd (Option.some.inj (this.symm.trans howner)) hne
      · exact h.owners name b
  · intro b
    dsimp only [NameServer.removeManifest]
    rcases eq_or_ne b a with rfl | hne
    · simp only [Function.update_self, Option.map_none]
    · simp only [Function.update_of_ne hne, h.registers b]
  · intro name msg ids
    dsimp only [NameServer.removeManifest]
    split
    · next howner =>
      refine ⟨nofun, ?_⟩
      rintro ⟨b, m, message, hm, hmessage, rfl⟩
      rcases eq_or_ne b a with rfl | hne
      · rw [Function.update_self] at hm
        cases hm
      · rw [Function.update_of_ne hne] at hm
        have := (h.owners name b).2 ⟨m, hm, serverName_of_message hmessage⟩
        exact absurd (Option.some.inj (this.symm.trans howner)) hne
    · next howner =>
      rw [h.numbers]
      refine exists_congr fun b => exists_congr fun m => exists_congr fun message => ?_
      rcases eq_or_ne b a with rfl | hne
      · rw [Function.update_self]
        refine ⟨fun ⟨hm, hmessage, _⟩ => ?_, fun ⟨hm, _⟩ => nomatch hm⟩
        exact absurd ((h.owners name b).2 ⟨m, hm, serverName_of_message hmessage⟩) howner
      · rw [Function.update_of_ne hne]

end Names
