import KeyOS.Names.NameTable

/-!
# Message numbers of a connection

The names of the messages that an app may send are turned into numbers when its manifest is
accepted, and the numbers are kept with the app. They stay right for as long as no later manifest
gives such a message another number.
-/

namespace Names

open Manifests Exec NameServer

/-! ## 1. Numbers that are up to date -/

/-- The app lists a message of the server, and the owner of the server declares that message with
this number. -/
def Fresh (w : World) (appId : AppId) (serverName : String) (id : MessageId) : Prop :=
  ∃ m messageName, accepted w.log appId = some m ∧ m.Lists serverName messageName ∧
    ∃ owner m' message, w.server.serverOwners serverName = some owner ∧
      accepted w.log owner = some m' ∧ m'.message? serverName messageName = some message ∧
      message.id = id

/-- Whatever number another app was given for a message of this app still belongs to a message
that the other app lists. `new` is what replaces the manifest of the app. -/
def KeepsNumbers (w : World) (appId : AppId) (new : Option Manifest) : Prop :=
  ∀ old other m serverName messageName message, accepted w.log appId = some old →
    other ≠ appId → accepted w.log other = some m → m.Lists serverName messageName →
    old.message? serverName messageName = some message →
    ∃ m' messageName' message', new = some m' ∧ m.Lists serverName messageName' ∧
      m'.message? serverName messageName' = some message' ∧ message'.id = message.id

/-- A request that is accepted keeps the numbers given to other apps. -/
def Careful (tryFromBytes : List UInt8 → Option Manifest) (w : World) (r : Received) : Prop :=
  (Opcode.fromUsize r.msg.id = some .addManifest → ∀ s' manifest,
    w.server.addManifestImpl tryFromBytes (r.kernels 0) r.msg = .ok (s', manifest) →
    KeepsNumbers w manifest.appId (some manifest)) ∧
  (Opcode.fromUsize r.msg.id = some .removeManifest → ∀ s' appId,
    w.server.removeManifestImpl (r.kernels 0) r.msg = .ok (s', appId) →
    KeepsNumbers w appId none)

/-- A run whose steps are all careful in the states that they find. -/
def CarefulRun (tryFromBytes : List UInt8 → Option Manifest) : World → List Received → Prop
  | _, [] => True
  | w, r :: rs => Careful tryFromBytes w r ∧
    ∀ w', w.step tryFromBytes r = .ok w' → CarefulRun tryFromBytes w' rs

/-- The numbers kept for each app are those that its messages have now. -/
def Numbered (s : NameServer) (manifests : AppId → Option Manifest) : Prop :=
  ∀ appId permissions, s.connectPermissions appId = some permissions →
    ∃ m, manifests appId = some m ∧ ∀ serverName ids, permissions serverName = some ids →
      ∀ id ∈ ids, ∃ messageName, m.Lists serverName messageName ∧
        s.messageNameToId (serverName, messageName) = some [id]

variable {s s' : NameServer} {w w' : World} {manifest : Manifest}
  {manifests : AppId → Option Manifest} {tryFromBytes : List UInt8 → Option Manifest} {r : Received}

theorem Numbered.congr (h : Numbered s manifests)
    (hperms : s'.connectPermissions = s.connectPermissions)
    (hnumbers : s'.messageNameToId = s.messageNameToId) : Numbered s' manifests := by
  intro appId permissions hp
  rw [hperms] at hp
  rw [hnumbers]
  exact h appId permissions hp

/-! ## 2. Steps -/

/-- Each message has one number. -/
theorem Declared.number_singleton (h : Declared s manifests) {serverName messageName : String}
    {ids : List MessageId} {id : MessageId}
    (hids : s.messageNameToId (serverName, messageName) = some ids) (hid : id ∈ ids) :
    s.messageNameToId (serverName, messageName) = some [id] := by
  obtain ⟨-, -, message, -, -, heq⟩ := (h.numbers serverName messageName ids).1 hids
  rw [hids, heq]
  rw [heq] at hid
  rw [List.mem_singleton.1 hid]

/-- The permissions of one app are looked up anew, those of the others keep their numbers. -/
theorem Numbered.lookedUp {staged : NameServer} {permissions : String → Option (List MessageId)}
    {declared : AppId → Option Manifest} (hdeclared : Declared staged declared)
    (hlisted : ∀ serverName ids, permissions serverName = some ids → ∀ id ∈ ids,
      ∃ messageName ids', manifest.Lists serverName messageName ∧
        staged.messageNameToId (serverName, messageName) = some ids' ∧ id ∈ ids')
    (hothers : ∀ appId perms, appId ≠ manifest.appId → s.connectPermissions appId = some perms →
      ∃ m, manifests appId = some m ∧ ∀ serverName ids, perms serverName = some ids →
        ∀ id ∈ ids, ∃ messageName, m.Lists serverName messageName ∧
          staged.messageNameToId (serverName, messageName) = some [id]) :
    Numbered { staged with
      connectPermissions := Function.update s.connectPermissions manifest.appId (some permissions) }
      (Function.update manifests manifest.appId (some manifest)) := by
  intro appId perms hperms
  dsimp only at hperms ⊢
  rcases eq_or_ne appId manifest.appId with rfl | hne
  · rw [Function.update_self] at hperms
    cases hperms
    refine ⟨manifest, Function.update_self .., fun serverName ids hids id hid => ?_⟩
    obtain ⟨messageName, ids', hmem, hnumber, hid'⟩ := hlisted serverName ids hids id hid
    exact ⟨messageName, hmem, hdeclared.number_singleton hnumber hid'⟩
  · rw [Function.update_of_ne hne] at hperms
    rw [Function.update_of_ne hne]
    exact hothers appId perms hne hperms

theorem foldlM_numbered {declared : AppId → Option Manifest} {ms : List Manifest}
    (log : List Event) (hdeclared : Declared s declared) (h : Numbered s (accepted log))
    (hok : ms.foldlM processManifestPermissions s = .ok s') :
    Numbered s' (accepted (log ++ ms.map .accepted)) := by
  induction ms generalizing s log with
  | nil =>
    cases hok
    rwa [List.map_nil, List.append_nil]
  | cons m ms ih =>
    obtain ⟨s₁, hm, hok⟩ := bind_eq_ok.1 hok
    obtain ⟨permissions, rfl, hlisted⟩ := processManifestPermissions_ok hm
    have hnext : Numbered { s with
        connectPermissions := Function.update s.connectPermissions m.appId (some permissions) }
        (accepted (log ++ [.accepted m])) := by
      rw [accepted_append]
      exact Numbered.lookedUp hdeclared hlisted fun appId perms _ hperms => h appId perms hperms
    have := ih _ (s := { s with
        connectPermissions := Function.update s.connectPermissions m.appId (some permissions) })
      (hdeclared.congr rfl rfl rfl) hnext hok
    rwa [List.append_assoc] at this

theorem numbered_load {ms : List Manifest} (h : World.load ms = .ok w) :
    Numbered w.server (accepted w.log) := by
  obtain ⟨s, hs, h⟩ := bind_eq_ok.1 h
  cases h
  obtain ⟨s₁, hservers, hperms⟩ := bind_eq_ok.1 hs
  obtain ⟨hdecl, -, -, hconn, -⟩ := foldlM_servers [] declared_default hservers
  refine foldlM_numbered [] hdecl (fun appId perms hp => ?_) hperms
  rw [hconn] at hp
  cases hp

/-- A number that another app was given still belongs to a message that it lists. -/
theorem KeepsNumbers.kept {appId other : AppId} {new : Option Manifest} {m : Manifest}
    {serverName messageName : String} {id : MessageId} (hkeeps : KeepsNumbers w appId new)
    (hdeclared : Declared w.server (accepted w.log))
    (hnext : Declared s' (Function.update (accepted w.log) appId new))
    (hne : other ≠ appId) (hm : accepted w.log other = some m)
    (hlists : m.Lists serverName messageName)
    (hid : w.server.messageNameToId (serverName, messageName) = some [id]) :
    ∃ messageName', m.Lists serverName messageName' ∧
      s'.messageNameToId (serverName, messageName') = some [id] := by
  obtain ⟨owner, m', message, howner, hmessage, heq⟩ := (hdeclared.numbers _ _ _).1 hid
  cases heq
  rcases eq_or_ne owner appId with rfl | hother
  · obtain ⟨new', messageName', message', rfl, hlists', hmessage', hsame⟩ :=
      hkeeps m' other m serverName messageName message howner hne hm hlists hmessage
    refine ⟨messageName', hlists', (hnext.numbers _ _ _).2 ?_⟩
    exact ⟨owner, new', message', Function.update_self .., hmessage', by rw [hsame]⟩
  · refine ⟨messageName, hlists, (hnext.numbers _ _ _).2 ?_⟩
    exact ⟨owner, m', message, by rwa [Function.update_of_ne hother], hmessage, rfl⟩

theorem numbered_step {ms : List Manifest} (htables : Tables ms w)
    (h : Numbered w.server (accepted w.log)) (hcareful : Careful tryFromBytes w r)
    (hstep : w.step tryFromBytes r = .ok w') : Numbered w'.server (accepted w'.log) := by
  obtain ⟨⟨s, events⟩, hs, hstep⟩ := bind_eq_ok.1 hstep
  cases hstep
  dsimp only
  have hdeclared := htables.declared
  cases step_cases hs with
  | disconnected pid hno =>
    rw [List.append_nil]
    unfold unregisterPid
    split
    · exact h
    · exact h.congr rfl rfl
  | ignored hno =>
    rw [List.append_nil]
    exact h
  | answered howed hq hans =>
    rw [hq.accepted]
    exact h
  | waits howed hwait =>
    rw [List.append_nil]
    exact h.congr rfl rfl
  | registers howed hok hwoken =>
    obtain ⟨pid, appId, sid, names, -, -, -, rfl, rfl⟩ := registerImpl_ok hok
    rw [accepted_append, List.foldl_cons, List.foldl_cons, hwoken.quiet.foldl_track, hwoken.tables]
    exact h.congr rfl rfl
  | accepts howed hid hadd =>
    obtain ⟨-, hok⟩ := addManifestImpl_ok hadd
    have hnext := hdeclared.update hok
    rw [show accepted (w.log ++ _) = _ from accepted_append _ _]
    obtain ⟨staged, permissions, hservers, rfl, hlisted⟩ := processManifestUpdate_ok hok
    refine Numbered.lookedUp (hdeclared.servers hservers) hlisted fun appId perms hne hperms => ?_
    obtain ⟨m, hm, hnumbers⟩ := h appId perms hperms
    refine ⟨m, hm, fun serverName ids hids id hid' => ?_⟩
    obtain ⟨messageName, hlists, hnumber⟩ := hnumbers serverName ids hids id hid'
    exact (hcareful.1 hid _ _ hadd).kept hdeclared (hdeclared.servers hservers) hne hm hlists hnumber
  | @removes _ target howed hid hremove =>
    have hkeeps := hcareful.2 hid _ _ hremove
    rw [removeManifestImpl_ok hremove]
    rw [show accepted (w.log ++ _) = _ from accepted_append _ _]
    intro appId perms hperms
    dsimp only [removeManifest] at hperms
    rcases eq_or_ne appId target with rfl | hne
    · rw [Function.update_self] at hperms
      cases hperms
    · rw [Function.update_of_ne hne] at hperms
      obtain ⟨m, hm, hnumbers⟩ := h appId perms hperms
      refine ⟨m, (Function.update_of_ne hne _ _).trans hm, fun serverName ids hids id hid' => ?_⟩
      obtain ⟨messageName, hlists, hnumber⟩ := hnumbers serverName ids hids id hid'
      exact hkeeps.kept hdeclared (hdeclared.remove target) hne hm hlists hnumber

theorem numbered_run {ms : List Manifest} {rs : List Received} (htables : Tables ms w)
    (h : Numbered w.server (accepted w.log)) (hcareful : CarefulRun tryFromBytes w rs)
    (hrun : w.run tryFromBytes rs = .ok w') : Numbered w'.server (accepted w'.log) := by
  induction rs generalizing w with
  | nil =>
    cases hrun
    exact h
  | cons r rs ih =>
    obtain ⟨w₁, hstep, hrun⟩ := bind_eq_ok.1 hrun
    exact ih (htables.step hstep) (numbered_step htables h hcareful.1 hstep)
      (hcareful.2 w₁ hstep) hrun

/-! ## 3. Grants -/

/-- A connection carries the numbers that were kept for the app. -/
theorem NameServer.GrantedBy.permitted {grant : Grant} (h : s.GrantedBy grant) :
    ∃ permissions ids, s.connectPermissions grant.appId = some permissions ∧
      permissions grant.serverName = some ids ∧ grant.messageId ∈ ids := by
  obtain ⟨kernel, msg, cid, granted, hok, hmem⟩ := h
  obtain ⟨pid, -, hok⟩ := bind_eq_ok.1 hok
  obtain ⟨appId, -, hok⟩ := bind_eq_ok.1 hok
  obtain ⟨name, -, hok⟩ := bind_eq_ok.1 hok
  split at hok
  · cases hok
  · split at hok
    · cases hok
    · next permitted hpermitted =>
      obtain ⟨cid', -, hok⟩ := bind_eq_ok.1 hok
      cases hok
      obtain ⟨id, hid, rfl⟩ := List.mem_map.1 hmem
      have hid := (List.mem_filter.1 hid).1
      rcases Option.or_eq_some_iff.1 hpermitted with hfound | ⟨-, hown⟩
      · obtain ⟨permissions, hperms, hids⟩ := Option.bind_eq_some_iff.1 hfound
        exact ⟨permissions, permitted, hperms, hids, hid⟩
      · split at hown
        · cases hown
        · split at hown
          · cases hown
            cases hid
          · cases hown

theorem step_grants {events : List Event} {grant : Grant}
    (hstep : s.step tryFromBytes r = .ok (s', events)) (hg : .granted grant ∈ events) :
    ∃ permissions ids, s.connectPermissions grant.appId = some permissions ∧
      permissions grant.serverName = some ids ∧ grant.messageId ∈ ids := by
  cases step_cases hstep with
  | disconnected pid hno => cases hg
  | ignored hno => cases hg
  | answered howed hq hans hgrants => exact (hgrants grant hg).permitted
  | waits howed hwait => cases hg
  | registers howed hok hwoken =>
    obtain ⟨pid, appId, sid, names, -, -, -, rfl, rfl⟩ := registerImpl_ok hok
    rcases List.mem_cons.1 hg with hg | hg
    · cases hg
    · rcases List.mem_cons.1 hg with hg | hg
      · cases hg
      · exact (hwoken.grants grant hg).permitted
  | accepts howed hid hadd =>
    rcases List.mem_cons.1 hg with hg | hg
    · cases hg
    · cases List.mem_singleton.1 hg
  | removes howed hid hremove =>
    rcases List.mem_cons.1 hg with hg | hg
    · cases hg
    · cases List.mem_singleton.1 hg

/-- In a careful run, every number that a connection is granted is up to date. -/
theorem grants_fresh {ms : List Manifest} (hload : World.load ms = .ok w) (rs : List Received)
    (hcareful : CarefulRun tryFromBytes w rs) (hrun : w.run tryFromBytes rs = .ok w')
    {events : List Event} {g : Grant} (hstep : w'.server.step tryFromBytes r = .ok (s', events))
    (hg : .granted g ∈ events) : Fresh w' g.appId g.serverName g.messageId := by
  have htables := tables_load hload
  have hdeclared := (htables.run hrun).declared
  have hnumbered := numbered_run htables (numbered_load hload) hcareful hrun
  obtain ⟨permissions, ids, hperms, hids, hid⟩ := step_grants hstep hg
  obtain ⟨m, hm, hnumbers⟩ := hnumbered _ permissions hperms
  obtain ⟨messageName, hlists, hnumber⟩ := hnumbers _ ids hids _ hid
  obtain ⟨owner, m', message, howner, hmessage, heq⟩ := (hdeclared.numbers _ _ _).1 hnumber
  refine ⟨m, messageName, hm, hlists, owner, m', message, ?_, howner, hmessage,
    (List.singleton_inj.1 heq).symm⟩
  exact (hdeclared.owners _ owner).2 ⟨m', howner, serverName_of_message hmessage⟩

/-! ## 4. An update that renumbers -/

def sampleId (n : UInt8) : AppId := ⟨List.replicate 16 n, rfl⟩

def sampleMessage (id : Nat) : Message := ⟨id, none, none, .notUserGrantable⟩

/-- The app manager, which adds and removes manifests. -/
def managerManifest : Manifest where
  appId := sampleId 4
  servers := ⟨[("os/nameserver", ⟨[("AddManifest", sampleMessage 1)], List.pairwise_singleton _ _⟩)],
    List.pairwise_singleton _ _⟩
  fixedSids := .empty
  permissions := ⟨[("os/nameserver", ⟨["AddManifest"], List.pairwise_singleton _ _⟩)],
    List.pairwise_singleton _ _⟩

/-- The owner of `a/s`, whose message `Ping` has the number `id`. -/
def serverManifest (id : Nat) : Manifest where
  appId := sampleId 2
  servers := ⟨[("a/s", ⟨[("Ping", sampleMessage id)], List.pairwise_singleton _ _⟩)],
    List.pairwise_singleton _ _⟩
  fixedSids := .empty
  permissions := .empty

/-- An app that may send `Ping` to `a/s`. -/
def clientManifest : Manifest where
  appId := sampleId 3
  servers := .empty
  fixedSids := .empty
  permissions := ⟨[("a/s", ⟨["Ping"], List.pairwise_singleton _ _⟩)], List.pairwise_singleton _ _⟩

def updateJson : String :=
  "\x7b\"appName\":\x7b\x7d,\"appId\":\"0x02020202020202020202020202020202\"," ++
  "\"servers\":\x7b\"a/s\":\x7b\"Ping\":\x7b\"id\":2,\"type\":\"scalar\"\x7d\x7d\x7d\x7d"

def parseUpdate (bytes : List UInt8) : Option Manifest :=
  if bytes = updateJson.toUTF8.data.toList then some (serverManifest 2) else none

/-- Each process runs the app with its own number. -/
def appsKernel : KernelCalls := { sampleKernel with getAppId := fun pid => .ok (some (sampleId pid.get)) }

def registerRequest : Received := { sampleRegister with kernels := fun _ => appsKernel }

def connectRequest : Received := { sampleConnect .mutableBorrow with kernels := fun _ => appsKernel }

def updateRequest : Received where
  msg := ⟨2, some ⟨4, Kernel.PID.four_ne⟩, 1,
    .mutableBorrow ⟨updateJson.toUTF8.data.toList, some updateJson.toUTF8.data.toList.length⟩⟩
  kernels _ := appsKernel
  order := []

def sampleManifests : List Manifest := [managerManifest, serverManifest 1, clientManifest]

/-- `Ping` on the connection of process 3 to `a/s`. -/
def pingGrant : Grant := ⟨⟨3, Kernel.PID.three_ne⟩, sampleId 3, "a/s", 7, 1⟩

theorem careful_register (w : World) : Careful parseUpdate w registerRequest := by
  constructor
  · intro hid
    cases hid
  · intro hid
    cases hid

theorem grants_fresh_connect : ∃ w w', World.load sampleManifests = .ok w ∧
    w.run parseUpdate [registerRequest] = .ok w' ∧ Fresh w' (sampleId 3) "a/s" 1 := by
  refine ⟨_, _, rfl, rfl, ?_⟩
  have hload : World.load sampleManifests = .ok _ := rfl
  exact grants_fresh hload [registerRequest] (r := connectRequest) (g := pingGrant)
    ⟨careful_register _, fun _ _ => trivial⟩ rfl rfl List.mem_cons_self

/-- The update gives `Ping` the number 2, and the client is still granted the number 1. -/
theorem renumbered_grant_stale : ∃ w w', World.load sampleManifests = .ok w ∧
    w.run parseUpdate [registerRequest, updateRequest] = .ok w' ∧
    (∃ s' events, w'.server.step parseUpdate connectRequest = .ok (s', events) ∧
      .granted pingGrant ∈ events) ∧ ¬ Fresh w' (sampleId 3) "a/s" 1 := by
  refine ⟨_, _, rfl, bind_eq_ok.2 ⟨_, rfl, bind_eq_ok.2 ⟨_, rfl, rfl⟩⟩, ?_, ?_⟩
  · refine ⟨_, _, rfl, ?_⟩
    exact List.mem_cons_self
  rintro ⟨m, messageName, hm, ⟨messages, hmem, hlisted⟩, owner, m', message, howner, hm',
    hmessage, hid⟩
  cases hm
  cases List.mem_singleton.1 hmem
  obtain rfl : messageName = "Ping" := List.mem_singleton.1 hlisted
  cases howner
  cases hm'
  cases hmessage
  cases hid

end Names
