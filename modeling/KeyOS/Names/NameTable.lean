import KeyOS.Names.Connections

/-!
# The name table

Every name in the table is recorded for the process that registered it, or is a fixed SID of
a system manifest, and no connection waits for a name in the table. The server only stops where
it is asked to write an answer into memory that was lent to be read.
-/

namespace Names

open Manifests Exec NameServer
open Kernel (PID)

/-! ## 1. What the tables record -/

/-- The process has the name registered. -/
def Recorded (s : NameServer) (pid : PID) (name : String) : Prop :=
  ∃ names, s.registeredNamesByPid pid = some names ∧ name ∈ names

/-- The SID of the name is one that a system manifest fixes. -/
def Fixed (manifests : List Manifest) (name : String) (sid : SID) : Prop :=
  ∃ m ∈ manifests, fixedSid m name = some sid

/-- In the history, the process registered the server under the name: the kernel named it as the
owner of the SID, and the manifest of its app declared the name then. -/
def RegisteredBy (log : List Event) (pid : PID) (name : String) (sid : SID) (appId : AppId) : Prop :=
  ∃ before after, log = before ++ .registered pid appId name sid pid :: after ∧
    ∃ m, accepted before appId = some m ∧ name ∈ m.servers.keys

theorem RegisteredBy.append {log : List Event} {pid : PID} {name : String} {sid : SID}
    {appId : AppId} (h : RegisteredBy log pid name sid appId) (events : List Event) :
    RegisteredBy (log ++ events) pid name sid appId := by
  obtain ⟨before, after, rfl, hm⟩ := h
  exact ⟨before, after ++ events, by rw [List.append_assoc, List.cons_append], hm⟩

/-- Names outlive the manifests that declared them, and manifests the processes. -/
structure Tables (manifests : List Manifest) (w : World) : Prop where
  declared : Declared w.server (accepted w.log)
  /-- While a process has a name registered, no app but its own owns the name. -/
  recorded : ∀ pid name, Recorded w.server pid name → ∃ sid appId,
    w.server.nameTable name = some sid ∧ RegisteredBy w.log pid name sid appId ∧
    ∀ owner, w.server.serverOwners name = some owner → owner = appId
  unique : ∀ pid pid' name, Recorded w.server pid name → Recorded w.server pid' name → pid = pid'
  table : ∀ name sid, w.server.nameTable name = some sid →
    (∃ pid, Recorded w.server pid name) ∨ Fixed manifests name sid
  waiting : ∀ msg ∈ w.server.waitingConnections, ∀ name, nameFromMsg msg 0 = .ok name →
    w.server.nameTable name = none
  answered : w.received.Perm (w.server.waitingConnections ++ answers w.log)

theorem mem_pids (pid : PID) : pid ∈ pids := by
  refine List.mem_filterMap.2 ⟨pid.get.toNat, List.mem_range.2 pid.get.toNat_lt, ?_⟩
  rw [UInt8.ofNat_toNat, Kernel.PID.new, dif_pos pid.neZero]

theorem isRegistered_iff {s : NameServer} {name : String} :
    s.isRegistered name = true ↔ ∃ pid, Recorded s pid name := by
  unfold isRegistered
  rw [List.any_eq_true]
  constructor
  · rintro ⟨pid, -, h⟩
    split at h
    · cases h
    · next names hnames => exact ⟨pid, names, hnames, of_decide_eq_true h⟩
  · rintro ⟨pid, names, hnames, hname⟩
    refine ⟨pid, mem_pids pid, ?_⟩
    rw [hnames]
    exact decide_eq_true hname

/-! ## 2. The system manifests -/

theorem foldlM_servers {manifests : List Manifest} {s s' : NameServer} (log : List Event)
    (hdeclared : Declared s (accepted log))
    (h : manifests.foldlM processManifestServers s = .ok s') :
    Declared s' (accepted (log ++ manifests.map .accepted)) ∧
    s'.registeredNamesByPid = s.registeredNamesByPid ∧
    s'.waitingConnections = s.waitingConnections ∧
    s'.connectPermissions = s.connectPermissions ∧
    ∀ name sid, s'.nameTable name = some sid →
      Fixed manifests name sid ∨ s.nameTable name = some sid := by
  induction manifests generalizing s log with
  | nil =>
    cases h
    refine ⟨?_, rfl, rfl, rfl, fun name sid => .inr⟩
    rwa [List.map_nil, List.append_nil]
  | cons m manifests ih =>
    obtain ⟨s₁, hm, h⟩ := bind_eq_ok.1 h
    have hnext : Declared s₁ (accepted (log ++ [.accepted m])) := by
      rw [accepted_append]
      exact hdeclared.servers hm
    obtain ⟨hdecl, hreg, hwait, hconn, htable⟩ := ih _ hnext h
    obtain ⟨-, heq⟩ := processManifestServers_ok hm
    rw [heq] at hreg hwait hconn htable
    refine ⟨?_, hreg, hwait, hconn, fun name sid hsid => ?_⟩
    · rwa [List.append_assoc] at hdecl
    · rcases htable name sid hsid with ⟨m', hm', hfixed⟩ | hold
      · exact .inl ⟨m', List.mem_cons_of_mem _ hm', hfixed⟩
      · rcases Option.or_eq_some_iff.1 hold with hfixed | ⟨-, hold⟩
        · exact .inl ⟨m, List.mem_cons_self, hfixed⟩
        · exact .inr hold

theorem foldlM_permissions {manifests : List Manifest} {s s' : NameServer}
    (h : manifests.foldlM processManifestPermissions s = .ok s') :
    s' = { s with connectPermissions := s'.connectPermissions } := by
  induction manifests generalizing s with
  | nil =>
    cases h
    rfl
  | cons m manifests ih =>
    obtain ⟨s₁, hm, h⟩ := bind_eq_ok.1 h
    obtain ⟨permissions, rfl, -⟩ := processManifestPermissions_ok hm
    have hrest := ih h
    exact hrest

theorem tables_load {manifests : List Manifest} {w : World} (h : World.load manifests = .ok w) :
    Tables manifests w := by
  obtain ⟨s, hs, h⟩ := bind_eq_ok.1 h
  cases h
  obtain ⟨s₁, hservers, hperms⟩ := bind_eq_ok.1 hs
  obtain ⟨hdecl, hreg, hwait, -, htable⟩ := foldlM_servers [] declared_default hservers
  have heq := foldlM_permissions hperms
  have hnone : ∀ pid name, ¬ Recorded s pid name := by
    rintro pid name ⟨names, hnames, -⟩
    rw [heq] at hnames
    rw [show s₁.registeredNamesByPid pid = none from congrFun hreg pid] at hnames
    cases hnames
  constructor
  · rw [heq]
    exact hdecl.congr rfl rfl rfl
  · exact fun pid name h => absurd h (hnone pid name)
  · exact fun pid pid' name h => absurd h (hnone pid name)
  · intro name sid hsid
    rw [heq] at hsid
    rcases htable name sid hsid with hfixed | hold
    · exact .inr hfixed
    · cases hold
  · intro msg hmsg
    rw [heq] at hmsg
    rw [show s₁.waitingConnections = [] from hwait] at hmsg
    cases hmsg
  · rw [heq]
    rw [show s₁.waitingConnections = [] from hwait]
    suffices hnil : answers (manifests.map .accepted) = [] by
      dsimp only
      rw [hnil]
      exact .refl []
    clear h hs hservers hperms htable hdecl heq
    induction manifests with
    | nil => rfl
    | cons m manifests ih => exact ih

/-! ## 3. Steps -/

namespace Tables

variable {manifests : List Manifest} {w : World} {s' : NameServer} {events : List Event}
  {tryFromBytes : List UInt8 → Option Manifest} {r : Received}

/-- Events that edit no manifest, where the tables stay as they are. -/
theorem quiet (h : Tables manifests w) (hq : Quiet events) (hans : answers events = [r.msg]) :
    Tables manifests ⟨w.server, w.log ++ events, w.received ++ [r.msg]⟩ where
  declared := by
    rw [hq.accepted]
    exact h.declared
  recorded pid name hrec := by
    obtain ⟨sid, appId, hsid, hby, howner⟩ := h.recorded pid name hrec
    exact ⟨sid, appId, hsid, hby.append _, howner⟩
  unique := h.unique
  table := h.table
  waiting := h.waiting
  answered := by
    rw [answers_append, hans, ← List.append_assoc]
    exact h.answered.append_right _

theorem unregister (h : Tables manifests w) (pid : PID) :
    Tables manifests { w with server := w.server.unregisterPid pid } := by
  unfold unregisterPid
  split
  · exact h
  · next names hnames =>
    have hrec : ∀ pid' name, Recorded { w.server with
        registeredNamesByPid := Function.update w.server.registeredNamesByPid pid none
        nameTable := fun name => if name ∈ names then none else w.server.nameTable name }
          pid' name → pid' ≠ pid ∧ Recorded w.server pid' name := by
      rintro pid' name ⟨names', hnames', hname⟩
      dsimp only at hnames'
      rcases eq_or_ne pid' pid with rfl | hne
      · rw [Function.update_self] at hnames'
        cases hnames'
      · rw [Function.update_of_ne hne] at hnames'
        exact ⟨hne, names', hnames', hname⟩
    constructor
    · exact h.declared.congr rfl rfl rfl
    · intro pid' name hpid'
      obtain ⟨hne, hpid'⟩ := hrec pid' name hpid'
      obtain ⟨sid, appId, hsid, hby, howner⟩ := h.recorded pid' name hpid'
      refine ⟨sid, appId, ?_, hby, howner⟩
      dsimp only
      rw [if_neg, hsid]
      exact fun hin => hne (h.unique pid' pid name hpid' ⟨names, hnames, hin⟩)
    · exact fun pid₁ pid₂ name h₁ h₂ =>
        h.unique pid₁ pid₂ name (hrec pid₁ name h₁).2 (hrec pid₂ name h₂).2
    · intro name sid hsid
      dsimp only at hsid
      split at hsid
      · cases hsid
      · next hout =>
        rcases h.table name sid hsid with ⟨pid', names', hnames', hname⟩ | hfixed
        · refine .inl ⟨pid', names', ?_, hname⟩
          rcases eq_or_ne pid' pid with rfl | hne
          · rw [hnames] at hnames'
            cases hnames'
            exact absurd hname hout
          · exact (Function.update_of_ne hne _ _).trans hnames'
        · exact .inr hfixed
    · intro msg hmsg name hname
      dsimp only
      split
      · rfl
      · exact h.waiting msg hmsg name hname
    · exact h.answered

theorem waits (h : Tables manifests w) {kernel : KernelCalls}
    (hwait : w.server.connectImpl kernel r.msg = .ok .wait) :
    Tables manifests ⟨{ w.server with
      waitingConnections := w.server.waitingConnections ++ [r.msg] }, w.log,
      w.received ++ [r.msg]⟩ where
  declared := h.declared.congr rfl rfl rfl
  recorded := h.recorded
  unique := h.unique
  table := h.table
  waiting msg hmsg name hname := by
    rcases List.mem_append.1 hmsg with hmsg | hmsg
    · exact h.waiting msg hmsg name hname
    · obtain rfl := List.mem_singleton.1 hmsg
      obtain ⟨name', hname', hnone⟩ := connectImpl_wait hwait
      rw [hname] at hname'
      cases hname'
      exact hnone
  answered := by
    have := h.answered.append_right [r.msg]
    rw [List.append_assoc] at this ⊢
    exact this.trans (List.perm_append_comm.append_left _)

/-- The name and the SID enter the table together with the record, before anything is woken. -/
theorem register (h : Tables manifests w) {s₁ : NameServer} {kernel : KernelCalls} {name : String}
    {event : Event} (hok : w.server.registerImpl kernel r.msg = .ok (s₁, name, event))
    (hwoken : Woken name s₁ s' events) :
    Tables manifests ⟨s', w.log ++ event :: .answered r.msg .success :: events,
      w.received ++ [r.msg]⟩ := by
  obtain ⟨pid, appId, sid, names, hnames, hname, hfree, rfl, rfl⟩ := registerImpl_ok hok
  have htables := hwoken.tables
  have hquiet : Quiet (.answered r.msg .success :: events) :=
    (quiet_answered r.msg .success).append hwoken.quiet
  obtain ⟨m, hm, hkeys⟩ : ∃ m, accepted w.log appId = some m ∧ name ∈ m.servers.keys := by
    rw [h.declared.registers appId] at hnames
    obtain ⟨m, hm, rfl⟩ := Option.map_eq_some_iff.1 hnames
    exact ⟨m, hm, List.mem_toFinset.1 hname⟩
  have hother : ∀ pid' name', Recorded s' pid' name' →
      (pid' = pid ∧ name' = name) ∨ Recorded w.server pid' name' := by
    rintro pid' name' ⟨names', hnames', hname'⟩
    rw [htables] at hnames'
    dsimp only at hnames'
    rcases eq_or_ne pid' pid with rfl | hne
    · rw [Function.update_self] at hnames'
      cases hnames'
      rcases Finset.mem_insert.1 hname' with rfl | hold
      · exact .inl ⟨rfl, rfl⟩
      · right
        cases hpid : w.server.registeredNamesByPid pid' with
        | none =>
          rw [hpid] at hold
          exact absurd hold (Finset.notMem_empty _)
        | some old =>
          rw [hpid] at hold
          exact ⟨old, hpid, hold⟩
    · rw [Function.update_of_ne hne] at hnames'
      exact .inr ⟨names', hnames', hname'⟩
  have hnew : ∀ pid', ¬ Recorded w.server pid' name := by
    intro pid' hrec
    obtain ⟨sid', -, hsid', -⟩ := h.recorded pid' name hrec
    rw [hfree] at hsid'
    cases hsid'
  constructor
  · have hacc : accepted (w.log ++ .registered pid appId name sid pid ::
        .answered r.msg .success :: events) = accepted w.log := by
      rw [accepted_append, List.foldl_cons, hquiet.foldl_track]
      rfl
    rw [hacc, htables]
    exact h.declared.congr rfl rfl rfl
  · intro pid' name' hrec
    rcases hother pid' name' hrec with ⟨rfl, rfl⟩ | hold
    · refine ⟨sid, appId, ?_, ⟨w.log, _, rfl, m, hm, hkeys⟩, fun owner howner => ?_⟩
      · rw [htables]
        exact Function.update_self ..
      · rw [htables] at howner
        have := (h.declared.owners name' appId).2 ⟨m, hm, mem_serverNames.2 (.inl hkeys)⟩
        exact Option.some.inj (howner.symm.trans this)
    · obtain ⟨sid', appId', hsid', hby, howner⟩ := h.recorded pid' name' hold
      refine ⟨sid', appId', ?_, hby.append _, ?_⟩
      · rw [htables]
        rcases eq_or_ne name' name with rfl | hne
        · exact absurd hold (hnew pid')
        · exact (Function.update_of_ne hne _ _).trans hsid'
      · rw [htables]
        exact howner
  · intro pid₁ pid₂ name' h₁ h₂
    rcases hother pid₁ name' h₁ with ⟨rfl, rfl⟩ | hold₁
    · rcases hother pid₂ name' h₂ with ⟨rfl, -⟩ | hold₂
      · rfl
      · exact absurd hold₂ (hnew pid₂)
    · rcases hother pid₂ name' h₂ with ⟨rfl, rfl⟩ | hold₂
      · exact absurd hold₁ (hnew pid₁)
      · exact h.unique pid₁ pid₂ name' hold₁ hold₂
  · intro name' sid' hsid'
    rw [htables] at hsid'
    dsimp only at hsid'
    rcases eq_or_ne name' name with rfl | hne
    · refine .inl ⟨pid, insert name' ((w.server.registeredNamesByPid pid).getD ∅), ?_,
        Finset.mem_insert_self _ _⟩
      rw [htables]
      exact Function.update_self ..
    · rw [Function.update_of_ne hne] at hsid'
      rcases h.table name' sid' hsid' with ⟨pid', names', hnames', hname'⟩ | hfixed
      · left
        rcases eq_or_ne pid' pid with rfl | hne'
        · refine ⟨pid', insert name ((w.server.registeredNamesByPid pid').getD ∅), ?_, ?_⟩
          · rw [htables]
            exact Function.update_self ..
          · rw [hnames']
            exact Finset.mem_insert_of_mem hname'
        · refine ⟨pid', names', ?_, hname'⟩
          rw [htables]
          exact (Function.update_of_ne hne' _ _).trans hnames'
      · exact .inr hfixed
  · intro msg hmsg name' hname'
    have hold : msg ∈ w.server.waitingConnections :=
      hwoken.answered.symm.subset (List.mem_append_right _ hmsg)
    rw [htables]
    rcases eq_or_ne name' name with rfl | hne
    · exact absurd hname' (hwoken.noneLeft msg hmsg)
    · exact (Function.update_of_ne hne _ _).trans (h.waiting msg hold name' hname')
  · have hans : answers (w.log ++ .registered pid appId name sid pid ::
        .answered r.msg .success :: events) = answers w.log ++ r.msg :: answers events :=
      answers_append _ _
    dsimp only
    rw [hans]
    calc w.received ++ [r.msg]
        |>.Perm (w.server.waitingConnections ++ answers w.log ++ [r.msg]) :=
          h.answered.append_right _
      _ |>.Perm (answers events ++ s'.waitingConnections ++ answers w.log ++ [r.msg]) :=
          (hwoken.answered.append_right _).append_right _
      _ |>.Perm (s'.waitingConnections ++ (answers w.log ++ r.msg :: answers events)) := by
          rw [List.append_assoc, List.append_assoc]
          refine List.perm_append_comm.trans (.of_eq ?_)
          rw [List.append_assoc, List.append_assoc, List.singleton_append]

theorem accept (h : Tables manifests w) {manifest : Manifest}
    (hfixed : manifest.fixedSids.entries = [])
    (hok : w.server.processManifestUpdate manifest = .ok s') :
    Tables manifests ⟨s', w.log ++ [.accepted manifest, .answered r.msg .success],
      w.received ++ [r.msg]⟩ := by
  have hacc : accepted (w.log ++ [.accepted manifest, .answered r.msg .success]) =
      Function.update (accepted w.log) manifest.appId (some manifest) := accepted_append _ _
  have hdeclared := h.declared.update hok
  obtain ⟨staged, permissions, hservers, rfl, -⟩ := processManifestUpdate_ok hok
  obtain ⟨hno, heq⟩ := processManifestServers_ok hservers
  have htable : ∀ name, staged.nameTable name = w.server.nameTable name := by
    intro name
    rw [heq]
    dsimp only
    rw [fixedSid_eq_none hfixed]
    rfl
  have hrec : ∀ pid name, Recorded staged pid name ↔ Recorded w.server pid name := by
    intro pid name
    rw [heq]
    exact Iff.rfl
  have hwaiting : staged.waitingConnections = w.server.waitingConnections := by
    rw [heq]
  constructor
  · rw [hacc]
    exact hdeclared
  · intro pid name hpid
    obtain ⟨sid, appId, hsid, hby, howner⟩ := h.recorded pid name ((hrec pid name).1 hpid)
    refine ⟨sid, appId, (htable name).trans hsid, hby.append _, fun owner hown => ?_⟩
    -- a new owner already owned the name, or the table would have kept it out
    obtain ⟨m, hm, hname⟩ := (hdeclared.owners name owner).1 hown
    rcases eq_or_ne owner manifest.appId with rfl | hne
    · rw [Function.update_self] at hm
      cases hm
      have hnot : ¬ (w.server.serverOwners name ≠ some manifest.appId) := fun hne =>
        hno name hname (.inr ⟨by rw [hsid]; rfl, hne⟩)
      exact howner _ (not_not.1 hnot)
    · rw [Function.update_of_ne hne] at hm
      exact howner owner ((h.declared.owners name owner).2 ⟨m, hm, hname⟩)
  · exact fun pid pid' name h₁ h₂ =>
      h.unique pid pid' name ((hrec pid name).1 h₁) ((hrec pid' name).1 h₂)
  · intro name sid hsid
    rcases h.table name sid ((htable name).symm.trans hsid) with ⟨pid, hpid⟩ | hfix
    · exact .inl ⟨pid, (hrec pid name).2 hpid⟩
    · exact .inr hfix
  · intro msg hmsg name hname
    dsimp only at hmsg ⊢
    rw [hwaiting] at hmsg
    exact (htable name).trans (h.waiting msg hmsg name hname)
  · dsimp only
    rw [hwaiting, answers_append, ← List.append_assoc]
    exact h.answered.append_right _

theorem remove (h : Tables manifests w) (appId : AppId) :
    Tables manifests ⟨w.server.removeManifest appId,
      w.log ++ [.removed appId, .answered r.msg .success], w.received ++ [r.msg]⟩ := by
  have hacc : accepted (w.log ++ [.removed appId, .answered r.msg .success]) =
      Function.update (accepted w.log) appId none := accepted_append _ _
  constructor
  · rw [hacc]
    exact h.declared.remove appId
  · intro pid name hpid
    obtain ⟨sid, app, hsid, hby, howner⟩ := h.recorded pid name hpid
    refine ⟨sid, app, ?_, hby.append _, fun owner hown => ?_⟩
    · dsimp only [removeManifest]
      rw [if_neg, hsid]
      exact fun hgone => hgone.2 (isRegistered_iff.2 ⟨pid, hpid⟩)
    · dsimp only [removeManifest] at hown
      split at hown
      · cases hown
      · exact howner owner hown
  · exact h.unique
  · intro name sid hsid
    dsimp only [removeManifest] at hsid
    split at hsid
    · cases hsid
    · exact h.table name sid hsid
  · intro msg hmsg name hname
    dsimp only [removeManifest]
    split
    · rfl
    · exact h.waiting msg hmsg name hname
  · rw [answers_append, ← List.append_assoc]
    exact h.answered.append_right _

theorem step (h : Tables manifests w) {w' : World} (hstep : w.step tryFromBytes r = .ok w') :
    Tables manifests w' := by
  obtain ⟨⟨s, events⟩, hs, hstep⟩ := bind_eq_ok.1 hstep
  cases hstep
  cases step_cases hs with
  | disconnected pid hno =>
    rw [if_neg hno, List.append_nil, List.append_nil]
    exact h.unregister pid
  | ignored hno =>
    rw [if_neg hno, List.append_nil, List.append_nil]
    exact h
  | answered howed hq hans =>
    rw [if_pos howed]
    exact h.quiet hq hans
  | waits howed hwait =>
    rw [if_pos howed, List.append_nil]
    exact h.waits hwait
  | registers howed hok hwoken =>
    rw [if_pos howed]
    exact h.register hok hwoken
  | accepts howed _ hadd =>
    rw [if_pos howed]
    obtain ⟨hfixed, hok⟩ := addManifestImpl_ok hadd
    exact h.accept hfixed hok
  | @removes _ appId howed _ hremove =>
    rw [if_pos howed, removeManifestImpl_ok hremove]
    exact h.remove appId

theorem run (h : Tables manifests w) {rs : List Received} {w' : World}
    (hrun : w.run tryFromBytes rs = .ok w') : Tables manifests w' := by
  induction rs generalizing w with
  | nil =>
    cases hrun
    exact h
  | cons r rs ih =>
    obtain ⟨w₁, hstep, hrun⟩ := bind_eq_ok.1 hrun
    exact ih (h.step hstep) hrun

end Tables

/-! ## 4. Runs -/

namespace NameServer

variable {s s' : NameServer} {events : List Event} {tryFromBytes : List UInt8 → Option Manifest}
  {r : Received}

/-- A manifest that is answered with an error edits nothing. -/
theorem rejected_unchanged (hid : r.msg.id = Opcode.addManifest.toUsize)
    (h : s.step tryFromBytes r = .ok (s', events)) {e : Error}
    (herr : .answered r.msg (.error e) ∈ events) : s' = s := by
  unfold step at h
  dsimp only at h
  rw [hid, if_neg (by decide)] at h
  split at h
  · cases h
    cases herr
  · split at h
    · split at h
      · cases h
        rfl
      · cases h
    · unfold handle at h
      dsimp only at h
      rw [hid, show Opcode.fromUsize Opcode.addManifest.toUsize = some .addManifest from rfl] at h
      dsimp only at h
      split at h
      · obtain ⟨event, hevent, h⟩ := bind_eq_ok.1 h
        cases h
        rw [of_respond_ok hevent] at herr
        rcases List.mem_cons.1 herr with herr | herr
        · cases herr
        · cases List.mem_singleton.1 herr
      · obtain ⟨event, -, h⟩ := bind_eq_ok.1 h
        cases h
        rfl

theorem respond_ne_waitsAgain {msg : MessageEnvelope} {response : Response} :
    respond msg response ≠ .error .waitsAgain := by
  unfold respond
  split <;> nofun

/-- The connections that are woken are found to exist. -/
theorem step_ne_waitsAgain : s.step tryFromBytes r ≠ .error .waitsAgain := by
  have hone : ∀ (f : Event → NameServer × List Event) (response : Response),
      (respond r.msg response >>= fun event => .ok (f event)) ≠ .error .waitsAgain := by
    intro f response h
    rcases bind_eq_error.1 h with h | ⟨event, -, h⟩
    · exact respond_ne_waitsAgain h
    · cases h
  have hconnect : ∀ result : Except Error ConnectSuccess, result ≠ .ok .wait →
      (connectEvents r.msg result >>= fun events => .ok (s, events)) ≠ .error .waitsAgain := by
    intro result hresult h
    rcases bind_eq_error.1 h with h | ⟨events, -, h⟩
    · cases (connectEvents_error hresult h).1
    · cases h
  unfold step
  dsimp only
  split
  · split <;> nofun
  · split
    · nofun
    · split
      · split <;> nofun
      · unfold handle
        dsimp only
        split
        · split
          · next s₁ name event hregister =>
            intro h
            rcases bind_eq_error.1 h with h | ⟨answer, -, h⟩
            · exact respond_ne_waitsAgain h
            · rcases bind_eq_error.1 h with h | ⟨rest, -, h⟩
              · obtain ⟨pid, appId, sid, names, -, -, -, -, rfl⟩ := registerImpl_ok hregister
                cases (wakeLoop_error (by simp) h).1
              · cases h
          · exact hone _ _
        · split
          · nofun
          · next hresult => exact hconnect _ hresult
        · split
          · exact hone _ _
          · next hresult => exact hconnect _ hresult
        · split
          · exact hone _ _
          · exact hone _ _
        · split
          · exact hone _ _
          · exact hone _ _
        · split
          · exact hone _ _
          · exact hone _ _
        · nofun

end NameServer

/-- Server names are owned, live and awaited consistently. -/
structure Consistent (tryFromBytes : List UInt8 → Option Manifest) (manifests : List Manifest)
    (w : World) : Prop where
  bound : ∀ name sid, w.server.nameTable name = some sid → Fixed manifests name sid ∨
    ∃ pid appId, Recorded w.server pid name ∧ (∀ pid', Recorded w.server pid' name → pid' = pid) ∧
      RegisteredBy w.log pid name sid appId
  listed : ∀ pid name, Recorded w.server pid name → (w.server.nameTable name).isSome = true
  owned : ∀ name owner, w.server.serverOwners name = some owner ↔
    ∃ m, accepted w.log owner = some m ∧ name ∈ m.serverNames
  reserved : ∀ pid name, Recorded w.server pid name → ∃ sid appId,
    RegisteredBy w.log pid name sid appId ∧
    (∀ owner, w.server.serverOwners name = some owner → owner = appId) ∧
    ∀ kernel msg s' event, w.server.registerImpl kernel msg ≠ .ok (s', name, event)
  rejected : ∀ r s' events e, w.server.step tryFromBytes r = .ok (s', events) →
    r.msg.id = Opcode.addManifest.toUsize → .answered r.msg (.error e) ∈ events → s' = w.server
  awaited : ∀ msg ∈ w.server.waitingConnections, ∀ name, nameFromMsg msg 0 = .ok name →
    w.server.nameTable name = none
  /-- Each message that is owed an answer waits, or was answered once. -/
  answered : w.received.Perm (w.server.waitingConnections ++ answers w.log)
  woken : ∀ r, w.server.step tryFromBytes r ≠ .error .waitsAgain

theorem Tables.consistent {manifests : List Manifest} {w : World} (h : Tables manifests w)
    (tryFromBytes : List UInt8 → Option Manifest) : Consistent tryFromBytes manifests w where
  bound name sid hsid := by
    rcases h.table name sid hsid with ⟨pid, hpid⟩ | hfixed
    · obtain ⟨sid', appId, hsid', hby, -⟩ := h.recorded pid name hpid
      rw [hsid] at hsid'
      cases hsid'
      exact .inr ⟨pid, appId, hpid, fun pid' hpid' => h.unique pid' pid name hpid' hpid, hby⟩
    · exact .inl hfixed
  listed pid name hpid := by
    obtain ⟨sid, -, hsid, -⟩ := h.recorded pid name hpid
    rw [hsid]
    rfl
  owned := h.declared.owners
  reserved pid name hpid := by
    obtain ⟨sid, appId, hsid, hby, howner⟩ := h.recorded pid name hpid
    refine ⟨sid, appId, hby, howner, fun kernel msg s' event hok => ?_⟩
    obtain ⟨-, -, -, -, -, -, hfree, -⟩ := registerImpl_ok hok
    rw [hsid] at hfree
    cases hfree
  rejected r s' events e hstep hid herr := rejected_unchanged hid hstep herr
  awaited := h.waiting
  answered := h.answered
  woken r := step_ne_waitsAgain

/-- The messages that wait can be answered. -/
theorem step_writable {tryFromBytes : List UInt8 → Option Manifest} {w w' : World} {r : Received}
    (hwaiting : ∀ msg ∈ w.server.waitingConnections, Writable msg) (hanswer : Answerable r)
    (hstep : w.step tryFromBytes r = .ok w') :
    ∀ msg ∈ w'.server.waitingConnections, Writable msg := by
  obtain ⟨⟨s, events⟩, hs, hstep⟩ := bind_eq_ok.1 hstep
  cases hstep
  cases step_cases hs with
  | disconnected pid hno =>
    unfold unregisterPid
    split
    · exact hwaiting
    · exact hwaiting
  | ignored hno => exact hwaiting
  | answered howed hq hans => exact hwaiting
  | waits howed hwait =>
    intro msg hmsg
    rcases List.mem_append.1 hmsg with hmsg | hmsg
    · exact hwaiting msg hmsg
    · obtain rfl := List.mem_singleton.1 hmsg
      obtain ⟨name, hname, -⟩ := connectImpl_wait hwait
      refine hanswer.1 ?_
      unfold nameFromMsg at hname
      split at hname
      · cases hname
      · next mem hmem =>
        rw [Body.hasMemory, hmem]
        rfl
  | registers howed hok hwoken =>
    obtain ⟨pid, appId, sid, names, -, -, -, -, rfl⟩ := registerImpl_ok hok
    intro msg hmsg
    exact hwaiting msg (hwoken.answered.symm.subset (List.mem_append_right _ hmsg))
  | accepts howed _ hadd =>
    obtain ⟨-, hok⟩ := addManifestImpl_ok hadd
    obtain ⟨staged, permissions, hservers, rfl, -⟩ := processManifestUpdate_ok hok
    obtain ⟨-, heq⟩ := processManifestServers_ok hservers
    intro msg hmsg
    rw [heq] at hmsg
    exact hwaiting msg hmsg
  | removes howed _ hremove =>
    rw [removeManifestImpl_ok hremove]
    exact hwaiting

theorem run_answerable (tryFromBytes : List UInt8 → Option Manifest) {rs : List Received} {w : World}
    (hwaiting : ∀ msg ∈ w.server.waitingConnections, Writable msg)
    (h : ∀ r ∈ rs, Answerable r) : ∃ w', w.run tryFromBytes rs = .ok w' := by
  induction rs generalizing w with
  | nil => exact ⟨w, rfl⟩
  | cons r rs ih =>
    obtain ⟨s', events, hs⟩ := step_runs tryFromBytes (h r List.mem_cons_self) hwaiting
    have hstep : w.step tryFromBytes r =
        .ok ⟨s', w.log ++ events, w.received ++ if Owed r.msg then [r.msg] else []⟩ :=
      bind_eq_ok.2 ⟨(s', events), hs, rfl⟩
    obtain ⟨w', hw'⟩ := ih (step_writable hwaiting (h r List.mem_cons_self) hstep)
      fun r' hr' => h r' (List.mem_cons_of_mem r hr')
    exact ⟨w', bind_eq_ok.2 ⟨_, hstep, hw'⟩⟩

/-- Where every message can be answered, the server runs on, and its tables stay consistent. -/
theorem names_consistent {tryFromBytes : List UInt8 → Option Manifest} {manifests : List Manifest}
    {w : World} (hload : World.load manifests = .ok w) {rs : List Received}
    (h : ∀ r ∈ rs, Answerable r) :
    ∃ w', w.run tryFromBytes rs = .ok w' ∧ Consistent tryFromBytes manifests w' := by
  have hnone : w.server.waitingConnections = [] := by
    obtain ⟨s, hs, hw⟩ := bind_eq_ok.1 hload
    cases hw
    obtain ⟨s₁, hservers, hperms⟩ := bind_eq_ok.1 hs
    have hwait := (foldlM_servers [] declared_default hservers).2.2.1
    rw [foldlM_permissions hperms]
    exact hwait
  obtain ⟨w', hrun⟩ := run_answerable tryFromBytes (w := w)
    (by rw [hnone]; exact nofun) h
  exact ⟨w', hrun, ((tables_load hload).run hrun).consistent tryFromBytes⟩

/-- The app of the system in these runs, whose process 2 owns the server `a/s`. -/
def sampleApp : AppId := ⟨List.replicate 16 0, rfl⟩

def sampleManifest : Manifest where
  appId := sampleApp
  servers := ⟨[("a/s", .empty)], List.pairwise_singleton _ _⟩
  fixedSids := .empty
  permissions := .empty

def sampleKernel : KernelCalls where
  getAppId _ := .ok (some sampleApp)
  getServerOwner _ := .ok ⟨2, PID.two_ne⟩
  connectForProcess _ _ := .ok 7
  allowMessagesOnConnection _ _ _ := .ok ()
  returnScalar _ := .ok ()

/-- Process 3 connects to `a/s` and is blocked. -/
def sampleConnect (body : MemoryMessage → Body) : Received where
  msg := ⟨0, some ⟨3, PID.three_ne⟩, 6, body ⟨[97, 47, 115, 0], some 3⟩⟩
  kernels _ := sampleKernel
  order := []

/-- Process 2 registers its server under `a/s`. -/
def sampleRegister : Received where
  msg := ⟨1, some ⟨2, PID.two_ne⟩, 0,
    .mutableBorrow ⟨List.replicate 16 9 ++ [97, 47, 115, 0], some 3⟩⟩
  kernels _ := sampleKernel
  order := []

theorem names_consistent_connect : ∃ w, World.load [sampleManifest] = .ok w ∧
    ∃ w', w.run (fun _ => none) [sampleConnect .mutableBorrow, sampleRegister] = .ok w' ∧
      Consistent (fun _ => none) [sampleManifest] w' := by
  refine ⟨_, rfl, names_consistent rfl fun r hr => ?_⟩
  rcases List.mem_cons.1 hr with rfl | hr
  · exact ⟨fun _ => rfl, nofun⟩
  · obtain rfl := List.mem_singleton.1 hr
    exact ⟨fun _ => rfl, nofun⟩

/-- The memory of the blocked connection was lent to be read only. The name is registered and
the server stops, with the connection not answered. -/
theorem borrowed_connect_stops : ∃ w w', World.load [sampleManifest] = .ok w ∧
    w.run (fun _ => none) [sampleConnect .borrow] = .ok w' ∧
    w'.server.waitingConnections = [(sampleConnect .borrow).msg] ∧ answers w'.log = [] ∧
    w'.run (fun _ => none) [sampleRegister] = .error .notWritable :=
  ⟨_, _, rfl, rfl, rfl, rfl, rfl⟩

end Names
