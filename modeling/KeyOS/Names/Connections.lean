import KeyOS.Names.Ownership

/-!
# Connections and registrations

What one round of the server can do (`NameServer.Step`). The loop that wakes the waiting
connections answers those that name the new server, and only those.
-/

namespace Names

open Manifests Exec
open Kernel (PID)

/-! ## 1. Answers -/

/-- The message is not an immutable borrow, so that an answer can be written into it. -/
def Writable (msg : MessageEnvelope) : Prop := msg.body.memoryMessageMut.isSome = true

instance (msg : MessageEnvelope) : Decidable (Writable msg) := inferInstanceAs (Decidable (_ = true))

theorem respond_ok {msg : MessageEnvelope} (h : Writable msg) (response : Response) :
    respond msg response = .ok (.answered msg response) := by
  unfold respond
  obtain ⟨mem, hmem⟩ := Option.isSome_iff_exists.1 h
  rw [hmem]

theorem of_respond_ok {msg : MessageEnvelope} {response : Response} {event : Event}
    (h : respond msg response = .ok event) : event = .answered msg response := by
  unfold respond at h
  split at h
  · cases h
  · exact (Except.ok.inj h).symm

namespace NameServer

variable {s s' : NameServer} {msg : MessageEnvelope} {kernel : KernelCalls} {events : List Event}

theorem quiet_granted (granted : List Grant) : Quiet (granted.map .granted) := by
  intro event he
  obtain ⟨grant, -, rfl⟩ := List.mem_map.1 he
  exact .inr ⟨grant, rfl⟩

theorem quiet_answered (msg : MessageEnvelope) (response : Response) :
    Quiet [.answered msg response] := by
  intro event he
  obtain rfl := List.mem_singleton.1 he
  exact .inl ⟨msg, response, rfl⟩

theorem answers_granted (granted : List Grant) : answers (granted.map .granted) = [] := by
  induction granted with
  | nil => rfl
  | cons grant granted ih => exact ih

theorem connectEvents_ok {result : Except Error ConnectSuccess}
    (h : connectEvents msg result = .ok events) :
    Quiet events ∧ answers events = [msg] ∧
      (∀ grant, .granted grant ∈ events → ∃ cid granted, result = .ok (.connected cid granted) ∧
        grant ∈ granted) := by
  unfold connectEvents at h
  split at h
  · next e =>
    obtain ⟨event, hevent, h⟩ := bind_eq_ok.1 h
    cases h
    rw [of_respond_ok hevent]
    refine ⟨quiet_answered _ _, rfl, fun grant hg => ?_⟩
    cases List.mem_singleton.1 hg
  · next cid granted =>
    obtain ⟨event, hevent, h⟩ := bind_eq_ok.1 h
    cases h
    rw [of_respond_ok hevent]
    refine ⟨(quiet_granted granted).append (quiet_answered _ _), ?_, fun grant hg => ?_⟩
    · rw [answers_append, answers_granted]
      rfl
    · rcases List.mem_append.1 hg with hg | hg
      · obtain ⟨grant', hmem, heq⟩ := List.mem_map.1 hg
        cases heq
        exact ⟨cid, granted, rfl, hmem⟩
      · cases List.mem_singleton.1 hg
  · cases h

theorem connectEvents_writable (hw : Writable msg) {result : Except Error ConnectSuccess}
    (hresult : result ≠ .ok .wait) : ∃ events, connectEvents msg result = .ok events := by
  unfold connectEvents
  split
  · next e => exact ⟨_, by rw [respond_ok hw]; rfl⟩
  · next cid granted => exact ⟨_, by rw [respond_ok hw]; rfl⟩
  · exact absurd rfl hresult

/-- A connection waits only for a name that is not in the table. -/
theorem connectImpl_wait (h : s.connectImpl kernel msg = .ok .wait) :
    ∃ name, nameFromMsg msg 0 = .ok name ∧ s.nameTable name = none := by
  obtain ⟨pid, -, h⟩ := bind_eq_ok.1 h
  obtain ⟨appId, -, h⟩ := bind_eq_ok.1 h
  obtain ⟨name, hname, h⟩ := bind_eq_ok.1 h
  refine ⟨name, hname, ?_⟩
  cases htable : s.nameTable name with
  | none => rfl
  | some sid =>
    simp only [htable] at h
    split at h
    · cases h
    · obtain ⟨cid, -, h⟩ := bind_eq_ok.1 h
      cases h

/-! ## 2. Waking -/

theorem swapRemove_length {msgs : List MessageEnvelope} {i : Nat} (hi : i < msgs.length) :
    (swapRemove msgs i).length = msgs.length - 1 := by
  unfold swapRemove
  split
  · next hlast =>
    rw [List.getLast?_eq_none_iff] at hlast
    rw [hlast] at hi
    cases hi
  · split
    · rw [List.length_dropLast]
    · rw [List.length_set, List.length_dropLast]

theorem swapRemove_perm {msgs : List MessageEnvelope} {i : Nat} (hi : i < msgs.length) :
    msgs.Perm (msgs[i] :: swapRemove msgs i) := by
  have hne : msgs ≠ [] := List.ne_nil_of_length_pos (Nat.zero_lt_of_lt hi)
  obtain ⟨init, last, rfl⟩ : ∃ init last, msgs = init ++ [last] :=
    ⟨msgs.dropLast, msgs.getLast hne, (List.dropLast_append_getLast hne).symm⟩
  unfold swapRemove
  rw [List.getLast?_concat, List.dropLast_concat]
  dsimp only
  split
  · next hlast =>
    have hlen : init.length = i := by
      rw [List.length_append, List.length_singleton] at hlast
      omega
    subst hlen
    rw [List.getElem_concat_length rfl]
    exact List.perm_append_singleton last init
  · next hlast =>
    have hlt : i < init.length := by
      rw [List.length_append, List.length_singleton] at hlast hi
      omega
    rw [List.getElem_append_left hlt]
    calc init ++ [last]
        |>.Perm (last :: init) := List.perm_append_singleton last init
      _ |>.Perm (last :: init[i] :: init.eraseIdx i) :=
          (List.getElem_cons_eraseIdx_perm hlt).symm.cons last
      _ |>.Perm (init[i] :: last :: init.eraseIdx i) := List.Perm.swap _ _ _
      _ |>.Perm (init[i] :: init.set i last) :=
          (List.set_perm_cons_eraseIdx hlt last).symm.cons _

theorem swapRemove_before {msgs : List MessageEnvelope} {i j : Nat} (hj : j < i)
    (hi : i < msgs.length) : (swapRemove msgs i)[j]? = msgs[j]? := by
  unfold swapRemove
  have hlt : j < msgs.length - 1 := by omega
  split
  · rfl
  · split
    · rw [List.getElem?_dropLast, if_pos hlt]
    · rw [List.getElem?_set_ne (Nat.ne_of_gt hj), List.getElem?_dropLast, if_pos hlt]

/-- The grant of a connection that the server makes. -/
def GrantedBy (s : NameServer) (grant : Grant) : Prop :=
  ∃ kernel msg cid granted, s.connectImpl kernel msg = .ok (.connected cid granted) ∧ grant ∈ granted

theorem connectEvents_error {result : Except Error ConnectSuccess} {p : Panic}
    (hresult : result ≠ .ok .wait) (h : connectEvents msg result = .error p) :
    p = .notWritable ∧ ¬ Writable msg := by
  have hno : ¬ Writable msg := by
    intro hw
    obtain ⟨events, hok⟩ := connectEvents_writable hw hresult
    rw [hok] at h
    cases h
  refine ⟨?_, hno⟩
  have hrespond : ∀ response, respond msg response = .error .notWritable := by
    intro response
    unfold respond
    rw [Option.not_isSome_iff_eq_none.1 hno]
  unfold connectEvents at h
  split at h
  · rw [hrespond] at h
    cases h
    rfl
  · rw [hrespond] at h
    cases h
    rfl
  · exact absurd rfl hresult

/-- A name that is in the table is not waited for. -/
theorem connectImpl_ne_wait {name : String} (htable : (s.nameTable name).isSome = true)
    (hname : nameFromMsg msg 0 = .ok name) : s.connectImpl kernel msg ≠ .ok .wait := by
  intro h
  obtain ⟨name', hname', hnone⟩ := connectImpl_wait h
  rw [hname] at hname'
  cases hname'
  rw [hnone] at htable
  cases htable

/-- What waking does: the connections to the name are answered, each once, and only those. -/
structure Woken (name : String) (s s' : NameServer) (events : List Event) : Prop where
  tables : s' = { s with waitingConnections := s'.waitingConnections }
  quiet : Quiet events
  answered : s.waitingConnections.Perm (answers events ++ s'.waitingConnections)
  noneLeft : ∀ msg ∈ s'.waitingConnections, nameFromMsg msg 0 ≠ .ok name
  grants : ∀ grant, .granted grant ∈ events → s.GrantedBy grant

theorem woken_done {name : String} {i : Nat} (hend : s.waitingConnections.length ≤ i)
    (hbefore : ∀ j < i, ∀ msg, s.waitingConnections[j]? = some msg → nameFromMsg msg 0 ≠ .ok name) :
    Woken name s s [] := by
  refine ⟨rfl, nofun, .refl _, fun msg hmsg => ?_, nofun⟩
  obtain ⟨j, hj, hget⟩ := List.getElem_of_mem hmsg
  exact hbefore j (Nat.lt_of_lt_of_le hj hend) msg (List.getElem?_eq_some_iff.2 ⟨hj, hget⟩)

theorem wakeLoop_ok {name : String} {fuel i : Nat} {kernels : Nat → KernelCalls}
    (hfuel : s.waitingConnections.length ≤ fuel + i)
    (hbefore : ∀ j < i, ∀ msg, s.waitingConnections[j]? = some msg → nameFromMsg msg 0 ≠ .ok name)
    (h : wakeLoop name fuel i kernels s = .ok (s', events)) : Woken name s s' events := by
  induction fuel generalizing i kernels s events with
  | zero =>
    cases h
    exact woken_done (by omega) hbefore
  | succ fuel ih =>
    unfold wakeLoop at h
    split at h
    · next hend =>
      cases h
      exact woken_done (List.getElem?_eq_none_iff.1 hend) hbefore
    · next msg hmsg =>
      obtain ⟨hi, hget⟩ := List.getElem?_eq_some_iff.1 hmsg
      split at h
      · obtain ⟨first, hfirst, h⟩ := bind_eq_ok.1 h
        obtain ⟨⟨s₁, more⟩, hmore, h⟩ := bind_eq_ok.1 h
        cases h
        have hlen := swapRemove_length hi
        have hrest : Woken name { s with waitingConnections := swapRemove s.waitingConnections i }
            s' more := by
          refine ih (by dsimp only; omega) (fun j hj msg' hmsg' => ?_) hmore
          exact hbefore j hj msg' ((swapRemove_before hj hi).symm.trans hmsg')
        obtain ⟨hfirstQuiet, hanswers, hfirstGrants⟩ := connectEvents_ok hfirst
        refine ⟨hrest.tables, hfirstQuiet.append hrest.quiet, ?_, hrest.noneLeft, fun grant hg => ?_⟩
        · rw [answers_append, hanswers, List.append_assoc]
          have := (swapRemove_perm hi).trans (hrest.answered.cons _)
          rwa [hget] at this
        · rcases List.mem_append.1 hg with hg | hg
          · obtain ⟨cid, granted, hok, hmem⟩ := hfirstGrants grant hg
            exact ⟨kernels 0, msg, cid, granted, hok, hmem⟩
          · exact hrest.grants grant hg
      · next hname =>
        refine ih (by omega) (fun j hj msg' hmsg' => ?_) h
        rcases Nat.lt_succ_iff_lt_or_eq.1 hj with hj | rfl
        · exact hbefore j hj msg' hmsg'
        · rw [hmsg] at hmsg'
          cases hmsg'
          exact hname

theorem wakeWaitingConnections_ok {name : String} {kernels : Nat → KernelCalls}
    (h : s.wakeWaitingConnections kernels name = .ok (s', events)) : Woken name s s' events :=
  wakeLoop_ok (Nat.le_refl _) (fun j hj => absurd hj (Nat.not_lt_zero j)) h

/-- Waking only panics where an answer cannot be written. -/
theorem wakeLoop_error {name : String} {fuel i : Nat} {kernels : Nat → KernelCalls} {p : Panic}
    (htable : (s.nameTable name).isSome = true) (h : wakeLoop name fuel i kernels s = .error p) :
    p = .notWritable ∧ ∃ msg ∈ s.waitingConnections, ¬ Writable msg := by
  induction fuel generalizing i kernels s with
  | zero => cases h
  | succ fuel ih =>
    unfold wakeLoop at h
    split at h
    · cases h
    · next msg hmsg =>
      obtain ⟨hi, hget⟩ := List.getElem?_eq_some_iff.1 hmsg
      split at h
      · next hname =>
        rcases bind_eq_error.1 h with hfirst | ⟨first, -, h⟩
        · obtain ⟨hp, hno⟩ := connectEvents_error (connectImpl_ne_wait htable hname) hfirst
          exact ⟨hp, msg, List.mem_of_getElem? hmsg, hno⟩
        · rcases bind_eq_error.1 h with hmore | ⟨rest, -, h⟩
          · obtain ⟨hp, msg', hmem, hno⟩ := ih (s := { s with
              waitingConnections := swapRemove s.waitingConnections i }) htable hmore
            refine ⟨hp, msg', ?_, hno⟩
            exact (swapRemove_perm hi).symm.subset (List.mem_cons_of_mem _ hmem)
          · cases h
      · exact ih htable h

/-! ## 3. One round -/

/-- What a registration checks, and what it enters. -/
theorem registerImpl_ok {name : String} {event : Event}
    (h : s.registerImpl kernel msg = .ok (s', name, event)) :
    ∃ pid appId sid names, s.registerPermissions appId = some names ∧ name ∈ names ∧
      s.nameTable name = none ∧ event = .registered pid appId name sid pid ∧
      s' = { s with
        nameTable := Function.update s.nameTable name (some sid)
        registeredNamesByPid := Function.update s.registeredNamesByPid pid
          (some (insert name ((s.registeredNamesByPid pid).getD ∅))) } := by
  obtain ⟨sid, -, h⟩ := bind_eq_ok.1 h
  obtain ⟨serverName, -, h⟩ := bind_eq_ok.1 h
  obtain ⟨pid, -, h⟩ := bind_eq_ok.1 h
  obtain ⟨appId, -, h⟩ := bind_eq_ok.1 h
  split at h
  · cases h
  · next names hnames =>
    split at h
    · cases h
    · next hin =>
      split at h
      · cases h
      · next owner howner =>
        split at h
        · cases h
        · next heq =>
          split at h
          · cases h
          · next hfree =>
            cases h
            rw [not_not] at hin heq
            subst heq
            refine ⟨owner, appId, sid, names, hnames, hin, ?_, rfl, rfl⟩
            exact Option.not_isSome_iff_eq_none.1 hfree

section Parsing

variable {tryFromBytes : List UInt8 → Option Manifest} {r : Received}

theorem addManifestImpl_ok {manifest : Manifest}
    (h : s.addManifestImpl tryFromBytes kernel msg = .ok (s', manifest)) :
    manifest.fixedSids.entries = [] ∧ s.processManifestUpdate manifest = .ok s' := by
  obtain ⟨_, -, h⟩ := bind_eq_ok.1 h
  split at h
  · cases h
  · split at h
    · cases h
    · split at h
      · cases h
      · split at h
        · cases h
        · split at h
          · cases h
          · next hfixed =>
            obtain ⟨s₁, hupdate, h⟩ := bind_eq_ok.1 h
            cases h
            exact ⟨not_not.1 hfixed, hupdate⟩

theorem removeManifestImpl_ok {appId : AppId}
    (h : s.removeManifestImpl kernel msg = .ok (s', appId)) : s' = s.removeManifest appId := by
  obtain ⟨_, -, h⟩ := bind_eq_ok.1 h
  split at h
  · cases h
  · split at h
    · cases h
    · split at h
      · cases h
      · split at h
        · cases h
        · cases h
          rfl

/-- What one round does. A message that is owed an answer is answered, or waits. -/
inductive Step (tryFromBytes : List UInt8 → Option Manifest) (s : NameServer) (r : Received) :
    NameServer → List Event → Prop
  | disconnected (pid : PID) : ¬ Owed r.msg → Step tryFromBytes s r (s.unregisterPid pid) []
  | ignored : ¬ Owed r.msg → Step tryFromBytes s r s []
  | answered {events : List Event} : Owed r.msg → Quiet events → answers events = [r.msg] →
      (∀ grant, .granted grant ∈ events → s.GrantedBy grant) → Step tryFromBytes s r s events
  | waits : Owed r.msg → s.connectImpl (r.kernels 0) r.msg = .ok .wait →
      Step tryFromBytes s r { s with waitingConnections := s.waitingConnections ++ [r.msg] } []
  | registers {s₁ s' : NameServer} {name : String} {event : Event} {events : List Event} :
      Owed r.msg → s.registerImpl (r.kernels 0) r.msg = .ok (s₁, name, event) →
      Woken name s₁ s' events →
      Step tryFromBytes s r s' (event :: .answered r.msg .success :: events)
  | accepts {s' : NameServer} {manifest : Manifest} :
      Owed r.msg → Opcode.fromUsize r.msg.id = some .addManifest →
      s.addManifestImpl tryFromBytes (r.kernels 0) r.msg = .ok (s', manifest) →
      Step tryFromBytes s r s' [.accepted manifest, .answered r.msg .success]
  | removes {s' : NameServer} {appId : AppId} :
      Owed r.msg → Opcode.fromUsize r.msg.id = some .removeManifest →
      s.removeManifestImpl (r.kernels 0) r.msg = .ok (s', appId) →
      Step tryFromBytes s r s' [.removed appId, .answered r.msg .success]

theorem step_connect {result : Except Error ConnectSuccess} (howed : Owed r.msg)
    (hresult : result = s.connectImpl kernel msg)
    (h : connectEvents r.msg result = .ok events) : Step tryFromBytes s r s events := by
  obtain ⟨hquiet, hanswers, hgrants⟩ := connectEvents_ok h
  refine .answered howed hquiet hanswers fun grant hg => ?_
  obtain ⟨cid, granted, hok, hmem⟩ := hgrants grant hg
  exact ⟨kernel, msg, cid, granted, hresult.symm.trans hok, hmem⟩

theorem step_respond {response : Response} {event : Event} (howed : Owed r.msg)
    (h : respond r.msg response = .ok event) : Step tryFromBytes s r s [event] := by
  rw [of_respond_ok h]
  refine .answered howed (quiet_answered _ _) rfl fun grant hg => ?_
  cases List.mem_singleton.1 hg

theorem handle_cases (howed : Owed r.msg) (h : s.handle tryFromBytes r = .ok (s', events)) :
    Step tryFromBytes s r s' events := by
  unfold handle at h
  dsimp only at h
  split at h
  · split at h
    · next s₁ name event hregister =>
      obtain ⟨answer, hanswer, h⟩ := bind_eq_ok.1 h
      obtain ⟨⟨s₂, more⟩, hwake, h⟩ := bind_eq_ok.1 h
      cases h
      rw [of_respond_ok hanswer]
      exact .registers howed hregister (wakeWaitingConnections_ok hwake)
    · obtain ⟨event, hevent, h⟩ := bind_eq_ok.1 h
      cases h
      exact step_respond howed hevent
  · split at h
    · next hwait =>
      cases h
      exact .waits howed hwait
    · next result hresult =>
      obtain ⟨more, hmore, h⟩ := bind_eq_ok.1 h
      cases h
      exact step_connect howed rfl hmore
  · split at h
    · obtain ⟨event, hevent, h⟩ := bind_eq_ok.1 h
      cases h
      exact step_respond howed hevent
    · obtain ⟨more, hmore, h⟩ := bind_eq_ok.1 h
      cases h
      exact step_connect howed rfl hmore
  · split at h
    · next s₁ manifest hadd =>
      obtain ⟨event, hevent, h⟩ := bind_eq_ok.1 h
      cases h
      rw [of_respond_ok hevent]
      exact .accepts howed ‹_› hadd
    · obtain ⟨event, hevent, h⟩ := bind_eq_ok.1 h
      cases h
      exact step_respond howed hevent
  · split at h
    · next s₁ appId hremove =>
      obtain ⟨event, hevent, h⟩ := bind_eq_ok.1 h
      cases h
      rw [of_respond_ok hevent]
      exact .removes howed ‹_› hremove
    · obtain ⟨event, hevent, h⟩ := bind_eq_ok.1 h
      cases h
      exact step_respond howed hevent
  · split at h
    · obtain ⟨event, hevent, h⟩ := bind_eq_ok.1 h
      cases h
      exact step_respond howed hevent
    · obtain ⟨event, hevent, h⟩ := bind_eq_ok.1 h
      cases h
      exact step_respond howed hevent
  · cases h
    refine .answered howed (quiet_answered _ _) rfl fun grant hg => ?_
    cases List.mem_singleton.1 hg

theorem step_cases (h : s.step tryFromBytes r = .ok (s', events)) :
    Step tryFromBytes s r s' events := by
  unfold step at h
  dsimp only at h
  split at h
  · next hid =>
    split at h
    · next pid _ =>
      cases h
      exact .disconnected pid fun howed => howed.1 hid
    · cases h
      exact .ignored fun howed => howed.1 hid
  · next hid =>
    split at h
    · next hblocking =>
      cases h
      exact .ignored fun howed => hblocking howed.2
    · next hblocking =>
      have howed : Owed r.msg := ⟨hid, not_not.1 hblocking⟩
      split at h
      · split at h
        · cases h
          refine .answered howed (quiet_answered _ _) rfl fun grant hg => ?_
          cases List.mem_singleton.1 hg
        · cases h
      · exact handle_cases howed h

/-- The answers can be given: nothing was lent to be read only, and the kernel takes the answer
to a scalar. -/
def Answerable (r : Received) : Prop :=
  (r.msg.body.hasMemory = true → Writable r.msg) ∧
  (r.msg.body.hasMemory = false → (r.kernels 0).returnScalar r.msg = .ok ())

theorem handle_runs (hwrite : Writable r.msg) (hwaiting : ∀ msg ∈ s.waitingConnections, Writable msg) :
    ∃ s' events, s.handle tryFromBytes r = .ok (s', events) := by
  have hconnect : ∀ result : Except Error ConnectSuccess, result ≠ .ok .wait →
      ∃ s' events, (do return (s, ← connectEvents r.msg result) :
        Except Panic (NameServer × List Event)) = .ok (s', events) := by
    intro result hresult
    obtain ⟨events, hevents⟩ := connectEvents_writable hwrite hresult
    exact ⟨s, events, by rw [hevents]; rfl⟩
  unfold handle
  dsimp only
  split
  · split
    · next s₁ name event hregister =>
      rw [respond_ok hwrite]
      cases hwake : s₁.wakeWaitingConnections (fun n => r.kernels (n + 1)) name with
      | ok result => exact ⟨result.1, _, rfl⟩
      | error p =>
        obtain ⟨pid, appId, sid, names, -, -, -, -, rfl⟩ := registerImpl_ok hregister
        obtain ⟨-, msg, hmem, hno⟩ := wakeLoop_error (by simp) hwake
        exact absurd (hwaiting msg hmem) hno
    · exact ⟨_, _, by rw [respond_ok hwrite]; rfl⟩
  · split
    · exact ⟨_, _, rfl⟩
    · next result hresult => exact hconnect _ hresult
  · split
    · exact ⟨_, _, by rw [respond_ok hwrite]; rfl⟩
    · next result hresult => exact hconnect _ hresult
  · split
    · exact ⟨_, _, by rw [respond_ok hwrite]; rfl⟩
    · exact ⟨_, _, by rw [respond_ok hwrite]; rfl⟩
  · split
    · exact ⟨_, _, by rw [respond_ok hwrite]; rfl⟩
    · exact ⟨_, _, by rw [respond_ok hwrite]; rfl⟩
  · split
    · exact ⟨_, _, by rw [respond_ok hwrite]; rfl⟩
    · exact ⟨_, _, by rw [respond_ok hwrite]; rfl⟩
  · exact ⟨_, _, rfl⟩

theorem step_runs (tryFromBytes : List UInt8 → Option Manifest) (hanswer : Answerable r) (hwaiting : ∀ msg ∈ s.waitingConnections, Writable msg) :
    ∃ s' events, s.step tryFromBytes r = .ok (s', events) := by
  unfold step
  dsimp only
  split
  · split
    · exact ⟨_, _, rfl⟩
    · exact ⟨_, _, rfl⟩
  · split
    · exact ⟨_, _, rfl⟩
    · split
      · next hmem =>
        rw [hanswer.2 (Bool.not_eq_true _ ▸ hmem)]
        exact ⟨_, _, rfl⟩
      · next hmem => exact handle_runs (hanswer.1 (not_not.1 hmem)) hwaiting

end Parsing

end NameServer

end Names
