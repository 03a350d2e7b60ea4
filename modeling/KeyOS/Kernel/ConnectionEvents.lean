import KeyOS.Kernel.Services

/-!
# A connection and its event

`connect_to_server` fills a slot of the connection table and then sends the event, and
`disconnect_from_server` frees one and then sends the event. The send fails when the
server's queue is full, and the slot stays as it is.

* `connect_atomic_iff` says when a connect that fails leaves the table alone.
* `World.Run.atomic` says the same about whole runs, and that every connection made has had
  one event.
-/

namespace Kernel

open Exec
open Exec.Prog (Triple)

namespace Services

variable {s s' t : Services} {pid : PID} {sidx : Nat} {A : ServicesPanic → Prop}

/-! ## 1. What the parts leave alone -/

/-- The connection tables, the servers and the accepted messages are those of `s`. -/
structure Frame (s s' : Services) : Prop where
  current : s'.current = s.current
  connections : ∀ pid, s'.connectionMap pid = s.connectionMap pid
  servers : s'.servers = s.servers
  accepted : s'.accepted = s.accepted

theorem Frame.refl : Frame s s := ⟨rfl, fun _ => rfl, rfl, rfl⟩

theorem Frame.trans (h : Frame s s') (h' : Frame s' t) : Frame s t :=
  ⟨h'.current.trans h.current, fun pid => (h'.connections pid).trans (h.connections pid),
    h'.servers.trans h.servers, h'.accepted.trans h.accepted⟩

theorem setThreadState_connections {table : ProcessTable} {th : Thread} {state : ThreadState} :
    Triple (· = table) (ProcessTable.setThreadState th state)
      (fun _ u => ∀ pid, (u.processes pid).map Process.connectionMap =
        (table.processes pid).map Process.connectionMap)
      (fun _ u => ∀ pid, (u.processes pid).map Process.connectionMap =
        (table.processes pid).map Process.connectionMap) fun _ => True := by
  have honScheduler : ∀ (c : Prop) [Decidable c] (x : Prog Scheduler Panic Error Unit),
      Triple (fun u : ProcessTable => u.processes = table.processes)
        (Prog.onlyIf c (ProcessTable.onScheduler x))
        (fun _ u => u.processes = table.processes)
        (fun _ u => ∀ pid, (u.processes pid).map Process.connectionMap =
          (table.processes pid).map Process.connectionMap) fun _ => True := by
    intro c _ x
    unfold Prog.onlyIf
    split
    · refine Triple.zoom fun u hu => ?_
      rcases x u.scheduler with ⟨o, scheduler⟩
      cases o with
      | ok a => exact hu
      | err e => exact fun pid => by rw [← hu]
      | panic p => trivial
    · exact Triple.pure fun _ hu => hu
  refine Triple.get_bind fun u hu => ?_
  subst hu
  refine Triple.bind (Triple.okOr (Q := fun p v => v = u ∧ u.processes th.pid = some p)
    (fun p hp v hv => ⟨hv, hp⟩) fun _ v hv _ => by rw [hv]) fun p => ?_
  rintro v ⟨rfl, hp⟩
  refine (?_ : Triple (fun u => u.processes = v.processes) _ _ _ _) v rfl
  refine Triple.bind (honScheduler _ _) fun _ => Triple.bind (honScheduler _ _) fun _ => ?_
  refine Triple.modify fun u hu pid => ?_
  by_cases heq : pid = th.pid
  · subst heq
    rw [ProcessTable.setProcess_self, hp]
    rfl
  · rw [ProcessTable.setProcess_of_ne heq, hu]

theorem wakeThread_spec {tid : TID} {E : Error → Services → Prop} :
    Triple (· = s) (wakeThread pid tid) (fun _ s' => Frame s s') E fun _ => True := by
  refine Triple.unwrap fun u hu => ?_
  subst hu
  have hset := @setThreadState_connections u.table ⟨pid, tid⟩ .ready u.table rfl
  revert hset
  unfold onTable
  rcases ProcessTable.setThreadState ⟨pid, tid⟩ .ready u.table with ⟨o, table⟩
  cases o with
  | ok a => exact fun h => ⟨rfl, h, rfl, rfl⟩
  | err e => exact fun _ => trivial
  | panic p => exact fun _ => trivial

theorem lt_of_serverFromSidx {server : Server} (h : s.serverFromSidx sidx = some server) :
    sidx < MAX_SERVER_COUNT := by
  rcases Nat.lt_or_ge sidx MAX_SERVER_COUNT with hlt | hge
  · exact hlt
  · rw [serverFromSidx, Vector.getElem?_eq_none hge] at h
    cases h

theorem serverFromSidx_set {server : Server} {server' : Server}
    (h : s.serverFromSidx sidx = some server) :
    serverFromSidx { s with servers := s.servers.setIfInBounds sidx (some server') } sidx =
      some server' := by
  rw [serverFromSidx, Vector.getElem?_setIfInBounds_self_of_lt (lt_of_serverFromSidx h)]
  rfl

/-- What an operation on a server does, seen from the services. -/
theorem onServer_spec {α : Type} {x : Prog Server Panic Error α} {server : Server}
    (hserver : s.serverFromSidx sidx = some server) {Q : α → Server → Prop} {E : Error → Server → Prop}
    (hx : Triple (· = server) x Q E fun _ => True) :
    Triple (· = s) (onServer sidx x)
      (fun a s' => ∃ server', Q a server' ∧
        s' = { s with servers := s.servers.setIfInBounds sidx (some server') })
      (fun e s' => ∃ server', E e server' ∧
        s' = { s with servers := s.servers.setIfInBounds sidx (some server') }) fun _ => True := by
  intro u hu
  subst hu
  have hrun := hx server rfl
  revert hrun
  unfold onServer
  rw [hserver]
  dsimp only
  rcases x server with ⟨o, server'⟩
  cases o with
  | ok a => exact fun h => ⟨server', h, rfl⟩
  | err e => exact fun h => ⟨server', h, rfl⟩
  | panic p => exact fun _ => trivial

/-- A scalar message is refused only by a queue without an empty slot. -/
theorem queueMessage_scalar {server : Server} {tid : TID} {message : ScalarMessage} :
    Triple (· = server) (Server.queueMessage pid tid (.scalar message) none) (fun _ _ => True)
      (fun _ _ => ∀ i ∈ server.probeOrder, server.queue[i]? ≠ some .empty) fun _ => True := by
  intro u hu
  subst hu
  unfold Server.queueMessage
  rcases Server.findEmptySlot_run u with ⟨i, -, hrun⟩ | ⟨hfull, hrun⟩
  · rw [Prog.bind_ok _ hrun]
    refine (?_ : Triple (fun _ => True) _ _ _ _) _ trivial
    refine Triple.bind (Q := fun _ _ => True) (Triple.gets fun _ _ => trivial) fun idx => ?_
    refine Triple.bind (Q := fun _ _ => True) (Triple.ofExcept (fun _ _ _ _ => trivial) nofun)
      fun q => ?_
    refine Triple.bind (Q := fun _ _ => True) (Triple.modify fun _ _ => trivial) fun _ => ?_
    refine Triple.get_bind fun v _ => ?_
    refine Triple.bind (Q := fun _ _ => True)
      (Triple.require (fun _ _ _ => trivial) fun _ => trivial) fun _ => ?_
    refine Triple.bind (Q := fun _ _ => True) (Triple.modify fun _ _ => trivial) fun _ => ?_
    refine Triple.get_bind fun v _ => ?_
    exact Triple.bind (Q := fun _ _ => True)
      (Triple.require (fun _ _ _ => trivial) fun _ => trivial) fun _ =>
        Triple.pure fun _ _ => trivial
  · rw [Prog.bind_err _ hrun]
    exact hfull

/-- The server cannot take another message: its queue is full. Where the count of empty
slots is right, its first half says all. -/
def Rejects (s : Services) (sidx : Nat) : Prop :=
  ∃ server, s.serverFromSidx sidx = some server ∧
    (server.isQueueFull = true ∨ server.readyThreads = 0#32 ∧
      ((s.process server.pid).isNone = true ∨
        ∀ i ∈ server.probeOrder, server.queue[i]? ≠ some .empty))

/-! ## 2. Sending an event -/

/-- From `s` to `s'` the messages `new` were accepted, and no connection changed. -/
structure Took (s s' : Services) (new : List Accepted) : Prop where
  current : s'.current = s.current
  connections : ∀ pid, s'.connectionMap pid = s.connectionMap pid
  accepted : s'.accepted = s.accepted ++ new

theorem Frame.took (h : Frame s s') : Took s s' [] :=
  ⟨h.current, h.connections, by rw [h.accepted, List.append_nil]⟩

theorem took_setServers {servers : Vector (Option Server) MAX_SERVER_COUNT} :
    Took s { s with servers := servers } [] :=
  ⟨rfl, fun _ => rfl, (List.append_nil _).symm⟩

/-- No thread is taken only where none waits. -/
theorem takeAvailableThread_spec {server : Server} :
    Triple (· = server) Server.takeAvailableThread
      (fun tid server' => tid = none → server' = server ∧ server.readyThreads = 0#32)
      (fun _ _ => False) fun _ => True := by
  refine Triple.get_bind fun u hu => ?_
  subst hu
  split
  next hzero => exact Triple.pure fun v hv _ => ⟨hv, hzero⟩
  next =>
    refine Triple.bind (Q := fun _ _ => True) (Triple.expect (fun _ _ _ _ => trivial) fun _ => trivial)
      fun tid => ?_
    exact Triple.bind (Q := fun _ _ => True) (Triple.modify fun _ _ => trivial) fun _ =>
      Triple.pure fun _ _ => nofun

theorem queueServerMessage_spec {server : Server} {tid : TID} {message : ScalarMessage}
    (hserver : s.serverFromSidx sidx = some server) :
    Triple (· = s) (queueServerMessage sidx pid tid (.scalar message))
      (fun _ s' => Took s s' [⟨sidx, s.current, .scalar message⟩])
      (fun _ s' => Took s s' [] ∧ ((s.process server.pid).isNone = true ∨
        ∀ i ∈ server.probeOrder, server.queue[i]? ≠ some .empty)) fun _ => True := by
  refine Triple.get_bind fun u hu => ?_
  subst hu
  rw [hserver]
  refine Triple.bind (Q := fun server' v => server' = server ∧ v = u)
    (Triple.pure fun v hv => ⟨rfl, hv⟩) fun server' => ?_
  rintro v ⟨rfl, rfl⟩
  refine (?_ : Triple (· = v) _ _ _ _) v rfl
  refine Triple.bind (Q := fun _ w => w = v) (Triple.okOr (fun _ _ w hw => hw)
    fun hnone w hw => ?_) fun _ => ?_
  · subst hw
    exact ⟨Frame.refl.took, .inl (by rw [hnone]; rfl)⟩
  refine Triple.bind ((onServer_spec hserver queueMessage_scalar).conseq (fun _ h => h)
    (fun _ _ h => h) (fun _ w hw => ?_) fun _ => id) fun _ => ?_
  · obtain ⟨_, hfull, rfl⟩ := hw
    exact ⟨took_setServers, .inr hfull⟩
  · rintro w ⟨_, -, rfl⟩
    refine (?_ : Triple (fun w => Took v w [] ∧ w.current = v.current) _ _ _ _) _
      ⟨took_setServers, rfl⟩
    refine Triple.bind (Triple.expect (Q := fun _ w => Took v w []) (fun _ _ w hw => hw.1)
      fun _ => trivial) fun _ => ?_
    refine Triple.modify fun w hw => ⟨hw.current, hw.connections, ?_⟩
    rw [hw.accepted, List.append_nil, hw.current]

/-- A message is accepted once, or refused by a full queue. -/
theorem sendScalarInner_spec {tid : TID} {message : ScalarMessage} :
    Triple (· = s) (sendScalarInner tid sidx message)
      (fun _ s' => Took s s' [⟨sidx, s.current, .scalar message⟩])
      (fun _ s' => Took s s' [] ∧ Rejects s sidx) fun _ => True := by
  refine Triple.get_bind fun u hu => ?_
  subst hu
  refine Triple.bind (Triple.expect (Q := fun server v => v = u ∧
    u.serverFromSidx sidx = some server) (fun server h v hv => ⟨hv, h⟩) fun _ => trivial)
    fun server => ?_
  rintro v ⟨rfl, hserver⟩
  refine (?_ : Triple (· = v) _ _ _ _) v rfl
  split
  next hfull =>
    refine Triple.throw fun w hw => ?_
    subst hw
    exact ⟨Frame.refl.took, server, hserver, .inl hfull⟩
  next =>
    refine Triple.bind ((onServer_spec hserver takeAvailableThread_spec).conseq (fun _ h => h)
      (fun _ _ h => h) (fun _ w hw => hw.elim fun _ h => h.1.elim) fun _ => id) fun tid? => ?_
    rintro w ⟨server', htake, rfl⟩
    cases tid? with
    | some serverTid =>
      refine (?_ : Triple (fun w => Took v w []) _ _ _ _) _ took_setServers
      refine Triple.bind (Q := fun _ w => Took v w []) (fun w hw => ?_) fun _ => ?_
      · refine (?_ : Triple (· = w) _ _ _ _) w rfl
        exact wakeThread_spec.conseq (fun _ h => h)
          (fun _ t ht => ⟨ht.current.trans hw.current,
            fun pid => (ht.connections pid).trans (hw.connections pid),
            ht.accepted.trans hw.accepted⟩) (fun _ _ h => h) fun _ => id
      · refine Triple.modify fun w hw => ⟨hw.current, hw.connections, ?_⟩
        rw [hw.accepted, List.append_nil, hw.current]
    | none =>
      obtain ⟨rfl, hready⟩ := htake rfl
      have hserver' : serverFromSidx { v with servers := v.servers.setIfInBounds sidx (some server') } sidx =
        some server' := serverFromSidx_set hserver
      exact (queueServerMessage_spec hserver').conseq (fun _ h => h)
        (fun _ w hw => ⟨hw.current, hw.connections, hw.accepted⟩)
        (fun _ w hw => ⟨⟨hw.1.current, hw.1.connections, hw.1.accepted⟩,
          server', hserver, .inr ⟨hready, hw.2⟩⟩) (fun _ => id) _ rfl


/-! ## 3. Events of a server -/

/-- The message that tells the server of the event, if it asked for one. -/
def announcement (s : Services) (sidx : Nat) (event : ServerEvent) : List Accepted :=
  match (s.serverFromSidx sidx).bind fun server => server.eventHandlers event with
  | some id => [⟨sidx, s.current, .scalar ⟨id, 0, 0, 0, 0⟩⟩]
  | none => []

/-- The server asked for the event and cannot take its message. -/
def Unheard (s : Services) (sidx : Nat) (event : ServerEvent) : Prop :=
  announcement s sidx event ≠ [] ∧ Rejects s sidx

theorem announcement_congr (h : s'.servers = s.servers) (hcurrent : s'.current = s.current)
    (event : ServerEvent) : announcement s' sidx event = announcement s sidx event := by
  unfold announcement serverFromSidx
  rw [h, hcurrent]

theorem announcement_of_le (h : MAX_SERVER_COUNT ≤ sidx) (event : ServerEvent) :
    announcement s sidx event = [] := by
  unfold announcement serverFromSidx
  rw [Vector.getElem?_eq_none h]
  rfl

theorem rejects_congr (hservers : s'.servers = s.servers)
    (hconnections : ∀ pid, (s'.connectionMap pid).isSome = (s.connectionMap pid).isSome) :
    Rejects s' sidx ↔ Rejects s sidx := by
  have hisNone : ∀ pid, (s'.process pid).isNone = (s.process pid).isNone := by
    intro pid
    have h := hconnections pid
    rw [connectionMap, connectionMap, Option.isSome_map, Option.isSome_map] at h
    rw [← Option.not_isSome, ← Option.not_isSome, h]
  unfold Rejects serverFromSidx
  simp only [hservers, hisNone]

theorem sendServerEvent_spec {event : ServerEvent} :
    Triple (· = s) (sendServerEvent sidx event)
      (fun _ s' => Took s s' (announcement s sidx event))
      (fun _ s' => Took s s' [] ∧ Unheard s sidx event) fun _ => True := by
  refine Triple.get_bind fun u hu => ?_
  subst hu
  cases hserver : u.serverFromSidx sidx with
  | none =>
    have hnone : announcement u sidx event = [] := by rw [announcement, hserver]; rfl
    refine Triple.pure fun v hv => ?_
    rw [hv, hnone]
    exact Frame.refl.took
  | some server =>
    cases hid : server.eventHandlers event with
    | none =>
      have hnone : announcement u sidx event = [] := by
        rw [announcement, hserver, Option.bind_some, hid]
      simp only [hid]
      refine Triple.pure fun v hv => ?_
      rw [hv, hnone]
      exact Frame.refl.took
    | some id =>
      have hsome : announcement u sidx event = [⟨sidx, u.current, .scalar ⟨id, 0, 0, 0, 0⟩⟩] := by
        rw [announcement, hserver, Option.bind_some, hid]
      simp only [hid]
      rw [Unheard, hsome]
      exact sendScalarInner_spec.conseq (fun _ h => h) (fun _ _ h => h)
        (fun _ _ h => ⟨h.1, List.cons_ne_nil _ _, h.2⟩) fun _ h => h


/-! ## 4. Connection tables -/

theorem any_set {α : Type} {f : α → Bool} {l : List α} {i : Nat} {a b : α} (h : l[i]? = some a)
    (hf : f a = true → f b = true) : (l.set i b).any f = (l.any f || f b) := by
  induction l generalizing i with
  | nil => cases h
  | cons c l ih =>
    cases i with
    | zero =>
      cases h
      rw [List.set_cons_zero, List.any_cons, List.any_cons]
      cases ha : f a with
      | false => rw [Bool.false_or, Bool.or_comm]
      | true => rw [hf ha, Bool.true_or, Bool.true_or]
    | succ i => rw [List.set_cons_succ, List.any_cons, List.any_cons, ih h, Bool.or_assoc]

theorem any_of_any_set {α : Type} {f : α → Bool} {l : List α} {i : Nat} {b : α}
    (hf : f b = true → l.any f = true) (h : (l.set i b).any f = true) : l.any f = true := by
  obtain ⟨c, hc, hfc⟩ := List.any_eq_true.1 h
  rcases List.mem_or_eq_of_mem_set hc with hmem | heq
  · exact List.any_eq_true.2 ⟨c, hmem, hfc⟩
  · exact hf (heq ▸ hfc)

/-- The process holds a connection to the server. -/
def holds (s : Services) (pid : PID) (server : UInt8) : Bool :=
  (s.connectionMap pid).any fun slots => slots.any fun slot => slot.connectedTo == some server

theorem holds_congr {server : UInt8} (h : s'.connectionMap pid = s.connectionMap pid) :
    s'.holds pid server = s.holds pid server := by
  rw [holds, holds, h]

/-- A process that is replaced by one with another connection table. -/
theorem connectionMap_putProcess {p : Process} {q : PID} :
    (s.putProcess pid p).connectionMap q =
      if q = pid then some p.connectionMap else s.connectionMap q := by
  unfold connectionMap process putProcess
  split
  next h => rw [h, ProcessTable.setProcess_self]; rfl
  next h => rw [ProcessTable.setProcess_of_ne h]

/-- A connection to the server that `p` does not have can be made. -/
def Fresh (p : Process) (server : UInt8) : Prop :=
  p.findConnected server = none ∧ p.findFree.isSome = true

theorem findConnected_some {p : Process} {server : UInt8} {cidx refcount generation : Nat}
    {permissions : MessagePermissions}
    (h : p.findConnected server = some (cidx, refcount, generation, permissions)) :
    p.connectionMap[cidx]? = some (.connected server refcount generation permissions) := by
  obtain ⟨⟨slot, i⟩, hmem, h⟩ := List.exists_of_findSome?_eq_some h
  cases slot with
  | connected sidxOther refcount' generation' permissions' =>
    dsimp only at h
    split at h
    next heq =>
      cases h
      rw [← heq]
      exact List.mem_zipIdx_iff_getElem?.1 hmem
    next => cases h
  | free generation => cases h
  | tombstone refcount generation => cases h
  | condemned => cases h

theorem findConnected_none {p : Process} {server : UInt8} (h : p.findConnected server = none) :
    (p.connectionMap.any fun slot => slot.connectedTo == some server) = false := by
  refine List.any_eq_false.2 fun slot hslot => ?_
  obtain ⟨i, hi⟩ := List.mem_iff_getElem?.1 hslot
  have hnone := List.findSome?_eq_none_iff.1 h (slot, i) (List.mem_zipIdx_iff_getElem?.2 hi)
  cases slot with
  | connected sidxOther refcount generation permissions =>
    dsimp only at hnone
    split at hnone
    next => cases hnone
    next hne => simpa [ConnectionSlot.connectedTo] using hne
  | free generation => exact Bool.false_ne_true
  | tombstone refcount generation => exact Bool.false_ne_true
  | condemned => exact Bool.false_ne_true

theorem findFree_some {p : Process} {cidx generation : Nat}
    (h : p.findFree = some (cidx, generation)) :
    p.connectionMap[cidx]? = some (.free generation) := by
  obtain ⟨⟨slot, i⟩, hmem, h⟩ := List.exists_of_findSome?_eq_some h
  cases slot with
  | free generation' =>
    cases h
    exact List.mem_zipIdx_iff_getElem?.1 hmem
  | connected sidx refcount generation permissions => cases h
  | tombstone refcount generation => cases h
  | condemned => cases h

/-- What `add_connection` makes of `p`: the server is held, and the flag says whether the
connection is new. -/
structure Added (p : Process) (server : UInt8) (new : Bool) (p' : Process) : Prop where
  holds : ∀ other, (p'.connectionMap.any fun slot => slot.connectedTo == some other) =
    ((p.connectionMap.any fun slot => slot.connectedTo == some other) || other == server)
  old : new = false → (p.connectionMap.any fun slot => slot.connectedTo == some server) = true
  fresh : new = true → Fresh p server
  changed : p'.connectionMap ≠ p.connectionMap

theorem holds_setSlot {p : Process} {cidx refcount generation : Nat} {slot : ConnectionSlot}
    {server : UInt8} {permissions : MessagePermissions} (hslot : p.connectionMap[cidx]? = some slot)
    (hto : ∀ other, slot.connectedTo = some other → other = server) (other : UInt8) :
    ((p.setSlot cidx (.connected server refcount generation permissions)).connectionMap.any
      fun slot => slot.connectedTo == some other) =
        ((p.connectionMap.any fun slot => slot.connectedTo == some other) || other == server) := by
  have hset := any_set (f := fun slot : ConnectionSlot => slot.connectedTo == some other)
    (b := .connected server refcount generation permissions) hslot fun h => by
      rw [ConnectionSlot.connectedTo, hto other (eq_of_beq h), beq_self_eq_true]
  rw [Process.setSlot, hset]
  congr 1
  rw [ConnectionSlot.connectedTo, Bool.eq_iff_iff, beq_iff_eq, beq_iff_eq, Option.some_inj]
  exact eq_comm

theorem setSlot_ne {p : Process} {cidx : Nat} {slot slot' : ConnectionSlot}
    (hslot : p.connectionMap[cidx]? = some slot) (hne : slot' ≠ slot) :
    (p.setSlot cidx slot').connectionMap ≠ p.connectionMap := by
  intro heq
  have hat := congrArg (·[cidx]?) heq
  dsimp only [Process.setSlot] at hat
  rw [List.getElem?_set_self (List.getElem?_eq_some_iff.1 hslot).1, hslot] at hat
  exact hne (Option.some.inj hat)

theorem addConnection_spec {p : Process} {permissions : MessagePermissions} :
    Triple (· = p) (Process.addConnection sidx permissions)
      (fun result p' => Added p (UInt8.ofNat sidx) result.2 p')
      (fun _ p' => p' = p ∧ ¬ Fresh p (UInt8.ofNat sidx)) fun _ => False := by
  refine Triple.get_bind fun u hu => ?_
  subst hu
  split
  next cidx refcount generation permissions' hfound =>
    have hslot := findConnected_some hfound
    split
    next =>
      refine Triple.bind (Q := fun _ p' => p' = u.setSlot cidx (.connected (UInt8.ofNat sidx)
        (refcount + 1) generation permissions')) (Triple.modify fun v hv => by rw [hv]) fun _ => ?_
      refine Triple.pure fun v hv => ?_
      subst hv
      refine ⟨holds_setSlot hslot fun _ h => (Option.some.inj h).symm, fun _ => ?_, nofun,
        setSlot_ne hslot fun h => ?_⟩
      · exact List.any_eq_true.2 ⟨_, List.mem_of_getElem? hslot, beq_self_eq_true _⟩
      · injection h with _ hcount
        omega
    next =>
      exact Triple.throw fun v hv => ⟨hv, fun h => nomatch hfound.symm.trans h.1⟩
  next hnone =>
    split
    next cidx generation hfree =>
      have hslot := findFree_some hfree
      refine Triple.bind (Q := fun _ p' => p' = u.setSlot cidx (.connected (UInt8.ofNat sidx)
        1 (generation + 1) permissions)) (Triple.modify fun v hv => by rw [hv]) fun _ => ?_
      refine Triple.pure fun v hv => ?_
      subst hv
      exact ⟨holds_setSlot hslot nofun, nofun, fun _ => ⟨hnone, by rw [hfree]; rfl⟩,
        setSlot_ne hslot nofun⟩
    next hfree =>
      exact Triple.throw fun v hv => ⟨hv, fun h => by rw [Fresh, hfree] at h; cases h.2⟩

/-! ## 5. Connecting -/

/-- The event of a connection that the call would make cannot be delivered. -/
def ConnectLost (s : Services) (pid : PID) (sid : SID) : Prop :=
  ∃ sidx p, s.position sid = some sidx ∧ s.process pid = some p ∧ Fresh p (UInt8.ofNat sidx) ∧
    Unheard s sidx .newConnection

/-- What a call of `connect_to_server` that succeeds does. -/
structure Connected (s : Services) (pid : PID) (sidx : Nat) (s' : Services) : Prop where
  holds : ∀ q other, s'.holds q other =
    (s.holds q other || (q = pid && other == UInt8.ofNat sidx))
  accepted : s'.accepted = s.accepted ++
    if s.holds pid (UInt8.ofNat sidx) = true then [] else announcement s sidx .newConnection

/-- What a call that fails does: nothing, or the connection is there without its event. -/
structure Refused (s : Services) (pid : PID) (sid : SID) (s' : Services) : Prop where
  accepted : s'.accepted = s.accepted
  connections : (∀ q, s'.connectionMap q = s.connectionMap q) ∧ ¬ ConnectLost s pid sid ∨
    s'.connectionMap pid ≠ s.connectionMap pid ∧ ConnectLost s pid sid

theorem position_lt {sid : SID} (h : s.position sid = some sidx) : sidx < MAX_SERVER_COUNT := by
  have := (List.findIdx?_eq_some_iff_findIdx_eq.1 h).1
  rwa [Vector.length_toList] at this

theorem onProcess_spec {α : Type} {x : Prog Process Panic Error α} {p : Process}
    (hp : s.process pid = some p) {Q : α → Process → Prop} {E : Error → Process → Prop}
    (hx : Triple (· = p) x Q E fun _ => True) :
    Triple (· = s) (onProcess pid x)
      (fun a s' => ∃ p', Q a p' ∧ s' = s.putProcess pid p')
      (fun e s' => ∃ p', E e p' ∧ s' = s.putProcess pid p')
      fun _ => True := by
  intro u hu
  subst hu
  have hrun := hx p rfl
  revert hrun
  unfold onProcess
  rw [hp]
  dsimp only
  rcases x p with ⟨o, p'⟩
  cases o with
  | ok a => exact fun h => ⟨p', h, rfl⟩
  | err e => exact fun h => ⟨p', h, rfl⟩
  | panic p => exact fun _ => trivial

theorem announcement_putProcess {p : Process} {event : ServerEvent} :
    announcement (s.putProcess pid p) sidx event = announcement s sidx event :=
  announcement_congr (show (s.putProcess pid p).servers = s.servers from rfl) rfl event

theorem unheard_putProcess {p p' : Process} (hp : s.process pid = some p) {event : ServerEvent} :
    Unheard (s.putProcess pid p') sidx event ↔ Unheard s sidx event := by
  have hservers : (s.putProcess pid p').servers = s.servers := rfl
  have hisSome : ∀ q, ((s.putProcess pid p').connectionMap q).isSome =
      (s.connectionMap q).isSome := by
    intro q
    rw [connectionMap_putProcess]
    split
    next h => rw [h, connectionMap, hp]; rfl
    next => rfl
  rw [Unheard, Unheard, rejects_congr hservers hisSome, announcement_putProcess]

/-- A connection that is new, and the event that goes with it. -/
theorem newConnection_spec {p p' : Process} (hp : s.process pid = some p)
    (hadded : Added p (UInt8.ofNat sidx) true p') {sid : SID} (hsidx : s.position sid = some sidx) :
    Triple (· = s.putProcess pid p')
      (sendServerEvent sidx .newConnection)
      (fun _ s' => Connected s pid sidx s') (fun _ s' => Refused s pid sid s') fun _ => True := by
  have hmap : s.connectionMap pid = some p.connectionMap := by rw [connectionMap, hp]; rfl
  have hnone := findConnected_none (hadded.fresh rfl).1
  refine sendServerEvent_spec.conseq (fun _ h => h) (fun _ s' h => ⟨fun q other => ?_, ?_⟩)
    (fun _ s' h => ⟨?_, .inr ⟨?_, ?_⟩⟩) fun _ h => h
  · rw [holds, h.connections, connectionMap_putProcess, holds]
    split
    next heq =>
      rw [heq, hmap, Option.any_some, Option.any_some, hadded.holds, decide_eq_true rfl,
        Bool.true_and]
    next hne => rw [decide_eq_false hne, Bool.false_and, Bool.or_false]
  · rw [h.accepted, holds, hmap, Option.any_some, hnone, if_neg Bool.false_ne_true,
      announcement_putProcess]
    rfl
  · exact h.1.accepted.trans (List.append_nil _)
  · rw [h.1.connections, connectionMap_putProcess, if_pos rfl, hmap]
    exact fun heq => hadded.changed (Option.some.inj heq)
  · exact ⟨sidx, p, hsidx, hp, hadded.fresh rfl, (unheard_putProcess hp).1 h.2⟩

theorem connectToServer_spec {sid : SID} :
    Triple (· = s) (connectToServer pid sid)
      (fun _ s' => ∃ sidx, s.position sid = some sidx ∧ Connected s pid sidx s')
      (fun _ s' => Refused s pid sid s') fun _ => True := by
  have hrefused : ¬ ConnectLost s pid sid → Refused s pid sid s := fun h =>
    ⟨rfl, .inl ⟨fun _ => rfl, h⟩⟩
  refine Triple.get_bind fun u hu => ?_
  subst hu
  refine Triple.bind (Triple.okOr (Q := fun sidx v => v = u ∧ u.position sid = some sidx)
    (fun sidx h v hv => ⟨hv, h⟩) fun hnone v hv => ?_) fun sidx => ?_
  · subst hv
    refine hrefused ?_
    rintro ⟨sidx, p, hsidx, -⟩
    rw [hnone] at hsidx
    cases hsidx
  rintro v ⟨rfl, hsidx⟩
  refine (?_ : Triple (· = v) _ _ _ _) v rfl
  refine Triple.bind (Q := fun _ w => w = v) (Triple.expect (fun _ _ w hw => hw) fun _ => trivial)
    fun server => ?_
  cases hp : v.process pid with
  | none =>
    have hlost : ¬ ConnectLost v pid sid := by
      rintro ⟨sidx, p, -, hp', -⟩
      rw [hp] at hp'
      cases hp'
    have hrun : onProcess pid (Process.addConnection sidx server.defaultPermissions) v =
        (.err .processNotFound, v) := by
      unfold onProcess
      rw [hp]
    intro w hw
    subst hw
    rw [Prog.bind_err _ hrun]
    exact hrefused hlost
  | some p =>
    refine Triple.bind ((onProcess_spec hp (addConnection_spec.conseq (fun _ h => h)
      (fun _ _ h => h) (fun _ _ h => h) fun _ _ => trivial)).conseq (fun _ h => h)
      (fun _ _ h => h) (fun _ w hw => ?_) fun _ h => h) fun result => ?_
    · obtain ⟨p', ⟨rfl, hfresh⟩, rfl⟩ := hw
      refine ⟨rfl, .inl ⟨fun q => ?_, ?_⟩⟩
      · rw [connectionMap_putProcess]
        split
        next h => rw [h, connectionMap, hp]; rfl
        next => rfl
      · rintro ⟨sidx', p'', hsidx', hp'', hfresh', -⟩
        cases hsidx.symm.trans hsidx'
        cases hp.symm.trans hp''
        exact hfresh hfresh'
    · rintro w ⟨p', hadded, rfl⟩
      obtain ⟨cid, new⟩ := result
      cases new with
      | true =>
        refine (?_ : Triple (· = _) _ _ _ _) _ rfl
        refine Triple.bind (Q := fun _ t => Connected v pid sidx t) ?_ fun _ =>
          Triple.pure fun t ht => ⟨sidx, hsidx, ht⟩
        exact newConnection_spec hp hadded hsidx
      | false =>
        have hmap : v.connectionMap pid = some p.connectionMap := by rw [connectionMap, hp]; rfl
        refine ⟨sidx, hsidx, fun q other => ?_, ?_⟩
        · rw [holds, connectionMap_putProcess, holds]
          split
          next heq =>
            rw [heq, hmap, Option.any_some, Option.any_some, hadded.holds, decide_eq_true rfl,
              Bool.true_and]
          next hne => rw [decide_eq_false hne, Bool.false_and, Bool.or_false]
        · have hheld : v.holds pid (UInt8.ofNat sidx) = true := by
            rw [holds, hmap]
            exact hadded.old rfl
          rw [if_pos hheld, List.append_nil]
          rfl

/-! ## 6. Disconnecting -/

/-- The event of the connection that the call drops cannot be delivered. -/
def DisconnectLost (s : Services) (cid : CID) : Prop :=
  ∃ p cidx sidx refcount generation permissions, s.process s.current = some p ∧
    p.connection cid = .ok (cidx, .connected sidx refcount generation permissions) ∧
      ¬ 1 < refcount ∧ Unheard s sidx.toNat .disconnected

/-- No process comes to hold a connection. -/
def GainsNone (s s' : Services) : Prop :=
  ∀ q other, s'.holds q other = true → s.holds q other = true

theorem gainsNone_setSlot {p : Process} {cidx : Nat} {slot : ConnectionSlot}
    (hp : s.process pid = some p)
    (h : ∀ other, slot.connectedTo = some other → s.holds pid other = true) :
    GainsNone s (s.putProcess pid (p.setSlot cidx slot)) := by
  intro q other hholds
  rw [holds, connectionMap_putProcess] at hholds
  split at hholds
  next heq =>
    subst heq
    have hmap : s.connectionMap q = some p.connectionMap := by rw [connectionMap, hp]; rfl
    rw [holds, hmap, Option.any_some]
    refine any_of_any_set (fun hto => ?_) hholds
    have := h other (eq_of_beq hto)
    rwa [holds, hmap, Option.any_some] at this
  next => exact hholds

theorem Frame.gainsNone {t : Services} (h : ∀ q, t.connectionMap q = s'.connectionMap q)
    (hgains : GainsNone s s') : GainsNone s t :=
  fun q other hholds => hgains q other ((holds_congr (h q)).symm.trans hholds)

theorem failRequests_spec {pred : PermissionRequest → Bool} {fuel : Nat}
    {E : Error → Services → Prop} :
    Triple (Frame s) (failRequests pred fuel) (fun _ => Frame s) E fun _ => True := by
  induction fuel with
  | zero => exact Triple.pure fun _ h => h
  | succ fuel ih =>
    refine Triple.get_bind fun u hu => ?_
    split
    next => exact Triple.pure fun v hv => hv ▸ hu
    next found pid tid id requests hnext =>
      refine Triple.bind (Q := fun _ => Frame s) (Triple.modify fun v hv => ?_) fun _ => ?_
      · subst hv
        exact ⟨hu.current, hu.connections, hu.servers, hu.accepted⟩
      refine Triple.bind (Q := fun _ => Frame s) (Triple.get_bind fun v hv => ?_) fun _ => ih
      refine Triple.bind (Q := fun _ => (· = v)) (Triple.require (fun _ _ h => h) fun _ => trivial)
        fun _ => ?_
      exact wakeThread_spec.conseq (fun _ h => h) (fun _ w hw => hv.trans hw) (fun _ _ h => h)
        fun _ h => h

/-- The last reference goes, and the server hears of it unless its queue is full. -/
theorem dropConnection_spec {cid : CID} {cidx generation : Nat} {p : Process}
    (hp : s.process s.current = some p) :
    Triple (· = s) (dropConnection cid cidx sidx generation)
      (fun _ s' => GainsNone s s') (fun _ s' => GainsNone s s' ∧ Unheard s sidx .disconnected)
      fun _ => True := by
  have hgains : GainsNone s (s.putProcess s.current (p.setSlot cidx (.freeOrCondemn generation))) := by
    refine gainsNone_setSlot hp fun other hto => ?_
    unfold ConnectionSlot.freeOrCondemn at hto
    split at hto <;> cases hto
  refine Triple.get_bind fun u hu => ?_
  subst hu
  refine Triple.bind (Q := fun _ v => v = u.putProcess u.current
    (p.setSlot cidx (.freeOrCondemn generation))) ((onProcess_spec hp (Triple.modify (Q := fun _ p' =>
      p' = p.setSlot cidx (.freeOrCondemn generation)) (E := fun _ _ => False)
        fun v hv => by rw [hv])).conseq (fun _ h => h) (fun _ v hv => ?_) (fun _ v hv => ?_)
          fun _ h => h) fun _ => ?_
  · obtain ⟨p', rfl, rfl⟩ := hv
    rfl
  · exact hv.elim fun _ h => h.1.elim
  refine Triple.bind (Q := fun _ => Frame (u.putProcess u.current
    (p.setSlot cidx (.freeOrCondemn generation)))) (failRequests_spec.pre fun v hv => ?_) fun _ => ?_
  · rw [hv]
    exact Frame.refl
  intro v hv
  refine (?_ : Triple (· = v) _ _ _ _) v rfl
  refine sendServerEvent_spec.conseq (fun _ h => h)
    (fun _ w hw => Frame.gainsNone (fun q => (hw.connections q).trans (hv.connections q)) hgains)
    (fun _ w hw => ⟨Frame.gainsNone (fun q => (hw.1.connections q).trans (hv.connections q)) hgains,
      ?_⟩) fun _ h => h
  obtain ⟨hannounced, hrejects⟩ := hw.2
  rw [announcement_congr hv.servers hv.current] at hannounced
  exact (unheard_putProcess hp).1
    ⟨hannounced, (rejects_congr hv.servers fun q => by rw [hv.connections]).1 hrejects⟩

theorem getElem?_of_connection {p : Process} {cid : CID} {cidx : Nat} {slot : ConnectionSlot}
    (h : p.connection cid = .ok (cidx, slot)) : p.connectionMap[cidx]? = some slot := by
  obtain ⟨⟨cidx', generation⟩, -, h⟩ := bind_eq_ok.1 h
  dsimp only at h
  split at h
  next slot' hslot =>
    split at h
    · cases h
      exact hslot
    · cases h
  next => cases h

theorem holds_of_connection {p : Process} {cid : CID} {cidx : Nat} {slot : ConnectionSlot}
    {server : UInt8} (hp : s.process pid = some p) (h : p.connection cid = .ok (cidx, slot))
    (hto : slot.connectedTo = some server) : s.holds pid server = true := by
  have hmap : s.connectionMap pid = some p.connectionMap := by rw [connectionMap, hp]; rfl
  rw [holds, hmap, Option.any_some]
  refine List.any_eq_true.2 ⟨slot, List.mem_of_getElem? (getElem?_of_connection h), ?_⟩
  rw [hto, beq_self_eq_true]

theorem disconnectFromServer_spec {cid : CID} :
    Triple (· = s) (disconnectFromServer cid) (fun _ s' => GainsNone s s')
      (fun _ s' => GainsNone s s' ∧
        ((∀ q, s'.connectionMap q = s.connectionMap q) ∨ DisconnectLost s cid)) fun _ => True := by
  have hsame : GainsNone s s ∧ ((∀ q, s.connectionMap q = s.connectionMap q) ∨ DisconnectLost s cid) :=
    ⟨fun _ _ h => h, .inl fun _ => rfl⟩
  refine Triple.get_bind fun u hu => ?_
  subst hu
  refine Triple.bind (Triple.expect (Q := fun p v => v = u ∧ u.process u.current = some p)
    (fun p h v hv => ⟨hv, h⟩) fun _ => trivial) fun p => ?_
  rintro v ⟨rfl, hp⟩
  refine (?_ : Triple (· = v) _ _ _ _) v rfl
  refine Triple.bind (Triple.ofExcept (Q := fun found w => w = v ∧ p.connection cid = .ok found)
    (fun found h w hw => ⟨hw, h⟩) fun _ _ w hw => hw ▸ hsame) fun found => ?_
  rintro w ⟨rfl, hfound⟩
  refine (?_ : Triple (· = w) _ _ _ _) w rfl
  obtain ⟨cidx, slot⟩ := found
  have hset : ∀ slot' : ConnectionSlot,
      (∀ other, slot'.connectedTo = some other → w.holds w.current other = true) →
      Triple (· = w) (onProcess w.current (Prog.modify (Process.setSlot cidx slot')))
        (fun _ s' => GainsNone w s') (fun _ s' => GainsNone w s' ∧
          ((∀ q, s'.connectionMap q = w.connectionMap q) ∨ DisconnectLost w cid)) fun _ => True := by
    intro slot' hto
    refine (onProcess_spec hp (Triple.modify (Q := fun _ p' => p' = p.setSlot cidx slot')
      (E := fun _ _ => False) fun v hv => by rw [hv])).conseq (fun _ h => h) (fun _ v hv => ?_)
        (fun _ v hv => ?_) fun _ h => h
    · obtain ⟨p', rfl, rfl⟩ := hv
      exact gainsNone_setSlot hp hto
    · exact hv.elim fun _ h => h.1.elim
  cases slot with
  | free generation => exact Triple.throw fun v hv => hv ▸ hsame
  | condemned => exact Triple.throw fun v hv => hv ▸ hsame
  | tombstone refcount generation =>
    refine hset _ fun other hto => ?_
    unfold ConnectionSlot.freeOrCondemn at hto
    split at hto
    · cases hto
    · split at hto <;> cases hto
  | connected sidx refcount generation permissions =>
    dsimp only
    split
    next => exact hset _ fun other hto => holds_of_connection hp hfound hto
    next hlast =>
      exact (dropConnection_spec hp).conseq (fun _ h => h) (fun _ _ h => h)
        (fun _ v hv => ⟨hv.1, .inr ⟨p, cidx, sidx, refcount, generation, permissions, hp, hfound,
          hlast, hv.2⟩⟩) fun _ h => h

/-! ## 7. Runs -/

/-- What happens to the services: a call, or another operation of the kernel, which leaves
them as `s'`. -/
inductive Event where
  | connect (pid : PID) (sid : SID)
  | disconnect (cid : CID)
  | other (s' : Services)

/-- Only `connect_to_server` makes a connection. -/
def Event.Possible (s : Services) : Event → Prop
  | .connect _ _ | .disconnect _ => True
  | .other s' => GainsNone s s'

/-- The call loses no event. -/
def Event.Heard (s : Services) : Event → Prop
  | .connect pid sid => ¬ ConnectLost s pid sid
  | .disconnect cid => ¬ DisconnectLost s cid
  | .other _ => True

/-- The services, with the record of the run so far. -/
structure World where
  services : Services
  /-- The services before and after each call that failed -/
  failed : List (Services × Services)
  /-- By process and server, the event due for each connection that the process came to hold -/
  due : PID → Nat → List Accepted
  /-- By process and server, the events that the server accepted when the process connected -/
  announced : PID → Nat → List Accepted

/-- The event due when `pid` comes to hold a connection to the server. -/
def owed (s s' : Services) (pid : PID) (sidx : Nat) : List Accepted :=
  if s.holds pid (UInt8.ofNat sidx) = false ∧ s'.holds pid (UInt8.ofNat sidx) = true then
    announcement s sidx .newConnection
  else
    []

namespace World

def move (w : World) (s' : Services) : World :=
  { w with services := s', due := fun pid sidx => w.due pid sidx ++ owed w.services s' pid sidx }

/-- The messages that `s'` accepted since `w`, on the account of `pid`. -/
def announce (w : World) (pid : PID) (s' : Services) : World :=
  { w with announced := fun q sidx => w.announced q sidx ++ if q = pid then
      (s'.accepted.drop w.services.accepted.length).filter fun entry => entry.sidx = sidx else [] }

def fail (w : World) (s' : Services) : World :=
  { w with failed := w.failed ++ [(w.services, s')] }

/-- One event. A panic stops the machine. -/
def step (w : World) : Event → Option World
  | .connect pid sid =>
    match connectToServer pid sid w.services with
    | (.ok _, s') => some ((w.announce pid s').move s')
    | (.err _, s') => some (((w.announce pid s').fail s').move s')
    | (.panic _, _) => none
  | .disconnect cid =>
    match disconnectFromServer cid w.services with
    | (.ok _, s') => some (w.move s')
    | (.err _, s') => some ((w.fail s').move s')
    | (.panic _, _) => none
  | .other s' => some (w.move s')

/-- Nothing is recorded yet. -/
def start (s : Services) : World := ⟨s, [], fun _ _ => [], fun _ _ => []⟩

/-- Each failed call left every table alone, and each connection had its event once. -/
structure Atomic (w : World) : Prop where
  failed : ∀ call ∈ w.failed, ∀ pid, call.2.connectionMap pid = call.1.connectionMap pid
  events : ∀ pid sidx, w.announced pid sidx = w.due pid sidx

/-- A run in which no call loses an event. -/
inductive Run : World → World → Prop
  | nil {w : World} : Run w w
  | cons {w v u : World} {event : Event} (possible : event.Possible w.services)
      (heard : event.Heard w.services) (step : w.step event = some v) (rest : Run v u) : Run w u

end World

theorem owed_of_gainsNone (h : GainsNone s s') : owed s s' pid sidx = [] := by
  unfold owed
  rw [if_neg]
  rintro ⟨hno, hyes⟩
  rw [h _ _ hyes] at hno
  cases hno

theorem gainsNone_of_connectionMap (h : ∀ q, s'.connectionMap q = s.connectionMap q) :
    GainsNone s s' :=
  fun q _ hholds => (holds_congr (h q)).symm.trans hholds

theorem filter_announcement {other : Nat} {event : ServerEvent} :
    (announcement s sidx event).filter (fun entry => decide (entry.sidx = other)) =
      if sidx = other then announcement s other event else [] := by
  by_cases heq : sidx = other
  · subst heq
    rw [if_pos rfl]
    unfold announcement
    split
    · exact List.filter_cons_of_pos (decide_eq_true rfl)
    · rfl
  · rw [if_neg heq]
    unfold announcement
    split
    · exact List.filter_cons_of_neg (by simpa using heq)
    · rfl

/-- What a successful connect owes is what its server accepted. -/
theorem Connected.owed_eq (h : Connected s pid sidx s') (hlt : sidx < MAX_SERVER_COUNT) (q : PID)
    (other : Nat) :
    owed s s' q other = if q = pid then
      (s'.accepted.drop s.accepted.length).filter (fun entry => entry.sidx = other) else [] := by
  rw [h.accepted, List.drop_left, owed, h.holds]
  by_cases hq : q = pid
  · subst hq
    rw [if_pos rfl, decide_eq_true rfl, Bool.true_and]
    by_cases hother : other = sidx
    · subst hother
      cases hheld : s.holds q (UInt8.ofNat other) with
      | true =>
        rw [if_neg fun h => Bool.false_ne_true h.1.symm, if_pos rfl, List.filter_nil]
      | false =>
        rw [if_pos ⟨rfl, by rw [beq_self_eq_true, Bool.or_true]⟩, if_neg Bool.false_ne_true,
          filter_announcement, if_pos rfl]
    · have hnil : (if s.holds q (UInt8.ofNat sidx) = true then [] else
          announcement s sidx .newConnection).filter (fun entry => decide (entry.sidx = other)) =
          [] := by
        split
        · rfl
        · rw [filter_announcement, if_neg (Ne.symm hother)]
      rw [hnil]
      rcases Nat.lt_or_ge other MAX_SERVER_COUNT with hlt' | hge
      · have hne : UInt8.ofNat other ≠ UInt8.ofNat sidx := by
          intro heq
          have := congrArg UInt8.toNat heq
          rw [UInt8.toNat_ofNat', UInt8.toNat_ofNat'] at this
          have hmax : MAX_SERVER_COUNT = 128 := rfl
          omega
        rw [if_neg]
        rintro ⟨hno, hyes⟩
        rw [hno, Bool.false_or] at hyes
        exact hne (eq_of_beq hyes)
      · rw [announcement_of_le hge, ite_self]
  · rw [decide_eq_false hq, Bool.false_and, Bool.or_false, if_neg hq, if_neg]
    rintro ⟨hno, hyes⟩
    rw [hno] at hyes
    cases hyes

namespace World

theorem step_atomic {w v : World} {event : Event} (hw : w.Atomic)
    (hpossible : event.Possible w.services) (hheard : event.Heard w.services)
    (hstep : w.step event = some v) : v.Atomic := by
  cases event with
  | connect pid sid =>
    have hspec := @connectToServer_spec w.services pid sid w.services rfl
    dsimp only [step] at hstep
    revert hstep
    revert hspec
    rcases connectToServer pid sid w.services with ⟨o, s'⟩
    cases o with
    | ok cid =>
      rintro ⟨sidx, hsidx, hconnected⟩ hstep
      cases hstep
      refine ⟨hw.failed, fun q other => ?_⟩
      exact congrArg₂ (· ++ ·) (hw.events q other)
        (hconnected.owed_eq (position_lt hsidx) q other).symm
    | err e =>
      intro hrefused hstep
      cases hstep
      have hsame := (hrefused.connections.resolve_right fun h => hheard h.2).1
      refine ⟨fun call hcall => ?_, fun q other => ?_⟩
      · rcases List.mem_append.1 hcall with hmem | hmem
        · exact hw.failed call hmem
        · cases List.mem_singleton.1 hmem
          exact hsame
      · have howed : owed w.services s' q other = [] :=
          owed_of_gainsNone (gainsNone_of_connectionMap hsame)
        simp only [move, fail, announce, howed, hrefused.accepted, List.drop_length,
          List.filter_nil, ite_self, List.append_nil]
        exact hw.events q other
    | panic p => exact fun _ hstep => nomatch hstep
  | disconnect cid =>
    have hspec := @disconnectFromServer_spec w.services cid w.services rfl
    dsimp only [step] at hstep
    revert hstep
    revert hspec
    rcases disconnectFromServer cid w.services with ⟨o, s'⟩
    cases o with
    | ok cid =>
      intro hgains hstep
      cases hstep
      refine ⟨hw.failed, fun q other => ?_⟩
      simp only [move, owed_of_gainsNone hgains, List.append_nil]
      exact hw.events q other
    | err e =>
      rintro ⟨hgains, hsame⟩ hstep
      cases hstep
      refine ⟨fun call hcall => ?_, fun q other => ?_⟩
      · rcases List.mem_append.1 hcall with hmem | hmem
        · exact hw.failed call hmem
        · cases List.mem_singleton.1 hmem
          exact hsame.resolve_right hheard
      · simp only [move, fail, owed_of_gainsNone hgains, List.append_nil]
        exact hw.events q other
    | panic p => exact fun _ hstep => nomatch hstep
  | other s' =>
    cases hstep
    refine ⟨hw.failed, fun q other => ?_⟩
    simp only [move, owed_of_gainsNone hpossible, List.append_nil]
    exact hw.events q other

theorem start_atomic : (start s).Atomic := ⟨nofun, fun _ _ => rfl⟩

theorem Run.keeps {w v : World} (hrun : Run w v) (hw : w.Atomic) : v.Atomic := by
  induction hrun with
  | nil => exact hw
  | cons hpossible hheard hstep _ ih => exact ih (step_atomic hw hpossible hheard hstep)

/-- In every run whose calls lose no event, a call that fails leaves every connection table
alone, and each connection that a process comes to hold has had its event accepted once. -/
theorem Run.atomic {w : World} (h : Run (start s) w) : w.Atomic :=
  h.keeps start_atomic

end World

/-! ## 8. A full queue and an empty one -/

def clientPid : PID := ⟨2, PID.two_ne⟩

def serverPid : PID := ⟨3, PID.three_ne⟩

def serverSid : SID := ⟨(1, 2, 3, 4)⟩

/-- A server that asks for the event with message 7. -/
def listening (queue : List QueuedMessage) : Server :=
  { Server.fresh serverPid serverSid queue.length .default with
    queue := queue
    emptyCount := queue.count .empty
    eventHandlers := fun event => if event = .newConnection then some 7 else none }

/-- A client and the server, whose queue is one page. -/
def services (queue : List QueuedMessage) : Services :=
  { current := clientPid
    table := ⟨fun pid => if pid = clientPid ∨ pid = serverPid then some (.new pid .kernel) else none,
      ⟨fun _ => none, fun _ => none, 0, false⟩⟩
    servers := (Vector.replicate MAX_SERVER_COUNT none).set 0 (some (listening queue))
    permissionRequests := []
    accepted := [] }

def fullQueue : List QueuedMessage :=
  List.replicate 128 (.scalarMessage clientPid 0 1 (0, 0, 0, 0))

def emptyQueue : List QueuedMessage := List.replicate 128 .empty

/-- The client after a connect that the full queue refused. -/
def afterRefusal : Services := (connectToServer clientPid serverSid (services fullQueue)).2

/-- The same once the server took its messages. -/
def drained : Services := { afterRefusal with servers := (services emptyQueue).servers }

theorem heard_emptyQueue : (Event.connect clientPid serverSid).Heard (services emptyQueue) := by
  rintro ⟨sidx, p, hsidx, -, -, -, server, hserver, hfull⟩
  cases hsidx.symm.trans (show (services emptyQueue).position serverSid = some 0 by decide +kernel)
  cases hserver
  rcases hfull with hfull | ⟨-, hprocess | hslots⟩
  · exact absurd hfull (by decide +kernel)
  · exact absurd hprocess (by decide +kernel)
  · exact hslots 0 (by decide +kernel) (by decide +kernel)

/-- The world after the client connected to a server with an empty queue. -/
def afterConnect : World :=
  ((World.start (services emptyQueue)).step (.connect clientPid serverSid)).getD
    (World.start (services emptyQueue))

theorem step_afterConnect :
    (World.start (services emptyQueue)).step (.connect clientPid serverSid) = some afterConnect := by
  have hsome : ((World.start (services emptyQueue)).step
      (.connect clientPid serverSid)).isSome = true := by decide +kernel
  obtain ⟨w, hw⟩ := Option.isSome_iff_exists.1 hsome
  rw [afterConnect, hw]
  rfl

theorem Run.atomic_afterConnect :
    afterConnect.Atomic ∧ afterConnect.announced clientPid 0 ≠ [] := by
  have hpossible : (Event.connect clientPid serverSid).Possible (services emptyQueue) := trivial
  exact ⟨World.Run.atomic (.cons hpossible heard_emptyQueue step_afterConnect .nil),
    by decide +kernel⟩

/-- A full queue refuses the connect and the connection stays. The next connect finds it, and
the event is never sent. -/
theorem refused_connection_is_kept :
    (connectToServer clientPid serverSid (services fullQueue)).1 = .err .serverQueueFull ∧
      afterRefusal.connectionMap clientPid ≠ (services fullQueue).connectionMap clientPid ∧
      (connectToServer clientPid serverSid drained).1 = .ok (packCid 0 1) ∧
      (connectToServer clientPid serverSid drained).2.accepted = [] := by
  decide +kernel

end Services

end Kernel
