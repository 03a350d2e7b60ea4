import KeyOS.Kernel.Memory

/-!
# The tables of the other processes

Mapping memory for a process, and backing its on-demand entries, leaves the tables of
all other processes alone.
-/

namespace Kernel

open Exec

namespace Memory

variable {m : Memory} {pid : PID} {A : Panic → Prop} (processes : PID → Option Process)

/-- From `m` on, only the tables of the process changed. -/
def OthersKept (pid : PID) (m s : Memory) : Prop :=
  ∀ p ≠ pid, s.tables p = m.tables p ∧ s.entries p = m.entries p

theorem OthersKept.refl (m : Memory) : OthersKept pid m m := fun _ _ => ⟨rfl, rfl⟩

theorem OthersKept.set {s s' : Memory} (h : OthersKept pid m s)
    (htables : ∀ p ≠ pid, s'.tables p = s.tables p)
    (hentries : ∀ p ≠ pid, s'.entries p = s.entries p) : OthersKept pid m s' :=
  fun p hp => ⟨(htables p hp).trans (h p hp).1, (hentries p hp).trans (h p hp).2⟩

/-- What keeps the tables of the other processes, however it ends. -/
abbrev KeepsOthers {α : Type} (pid : PID) (m : Memory) (x : Prog Memory Panic Error α) : Prop :=
  Prog.Keeps (OthersKept pid m) x fun _ => True

/-! ## 1. Single pages -/

theorem onRam_others {α : Type} (x : Prog Ram Panic Error α) : KeepsOthers pid m (onRam x) := by
  refine Prog.Triple.zoom fun s hs => ?_
  rcases x s.ram with ⟨o, ram⟩
  cases o with
  | ok a => exact hs
  | err e => exact hs
  | panic p => trivial

theorem setContents_others (phys : Nat) (c : Contents) :
    KeepsOthers pid m (setContents phys c) :=
  Prog.Triple.modify fun _ hs => hs.set (fun _ _ => rfl) fun _ _ => rfl

theorem writeSlot_others (slot : Nat) (entry : L2TableEntry) :
    KeepsOthers pid m (writeSlot pid slot entry) := by
  refine Prog.Triple.modify fun s hs => hs.set (fun _ _ => rfl) fun p hp => ?_
  funext v
  exact if_neg fun h => hp h.1

theorem readSlot_others (slot : Nat) : KeepsOthers pid m (readSlot pid slot) :=
  Prog.Triple.gets fun _ => id

theorem ofExcept_others {α : Type} (x : Except Error α) :
    KeepsOthers pid m (Prog.ofExcept x) :=
  Prog.Triple.ofExcept (fun _ _ _ => id) fun _ _ _ => id

theorem zeroThroughSlot_others (slot : Nat) : KeepsOthers pid m (zeroThroughSlot pid slot) := by
  refine Prog.Triple.bind (readSlot_others slot) fun entry => ?_
  cases entry with
  | empty => exact Prog.Triple.panic trivial
  | unmapped frame flags user => exact Prog.Triple.panic trivial
  | mapped d =>
    refine Prog.Triple.bind (Q := fun _ => OthersKept pid m)
      (Prog.Triple.require (fun _ _ => id) fun _ => trivial) fun _ => ?_
    exact setContents_others _ _

theorem getL2Slot_others (addr : Nat) : KeepsOthers pid m (MemoryMapping.getL2Slot pid addr) := by
  refine Prog.Triple.ite (fun _ => Prog.Triple.throw fun _ => id) fun _ => ?_
  refine Prog.Triple.ite (fun _ => Prog.Triple.throw fun _ => id) fun _ => ?_
  refine Prog.Triple.bind (Q := fun _ => OthersKept pid m) (Prog.Triple.get fun _ => id) fun s => ?_
  exact Prog.Triple.ite (fun _ => Prog.Triple.pure fun _ => id)
    fun _ => Prog.Triple.throw fun _ => id

theorem allocateTables_others (group : Nat) :
    KeepsOthers pid m (MemoryMapping.allocateTables pid group) := by
  refine Prog.Triple.bind (onRam_others _) fun page => ?_
  refine Prog.Triple.bind (setContents_others _ _) fun _ => ?_
  refine Prog.Triple.modify fun s hs => hs.set (fun p hp => ?_) fun p hp => ?_
  · funext g
    show (s.tables p g || decide (p = pid ∧ g = group)) = s.tables p g
    rw [decide_eq_false fun h => hp h.1, Bool.or_false]
  · funext v
    exact if_neg fun h => hp h.1

theorem allocateL2Slot_others (virt : Nat) :
    KeepsOthers pid m (MemoryMapping.allocateL2Slot pid virt) := by
  refine Prog.Triple.ite (fun _ => Prog.Triple.throw fun _ => id) fun _ => ?_
  refine Prog.Triple.ite (fun _ => Prog.Triple.throw fun _ => id) fun _ => ?_
  refine Prog.Triple.bind (Q := fun _ => OthersKept pid m) (Prog.Triple.get fun _ => id) fun s => ?_
  refine Prog.Triple.bind (Q := fun _ => OthersKept pid m)
    (Prog.Triple.onlyIf (fun _ => allocateTables_others _) fun _ _ => id) fun _ => ?_
  refine Prog.Triple.bind (readSlot_others _) fun existing => ?_
  exact Prog.Triple.ite (fun _ => Prog.Triple.pure fun _ => id)
    fun _ => Prog.Triple.throw fun _ => id

theorem mapPage_others (phys virt : Nat) (flags : MemoryFlags) (user : Bool) :
    KeepsOthers pid m (MemoryMapping.mapPage pid phys virt flags user) := by
  refine Prog.Triple.bind (Q := fun _ => OthersKept pid m)
    (Prog.Triple.require (fun _ _ => id) fun _ => trivial) fun _ => ?_
  refine Prog.Triple.bind (ofExcept_others _) fun entry => ?_
  exact Prog.Triple.bind (allocateL2Slot_others virt) fun slot => writeSlot_others slot entry

theorem unmapPage_others (virt : Nat) : KeepsOthers pid m (MemoryMapping.unmapPage pid virt) := by
  refine Prog.Triple.bind (getL2Slot_others virt) fun slot => ?_
  refine Prog.Triple.bind (readSlot_others slot) fun entry => ?_
  exact Prog.Triple.ite (fun _ => Prog.Triple.throw fun _ => id)
    fun _ => writeSlot_others slot .empty

theorem allocateBackingPage_others (slot : Nat) (entry : L2TableEntry) :
    KeepsOthers pid m (MemoryMapping.allocateBackingPage pid slot entry) := by
  refine Prog.Triple.bind (ofExcept_others _) fun flags => ?_
  refine Prog.Triple.ite (fun _ => Prog.Triple.throw fun _ => id) fun _ => ?_
  refine Prog.Triple.bind (onRam_others _) fun page => ?_
  refine Prog.Triple.bind (ofExcept_others _) fun backed => ?_
  refine Prog.Triple.bind (ofExcept_others _) fun entry => ?_
  refine Prog.Triple.bind (writeSlot_others slot entry) fun _ => ?_
  exact Prog.Triple.onlyIf (fun _ => zeroThroughSlot_others slot) fun _ _ => id

theorem ensureBacked_others (virt : Nat) :
    KeepsOthers pid m (MemoryMapping.ensureBacked pid virt) := by
  refine Prog.Triple.bind (getL2Slot_others virt) fun slot => ?_
  refine Prog.Triple.bind (readSlot_others slot) fun entry => ?_
  refine Prog.Triple.ite (fun _ => Prog.Triple.pure fun _ => id) fun _ => ?_
  refine Prog.Triple.ite (fun _ => Prog.Triple.throw fun _ => id) fun _ => ?_
  exact Prog.Triple.ite (fun _ => Prog.Triple.throw fun _ => id)
    fun _ => allocateBackingPage_others slot entry

/-! ## 2. Ranges -/

theorem findVirtualAddress_others (virt size : Nat) :
    KeepsOthers pid m (findVirtualAddress pid virt size) := by
  refine Prog.Triple.ite (fun _ => Prog.Triple.pure fun _ => id) fun _ => ?_
  refine Prog.Triple.ite (fun _ => Prog.Triple.throw fun _ => id) fun _ => ?_
  refine Prog.Triple.bind (Q := fun _ => OthersKept pid m) (Prog.Triple.get fun _ => id) fun s => ?_
  refine Prog.Triple.bind (Q := fun _ => OthersKept pid m)
    (Prog.Triple.okOr (fun _ _ _ => id) fun _ _ => id) fun start => ?_
  exact Prog.Triple.bind (Q := fun _ => OthersKept pid m)
    (Prog.Triple.modify fun _ hs => hs.set (fun _ _ => rfl) fun _ _ => rfl)
    fun _ => Prog.Triple.pure fun _ => id

theorem releaseRange_others (phys size : Nat) :
    KeepsOthers pid m (releaseRange processes phys size pid) :=
  Prog.Triple.onlyIf (fun _ => Prog.Triple.forEach fun _ _ => (onRam_others _).ignore)
    fun _ _ => id

theorem mapAllocatedRange_others (phys virt size : Nat) (flags : MemoryFlags) (user : Bool) :
    KeepsOthers pid m (mapAllocatedRange processes pid phys virt size flags user) := by
  refine Prog.Triple.forOrUndo (J := fun _ => OthersKept pid m) (F := fun _ => OthersKept pid m)
    (fun k _ => mapPage_others _ _ flags user) (fun k _ e => ?_) (fun _ _ _ => id) _ 0
    (Nat.zero_add _)
  exact Prog.Triple.bind (Q := fun _ => OthersKept pid m)
    (Prog.Triple.forEach fun j _ => (unmapPage_others _).ignore)
    fun _ => releaseRange_others processes phys size

theorem claimRange_others (phys size : Nat) :
    KeepsOthers pid m (claimRange processes pid phys size) := by
  refine Prog.Triple.ite (fun _ => Prog.Triple.throw fun _ => id) fun _ => ?_
  exact Prog.Triple.forOrUndo (J := fun _ => OthersKept pid m) (F := fun _ => OthersKept pid m)
    (fun k _ => onRam_others _)
    (fun k _ e => Prog.Triple.forEach fun j _ => (onRam_others _).ignore) (fun _ _ _ => id) _ 0
    (Nat.zero_add _)

theorem acquireRange_others (phys size : Nat) (flags : MemoryFlags) :
    KeepsOthers pid m (acquireRange processes pid phys size flags) := by
  refine Prog.Triple.ite (fun _ => ?_) fun _ => ?_
  · refine Prog.Triple.ite (fun _ => Prog.Triple.throw fun _ => id) fun _ => ?_
    exact Prog.Triple.ite (fun _ => Prog.Triple.throw fun _ => id) fun _ => onRam_others _
  · exact Prog.Triple.bind (Q := fun _ => OthersKept pid m)
      (Prog.Triple.onlyIf (fun _ => claimRange_others processes phys size) fun _ _ => id)
      fun _ => Prog.Triple.pure fun _ => id

theorem mapRange_others (phys virt size : Nat) (flags : MemoryFlags) (user : Bool) :
    KeepsOthers pid m (mapRange processes pid phys virt size flags user) := by
  refine Prog.Triple.bind (findVirtualAddress_others virt size) fun virt => ?_
  refine Prog.Triple.bind (acquireRange_others processes phys size flags) fun range => ?_
  obtain ⟨phys, zeroAfterAlloc⟩ := range
  refine Prog.Triple.bind (mapAllocatedRange_others processes phys virt size flags user) fun _ => ?_
  refine Prog.Triple.bind (ofExcept_others _) fun mem => ?_
  exact Prog.Triple.bind (Q := fun _ => OthersKept pid m)
    (Prog.Triple.onlyIf (fun _ => Prog.Triple.forEach fun k _ => zeroThroughSlot_others _)
      fun _ _ => id) fun _ => Prog.Triple.pure fun _ => id

theorem mapWithDeferredZeroing_others (tid : TID) (virt size : Nat) (flags : MemoryFlags) :
    KeepsOthers pid m (mapWithDeferredZeroing processes pid tid virt size flags) := by
  refine Prog.Triple.ite (fun _ => Prog.Triple.throw fun _ => id) fun _ => ?_
  refine Prog.Triple.ite (fun _ => Prog.Triple.throw fun _ => id) fun _ => ?_
  refine Prog.Triple.bind (Q := fun _ => OthersKept pid m) (Prog.Triple.get fun _ => id) fun s => ?_
  refine Prog.Triple.ite (fun _ => Prog.Triple.pure fun _ => id) fun _ => ?_
  refine Prog.Triple.bind (onRam_others _) fun range => ?_
  obtain ⟨phys, needsZero⟩ := range
  refine Prog.Triple.ite (fun _ => ?_) fun _ => ?_
  · refine Prog.Triple.bind (Q := fun _ => OthersKept pid m)
      (findVirtualAddress_others virt size).attempt fun result => ?_
    cases result with
    | error e =>
      exact Prog.Triple.bind (releaseRange_others processes phys size)
        fun _ => Prog.Triple.throw fun _ => id
    | ok virt =>
      refine Prog.Triple.bind (mapAllocatedRange_others processes phys virt size flags true)
        fun _ => ?_
      exact Prog.Triple.bind (ofExcept_others _) fun mem => Prog.Triple.pure fun _ => id
  · exact Prog.Triple.bind (onRam_others _) fun _ => Prog.Triple.pure fun _ => id

theorem mapMemory_others (tid : TID) (phys virt size : Nat) (flags : MemoryFlags) :
    KeepsOthers pid m (mapMemory processes pid tid phys virt size flags) := by
  refine Prog.Triple.ite (fun _ => Prog.Triple.throw fun _ => id) fun _ => ?_
  refine Prog.Triple.ite (fun _ => Prog.Triple.throw fun _ => id) fun _ => ?_
  refine Prog.Triple.ite (fun _ => Prog.Triple.throw fun _ => id) fun _ => ?_
  refine Prog.Triple.ite (fun _ => mapWithDeferredZeroing_others processes tid virt size flags)
    fun _ => ?_
  exact Prog.Triple.bind (mapRange_others processes phys virt size flags true)
    fun _ => Prog.Triple.pure fun _ => id

/-- The completion of a request maps the pages for the process that made it. -/
theorem mapZeroFinished_others :
    Prog.Triple (fun s => OthersKept pid m s ∧ s.ram.mm.pendingMapZero.map PendingMapZero.pid =
        some pid) (mapZeroFinished processes) (fun _ => OthersKept pid m)
      (fun _ => OthersKept pid m) fun _ => True := by
  intro s ⟨hs, hpid⟩
  unfold mapZeroFinished
  rw [Prog.bind_ok _ (Prog.get_run s)]
  cases hjob : s.ram.mm.pendingMapZero with
  | none => exact hs
  | some job =>
    rw [hjob] at hpid
    obtain rfl : job.pid = pid := Option.some.inj hpid
    refine Prog.Triple.bind (onRam_others _) (fun _ => ?_) s hs
    refine Prog.Triple.bind (Q := fun _ => OthersKept job.pid m)
      (findVirtualAddress_others job.virt job.size).attempt fun result => ?_
    cases result with
    | error e =>
      exact Prog.Triple.bind (releaseRange_others processes job.phys job.size)
        fun _ => Prog.Triple.pure fun _ => id
    | ok virt =>
      refine Prog.Triple.bind (Q := fun _ => OthersKept job.pid m) (Prog.Triple.attempt ?_)
        fun result => Prog.Triple.pure fun _ => id
      exact Prog.Triple.bind
        (mapAllocatedRange_others processes job.phys virt job.size job.flags true)
        fun _ => ofExcept_others _

end Memory

end Kernel
