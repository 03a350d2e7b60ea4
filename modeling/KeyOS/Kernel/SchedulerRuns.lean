import KeyOS.Kernel.Scheduling

/-!
# Runs of the scheduler

The processes change the states and priorities of their threads, the running thread
yields, and the kernel picks the next one. In every run the ready queues are rings, the
picked thread has the highest priority of all ready ones, and a thread that yields goes
behind every thread that was ready with it.
-/

namespace Kernel

open Exec LinkedRing

/-! ## 1. Runs -/

/-- The thread that is always ready, at the lowest priority. -/
def idleThread : Thread := ⟨.kernel, INITIAL_TID⟩

structure Machine where
  table : ProcessTable
  current : Thread
  /-- The threads that `activate_current` chose, oldest first -/
  picked : List Thread

inductive SchedulerOp where
  | setThreadState (t : Thread) (state : ThreadState)
  | setThreadPriority (t : Thread) (priority : ThreadPriority)
  | yieldThread (t : Thread) (priority : ThreadPriority)
  | activateCurrent

namespace Machine

def onTable {α : Type} (x : Prog ProcessTable Panic Error α) : Prog Machine Panic Error α :=
  Prog.zoom table (fun table m => { m with table := table }) x

theorem onTable_ok {α : Type} {x : Prog ProcessTable Panic Error α} {a : α} {m : Machine}
    {table' : ProcessTable} (hx : x m.table = (.ok a, table')) :
    onTable x m = (.ok a, { m with table := table' }) := by
  simp only [onTable, Prog.zoom, hx]

theorem onTable_err {α : Type} {x : Prog ProcessTable Panic Error α} {e : Error} {m : Machine}
    {table' : ProcessTable} (hx : x m.table = (.err e, table')) :
    onTable x m = (.err e, { m with table := table' }) := by
  simp only [onTable, Prog.zoom, hx]

/-- `t` is ready, at the priority `p`. -/
def ReadyAt (m : Machine) (t : Thread) (p : ThreadPriority) : Prop :=
  t.tid ≠ IRQ_TID ∧ m.table.threadState t = .ready ∧ m.table.threadPriority t = p

theorem readyAt_iff {m : Machine} {t : Thread} {p : ThreadPriority} :
    m.ReadyAt t p ↔ m.table.level t = some p.index := by
  rw [ProcessTable.level_eq_some]
  exact ⟨fun h => ⟨h.1, h.2.1, by rw [h.2.2]⟩,
    fun h => ⟨h.1, h.2.1, ThreadPriority.index_inj h.2.2⟩⟩

end Machine

namespace SchedulerOp

open Machine

def step : SchedulerOp → Prog Machine Panic Error Unit
  | .setThreadState t state => onTable (ProcessTable.setThreadState t state)
  | .setThreadPriority t priority => onTable (ProcessTable.setThreadPriority t priority)
  | .yieldThread t priority =>
    onTable (ProcessTable.onScheduler (Scheduler.yieldThread t priority))
  | .activateCurrent => do
    let m ← Prog.get
    let next ← onTable (ProcessTable.activateCurrent m.current)
    Prog.modify fun m => { m with current := next, picked := m.picked ++ [next] }

/-- Interrupt handlers are not scheduled, and the idle thread stays what it is. -/
def Allowed : SchedulerOp → Prop
  | .setThreadState t state => t.tid ≠ IRQ_TID ∧ (t = idleThread → state = .ready)
  | .setThreadPriority t priority =>
    t.tid ≠ IRQ_TID ∧ (t = idleThread → priority = .idle) ∧ (t ≠ idleThread → priority ≠ .idle)
  | .yieldThread t _ => t.tid ≠ IRQ_TID
  | .activateCurrent => True

/-- The kernel yields the running thread only, at its own priority. -/
def YieldsCurrent (m : Machine) : SchedulerOp → Prop
  | .yieldThread t priority => t = m.current ∧ priority = m.table.threadPriority t
  | _ => True

/-- The thread whose state or priority an operation sets. -/
def target : SchedulerOp → Option Thread
  | .setThreadState t _ | .setThreadPriority t _ => some t
  | .yieldThread _ _ | .activateCurrent => none

end SchedulerOp

/-! ## 2. One operation -/

namespace Machine

variable {m m' : Machine} {rings rings' : Nat → List Thread} {t u : Thread}
  {p : ThreadPriority} {op : SchedulerOp}

structure Inv (m : Machine) (rings : Nat → List Thread) : Prop where
  queues : m.table.scheduler.Queues m.table.level rings
  idle : m.table.level idleThread = some 0
  noIrq : m.table.scheduler.inIrqHandler = false

/-- What an operation does to the queues. -/
inductive Stepped (m : Machine) (rings : Nat → List Thread) :
    SchedulerOp → Machine → (Nat → List Thread) → Prop where
  /-- There is no such process -/
  | refused (op : SchedulerOp) : Stepped m rings op m rings
  | moved {op : SchedulerOp} {t : Thread} {table' : ProcessTable} {rings' : Nat → List Thread}
      (hop : op.target = some t) (h : ProcessTable.Moved t m.table rings table' rings') :
      Stepped m rings op { m with table := table' } rings'
  | rotated {t : Thread} {p : ThreadPriority} {l : List Thread} {s' : Scheduler}
      (hl : rings p.index = t :: l) :
      Stepped m rings (.yieldThread t p) { m with table := { m.table with scheduler := s' } }
        (Function.update rings p.index (l ++ [t]))
  | notHead (t : Thread) (p : ThreadPriority) : Stepped m rings (.yieldThread t p) m rings
  | activated {next : Thread}
      (h : (rings m.table.scheduler.highestReadyPriority).head? = some next) :
      Stepped m rings .activateCurrent { m with current := next, picked := m.picked ++ [next] }
        rings

theorem Inv.moved {table' : ProcessTable} (hinv : m.Inv rings)
    (h : ProcessTable.Moved t m.table rings table' rings')
    (hidle : t = idleThread → table'.level t = some 0) :
    Inv { m with table := table' } rings' := by
  refine ⟨h.queues, ?_, h.irq.trans hinv.noIrq⟩
  rcases eq_or_ne idleThread t with rfl | hne
  · exact hidle rfl
  · show table'.level idleThread = some 0
    rw [ProcessTable.level_update h.others, Function.update_of_ne hne]
    exact hinv.idle

/-- `activate_current` picks the head of the highest queue, which is ready. -/
theorem activateCurrent_run (hinv : m.Inv rings) (current : Thread) :
    ∃ next, ProcessTable.activateCurrent current m.table = (.ok next, m.table) ∧
      (rings m.table.scheduler.highestReadyPriority).head? = some next := by
  obtain ⟨next, hnext⟩ := Option.isSome_iff_exists.1 (List.isSome_head?.2 hinv.queues.top)
  have hmem := (hinv.queues.mem _ _).1 (List.mem_of_head? hnext)
  obtain ⟨-, hready, -⟩ := ProcessTable.level_eq_some.1 hmem
  refine ⟨next, ?_, hnext⟩
  unfold ProcessTable.activateCurrent
  rw [Prog.bind_ok _ (Prog.get_run _), if_neg (by rw [hinv.noIrq]; intro h; cases h), hinv.queues.head, hnext,
    Prog.bind_ok _ (Prog.expect_some_run _ _ _)]
  split
  · next h =>
    rw [h]
    rfl
  · cases hp : m.table.processes next.pid with
    | none =>
      rw [ProcessTable.threadState, hp] at hready
      cases hready
    | some p => rfl

/-- No allowed operation panics, and each does one of the things that `Stepped` lists. -/
theorem step_stepped (hinv : m.Inv rings) (hop : op.Allowed) :
    ∃ m' rings', Prog.after op.step m = .ok m' ∧ Stepped m rings op m' rings' ∧ m'.Inv rings' := by
  cases op with
  | setThreadState t state =>
    cases hp : m.table.processes t.pid with
    | none =>
      refine ⟨m, rings, ?_, .refused _, hinv⟩
      have hrun : ProcessTable.setThreadState t state m.table =
          (.err .processNotFound, m.table) := by
        unfold ProcessTable.setThreadState
        rw [Prog.bind_ok _ (Prog.get_run _), hp]
        rfl
      rw [Prog.after, SchedulerOp.step, onTable_err hrun]
    | some p =>
      obtain ⟨table', rings', hrun, hmoved, hstate, hprio⟩ :=
        ProcessTable.setThreadState_run hinv.queues hop.1 hinv.idle hop.2 hp
      refine ⟨{ m with table := table' }, rings', ?_, .moved rfl hmoved,
        hinv.moved hmoved fun heq => ?_⟩
      · rw [Prog.after, SchedulerOp.step, onTable_ok hrun]
      · obtain ⟨htid, -, hzero⟩ := ProcessTable.level_eq_some.1 hinv.idle
        rw [ProcessTable.level_eq_some, hstate, hprio, hop.2 heq, heq]
        exact ⟨htid, rfl, hzero⟩
  | setThreadPriority t priority =>
    cases hp : m.table.processes t.pid with
    | none =>
      refine ⟨m, rings, ?_, .refused _, hinv⟩
      have hrun : ProcessTable.setThreadPriority t priority m.table =
          (.err .processNotFound, m.table) := by
        unfold ProcessTable.setThreadPriority
        rw [Prog.bind_ok _ (Prog.get_run _), hp]
        rfl
      rw [Prog.after, SchedulerOp.step, onTable_err hrun]
    | some p =>
      obtain ⟨table', rings', hrun, hmoved, hstate, hprio⟩ :=
        ProcessTable.setThreadPriority_run hinv.queues hop.1 hinv.idle hop.2.1 hp
      refine ⟨{ m with table := table' }, rings', ?_, .moved rfl hmoved,
        hinv.moved hmoved fun heq => ?_⟩
      · rw [Prog.after, SchedulerOp.step, onTable_ok hrun]
      · obtain ⟨htid, hready, -⟩ := ProcessTable.level_eq_some.1 hinv.idle
        rw [ProcessTable.level_eq_some, hstate, hprio, hop.2.1 heq, heq]
        exact ⟨htid, hready, rfl⟩
  | yieldThread t priority =>
    rcases Scheduler.yieldThread_run hinv.queues t priority with
      ⟨l, s', hl, hrun, hq, hirq⟩ | ⟨-, hrun⟩
    · refine ⟨_, _, ?_, .rotated hl, hq, hinv.idle, hirq.trans hinv.noIrq⟩
      rw [Prog.after, SchedulerOp.step, onTable_ok (ProcessTable.onScheduler_ok hrun)]
    · refine ⟨m, rings, ?_, .notHead t priority, hinv⟩
      rw [Prog.after, SchedulerOp.step, onTable_ok (ProcessTable.onScheduler_ok hrun)]
  | activateCurrent =>
    obtain ⟨next, hrun, hhead⟩ := activateCurrent_run hinv m.current
    refine ⟨_, rings, ?_, .activated hhead, hinv.queues, hinv.idle, hinv.noIrq⟩
    rw [Prog.after, SchedulerOp.step, Prog.bind_ok _ (Prog.get_run _),
      Prog.bind_ok _ (onTable_ok hrun), Prog.modify_run]

theorem run_inv (ops : List SchedulerOp) (hops : ∀ op ∈ ops, op.Allowed)
    (hinv : ∃ rings, m.Inv rings) :
    ∃ m', Prog.run SchedulerOp.step ops m = .ok m' ∧ ∃ rings, Inv m' rings := by
  refine Prog.run_keeps (I := fun m : Machine => ∃ rings, m.Inv rings) ops (fun op hop m hm => ?_) hinv
  obtain ⟨rings, hm⟩ := hm
  obtain ⟨m', rings', hrun, -, hinv'⟩ := step_stepped hm (hops op hop)
  exact ⟨m', hrun, rings', hinv'⟩

/-! ## 3. The first thread -/

def start (processes : PID → Option Process) : Machine :=
  { table := ⟨processes, ⟨fun _ => none, fun _ => none, 0, false⟩⟩
    current := idleThread
    picked := [] }

/-- What the kernel does first, to its own process. -/
def boot : List SchedulerOp :=
  [.setThreadPriority idleThread .idle, .setThreadState idleThread .ready]

variable {processes : PID → Option Process}

/-- A table in which the idle thread alone is ready, at the bottom. -/
theorem inv_of_idle {table : ProcessTable} (current : Thread) (picked : List Thread)
    (hheads : table.scheduler.queueHeads = Function.update (fun _ => none) 0 (some idleThread))
    (hlinks : table.scheduler.links =
      Function.update (fun _ => none) idleThread (some ⟨idleThread, idleThread⟩))
    (htop : table.scheduler.highestReadyPriority = 0)
    (hirq : table.scheduler.inIrqHandler = false)
    (hlevel : table.level = Function.update (fun _ => none) idleThread (some 0)) :
    Inv ⟨table, current, picked⟩ (Function.update (fun _ => []) 0 [idleThread]) := by
  have hidle : table.level idleThread = some 0 := by rw [hlevel, Function.update_self]
  refine ⟨⟨fun i => ?_, fun i => ?_, fun i t => ?_, fun t ht => ?_, ?_, fun i hi => ?_⟩, hidle,
    hirq⟩
  · rcases eq_or_ne i 0 with rfl | hi
    · rw [Function.update_self]
      exact .single (by rw [hlinks, Function.update_self])
    · rw [Function.update_of_ne hi]
      exact .nil
  · rw [hheads]
    rcases eq_or_ne i 0 with rfl | hi
    · rw [Function.update_self, Function.update_self]
      rfl
    · rw [Function.update_of_ne hi, Function.update_of_ne hi]
      rfl
  · rw [hlevel]
    rcases eq_or_ne i 0 with rfl | hi <;> rcases eq_or_ne t idleThread with rfl | ht
    · rw [Function.update_self, Function.update_self]
      exact ⟨fun _ => rfl, fun _ => List.mem_singleton_self _⟩
    · rw [Function.update_self, Function.update_of_ne ht]
      exact ⟨fun hmem => absurd (List.mem_singleton.1 hmem) ht, nofun⟩
    · rw [Function.update_of_ne hi, Function.update_self]
      exact ⟨nofun, fun heq => absurd (Option.some.inj heq).symm hi⟩
    · rw [Function.update_of_ne hi, Function.update_of_ne ht]
      exact ⟨nofun, nofun⟩
  · rw [hlevel] at ht
    rw [hlinks]
    rcases eq_or_ne t idleThread with rfl | hne
    · rw [Function.update_self] at ht
      cases ht
    · rw [Function.update_of_ne hne]
  · rw [htop, Function.update_self]
    exact List.cons_ne_nil _ _
  · rw [htop] at hi
    rw [Function.update_of_ne (Nat.ne_of_gt hi)]

/-- The kernel's process after `boot`. -/
def bootedProcess : Process :=
  { Process.new .kernel .kernel with
    threads := Function.update (fun _ => .free) INITIAL_TID .ready
    threadPriorities := Function.update (fun _ => .appDefault) INITIAL_TID .idle }

theorem boot_run (hk : processes .kernel = some (Process.new .kernel .kernel))
    (hnone : ∀ t, t.pid ≠ .kernel → (start processes).table.threadState t ≠ .ready) :
    ∃ m, Prog.run SchedulerOp.step boot (start processes) = .ok m ∧ ∃ rings, m.Inv rings := by
  set process : Process := { Process.new .kernel .kernel with
    threadPriorities := Function.update (fun _ => .appDefault) INITIAL_TID .idle } with hprocess
  set table₁ := (start processes).table.setProcess .kernel (some process) with htable₁
  set table₂ : ProcessTable := (ProcessTable.mk table₁.processes
    ⟨Function.update (fun _ => none) 0 (some idleThread),
      Function.update (fun _ => none) idleThread (some ⟨idleThread, idleThread⟩),
      max 0 0, false⟩).setProcess .kernel (some bootedProcess) with htable₂
  have hrun₁ : ProcessTable.setThreadPriority idleThread .idle (start processes).table =
      (.ok (), table₁) := by
    unfold ProcessTable.setThreadPriority
    rw [Prog.bind_ok _ (Prog.get_run _)]
    show (Prog.okOr _ (processes .kernel) >>= _) _ = _
    rw [hk, Prog.bind_ok _ (Prog.okOr_some_run _ _ _), if_neg (by decide),
      Prog.bind_ok _ (Prog.onlyIf_false_run (by decide) _ _), Prog.modify_run]
    rfl
  have hp₁ : table₁.processes idleThread.pid = some process :=
    ProcessTable.setProcess_self _ _ _
  have hready : Scheduler.readyThread idleThread (process.threadPriorities idleThread.tid)
      table₁.scheduler = (.ok (), table₂.scheduler) := rfl
  have hrun₂ : ProcessTable.setThreadState idleThread .ready table₁ = (.ok (), table₂) := by
    unfold ProcessTable.setThreadState
    rw [Prog.bind_ok _ (Prog.get_run _), hp₁, Prog.bind_ok _ (Prog.okOr_some_run _ _ _),
      Prog.bind_ok _ (Prog.onlyIf_false_run (by decide) _ _),
      Prog.bind_ok _ ((Prog.onlyIf_true_run (by decide) _ _).trans
        (ProcessTable.onScheduler_ok hready)), Prog.modify_run]
    rfl
  refine ⟨⟨table₂, idleThread, []⟩, ?_, _, inv_of_idle _ _ rfl rfl rfl rfl ?_⟩
  · have hafter₁ : Prog.after (SchedulerOp.setThreadPriority idleThread .idle).step
        (start processes) = .ok { start processes with table := table₁ } := by
      rw [Prog.after, SchedulerOp.step, onTable_ok hrun₁]
    have hafter₂ : Prog.after (SchedulerOp.setThreadState idleThread .ready).step
        { start processes with table := table₁ } = .ok ⟨table₂, idleThread, []⟩ := by
      rw [Prog.after, SchedulerOp.step, onTable_ok hrun₂]
      rfl
    exact (Prog.run_cons_ok _ hafter₁).trans (Prog.run_cons_ok _ hafter₂)
  · funext t
    have hkernel : table₂.processes .kernel = some bootedProcess :=
      ProcessTable.setProcess_self _ _ _
    rcases eq_or_ne t idleThread with rfl | hne
    · rw [Function.update_self, ProcessTable.level_eq_some,
        ProcessTable.threadState_of (t := idleThread) hkernel,
        ProcessTable.threadPriority_of (t := idleThread) hkernel]
      exact ⟨by decide, rfl, rfl⟩
    · rw [Function.update_of_ne hne, ProcessTable.level, if_neg]
      rintro ⟨-, hready⟩
      rcases eq_or_ne t.pid .kernel with hpid | hpid
      · have htid : t.tid ≠ INITIAL_TID := by
          intro htid
          obtain ⟨pid, tid⟩ := t
          cases hpid
          cases htid
          exact hne rfl
        rw [ProcessTable.threadState_of (hpid ▸ hkernel)] at hready
        have hfree : Function.update (fun _ => ThreadState.free) INITIAL_TID .ready t.tid = .free :=
          Function.update_of_ne htid _ _
        exact absurd (hfree.symm.trans hready) (by intro h; cases h)
      · refine hnone t hpid ?_
        rw [← hready, ProcessTable.threadState, ProcessTable.threadState, htable₂, htable₁,
          ProcessTable.setProcess_of_ne hpid]
        show _ = (Option.map _ ((ProcessTable.setProcess _ _ _).processes t.pid)).getD _
        rw [ProcessTable.setProcess_of_ne hpid]

/-! ## 4. Fairness -/

/-- `u` is in `l`, and `t` is not before it. -/
def AheadOf (u t : Thread) (l : List Thread) : Prop :=
  ∃ l₁ l₂, l = l₁ ++ u :: l₂ ∧ t ∉ l₁

theorem aheadOf_of_mem {l : List Thread} (hu : u ∈ l) (ht : t ∉ l) : AheadOf u t (l ++ [t]) := by
  obtain ⟨l₁, l₂, rfl⟩ := List.append_of_mem hu
  exact ⟨l₁, l₂ ++ [t], by rw [List.append_assoc, List.cons_append],
    fun hmem => ht (List.mem_append_left _ hmem)⟩

namespace AheadOf

variable {x : Thread} {l : List Thread}

theorem append (h : AheadOf u t l) (x : Thread) : AheadOf u t (l ++ [x]) := by
  obtain ⟨l₁, l₂, rfl, ht⟩ := h
  exact ⟨l₁, l₂ ++ [x], by rw [List.append_assoc, List.cons_append], ht⟩

theorem erase (h : AheadOf u t l) (hx : x ≠ u) : AheadOf u t (l.erase x) := by
  obtain ⟨l₁, l₂, rfl, ht⟩ := h
  by_cases hmem : x ∈ l₁
  · exact ⟨l₁.erase x, l₂, List.erase_append_left _ hmem,
      fun hl => ht (List.mem_of_mem_erase hl)⟩
  · refine ⟨l₁, l₂.erase x, ?_, ht⟩
    rw [List.erase_append_right _ hmem,
      List.erase_cons_tail (by rw [beq_iff_eq]; exact hx.symm)]

theorem rotate (h : AheadOf u t (x :: l)) (hx : x ≠ u) : AheadOf u t (l ++ [x]) := by
  obtain ⟨l₁, l₂, heq, ht⟩ := h
  cases l₁ with
  | nil =>
    cases heq
    exact absurd rfl hx
  | cons a l₁ =>
    obtain ⟨rfl, rfl⟩ := List.cons.inj heq
    refine ⟨l₁, l₂ ++ [x], ?_, fun hmem => ht (List.mem_cons_of_mem _ hmem)⟩
    show l₁ ++ u :: l₂ ++ [x] = _
    rw [List.append_assoc, List.cons_append]

theorem head_ne (h : AheadOf u t l) (hne : u ≠ t) : l.head? ≠ some t := by
  obtain ⟨l₁, l₂, rfl, ht⟩ := h
  cases l₁ with
  | nil => exact fun heq => hne (Option.some.inj heq)
  | cons a l₁ => exact fun heq => ht (List.mem_cons.2 (.inl (Option.some.inj heq).symm))

end AheadOf

/-- Since `picked` had length `n`, either `u` has been picked or it is ahead of `t` in
its queue, as long as it has been ready. -/
def Waits (u t : Thread) (p : ThreadPriority) (n : Nat) (m : Machine) : Prop :=
  ∃ rings, m.Inv rings ∧ n ≤ m.picked.length ∧
    (m.ReadyAt u p → u ∈ m.picked.drop n ∨ m.current ≠ u ∧ AheadOf u t (rings p.index))

theorem Waits.step {n : Nat} (h : Waits u t p n m) (hop : op.Allowed) (hy : op.YieldsCurrent m)
    (hu : m.ReadyAt u p) (hstep : Prog.after op.step m = .ok m') : Waits u t p n m' := by
  obtain ⟨rings, hinv, hn, hwait⟩ := h
  obtain ⟨m₁, rings', hstep₁, hstepped, hinv'⟩ := step_stepped hinv hop
  cases hstep₁.symm.trans hstep
  rcases hwait hu with hpicked | ⟨hcur, hahead⟩
  · -- what has been picked stays in the list
    refine ⟨rings', hinv', ?_, fun _ => .inl ?_⟩
    · cases hstepped with
      | activated => exact hn.trans (by rw [List.length_append]; exact Nat.le_add_right _ _)
      | _ => exact hn
    · cases hstepped with
      | activated => exact List.drop_append_of_le_length hn ▸ List.mem_append_left _ hpicked
      | _ => exact hpicked
  · cases hstepped with
    | refused => exact ⟨rings, hinv', hn, fun _ => .inr ⟨hcur, hahead⟩⟩
    | @moved _ x table' rings' hx hmoved =>
      refine ⟨_, hinv', hn, fun hu' => .inr ⟨hcur, ?_⟩⟩
      rcases eq_or_ne x u with rfl | hxu
      · have hsame := hmoved.same ((readyAt_iff.1 hu').trans (readyAt_iff.1 hu).symm)
        rwa [hsame]
      · rcases hmoved.edits p.index with heq | heq | heq
        · rwa [heq]
        · rw [heq]
          exact hahead.append x
        · rw [heq]
          exact hahead.erase hxu
    | @rotated x q l s' hl =>
      refine ⟨_, hinv', hn, fun _ => .inr ⟨hcur, ?_⟩⟩
      rcases eq_or_ne p.index q.index with hpq | hpq
      · rw [hpq, hl] at hahead
        rw [hpq, Function.update_self]
        exact hahead.rotate fun hxu => hcur (hy.1 ▸ hxu)
      · rwa [Function.update_of_ne hpq]
    | notHead => exact ⟨rings, hinv', hn, fun _ => .inr ⟨hcur, hahead⟩⟩
    | @activated next hnext =>
      refine ⟨rings, hinv', hn.trans ?_, fun _ => ?_⟩
      · rw [List.length_append]
        exact Nat.le_add_right _ _
      · rcases eq_or_ne next u with rfl | hne
        · refine .inl ?_
          rw [List.drop_append_of_le_length hn]
          exact List.mem_append_right _ (List.mem_singleton_self _)
        · exact .inr ⟨hne, hahead⟩

/-- `t` is running, and at the head of its queue while it is ready. -/
def Leads (t : Thread) (p : ThreadPriority) (m : Machine) : Prop :=
  ∃ rings, m.Inv rings ∧ m.current = t ∧
    (m.ReadyAt t p → (rings p.index).head? = some t)

theorem Leads.step (h : Leads t p m) (hop : op.Allowed) (hset : op.target.isSome)
    (ht : m.ReadyAt t p) (hstep : Prog.after op.step m = .ok m') : Leads t p m' := by
  obtain ⟨rings, hinv, hcur, hhead⟩ := h
  obtain ⟨m₁, rings', hstep₁, hstepped, hinv'⟩ := step_stepped hinv hop
  cases hstep₁.symm.trans hstep
  have hhead := hhead ht
  cases hstepped with
  | refused => exact ⟨rings, hinv', hcur, fun _ => hhead⟩
  | @moved _ x table' rings' hx hmoved =>
    refine ⟨_, hinv', hcur, fun ht' => ?_⟩
    obtain ⟨l, hl⟩ : ∃ l, rings p.index = t :: l := List.head?_eq_some_iff.1 hhead
    rcases eq_or_ne x t with rfl | hxt
    · have hsame := hmoved.same ((readyAt_iff.1 ht').trans (readyAt_iff.1 ht).symm)
      rwa [hsame]
    · rcases hmoved.edits p.index with heq | heq | heq
      · rwa [heq]
      · rw [heq, hl]
        rfl
      · rw [heq, hl, List.erase_cons_tail (by rw [beq_iff_eq]; exact hxt.symm)]
        rfl
  | rotated => cases hset
  | notHead => cases hset
  | activated => cases hset

/-- What `activate_current` picks leads the highest queue. -/
theorem activate_leads (hinv : m.Inv rings)
    (hstep : Prog.after SchedulerOp.activateCurrent.step m = .ok m') :
    m'.table = m.table ∧ (rings m.table.scheduler.highestReadyPriority).head? = some m'.current := by
  obtain ⟨next, hrun, hhead⟩ := activateCurrent_run hinv m.current
  rw [Prog.after, SchedulerOp.step, Prog.bind_ok _ (Prog.get_run _),
    Prog.bind_ok _ (onTable_ok hrun), Prog.modify_run] at hstep
  cases hstep
  exact ⟨rfl, hhead⟩

/-- After the head of a queue has yielded, every other thread of the queue is ahead. -/
theorem yield_waits (hinv : m.Inv rings) (hcur : m.current = t) (hut : u ≠ t)
    (hhead : (rings p.index).head? = some t)
    (hstep : Prog.after (SchedulerOp.yieldThread t p).step m = .ok m') :
    Waits u t p m'.picked.length m' := by
  rcases Scheduler.yieldThread_run hinv.queues t p with ⟨l, s', hl, hrun, hq, hirq⟩ | ⟨hno, -⟩
  · rw [Prog.after, SchedulerOp.step, onTable_ok (ProcessTable.onScheduler_ok hrun)] at hstep
    cases hstep
    refine ⟨_, ⟨hq, hinv.idle, hirq.trans hinv.noIrq⟩, le_rfl, fun hu => .inr ⟨?_, ?_⟩⟩
    · rintro rfl
      exact hut hcur
    · have hmem : u ∈ rings p.index := (hinv.queues.mem _ _).2 (readyAt_iff.1 hu)
      have hnodup := (hinv.queues.ring p.index).nodup
      rw [hl] at hmem hnodup
      rw [Function.update_self]
      exact aheadOf_of_mem ((List.mem_cons.1 hmem).resolve_left hut) (List.nodup_cons.1 hnodup).1
  · exact absurd hhead hno

/-! ## 5. The result -/

/-- For every priority, the links go from the queue head through the ready threads of
that priority, once through each, and back to the head. -/
structure WellQueued (m : Machine) : Prop where
  rings : ∀ p : ThreadPriority, ∃ l, IsRing m.table.scheduler.links l ∧
    m.table.scheduler.queueHeads p.index = l.head? ∧ ∀ t, t ∈ l ↔ m.ReadyAt t p
  unlinked : ∀ t, t.tid ≠ IRQ_TID → m.table.threadState t ≠ .ready →
    m.table.scheduler.links t = none
  highest : ∃ p : ThreadPriority, p.index = m.table.scheduler.highestReadyPriority ∧
    (∃ t, m.ReadyAt t p) ∧ ∀ t q, m.ReadyAt t q → q.index ≤ p.index

/-- `activate_current` picks a ready thread of the highest priority. -/
def PicksHighest (m : Machine) : Prop :=
  ∃ next p, ProcessTable.activateCurrent m.current m.table = (.ok next, m.table) ∧
    m.ReadyAt next p ∧ ∀ t q, m.ReadyAt t q → q.index ≤ p.index

/-- The thread `t` is picked at `m`, stays ready at its priority `p` and yields at `m₂`.
When it is picked again at that priority, every thread `u` that has been ready at `p`
since the yield has been picked. -/
def YieldsFairly (m : Machine) : Prop :=
  ∀ {t u : Thread} {p : ThreadPriority} {ops₁ ops₂ : List SchedulerOp}
    {m₁ m₂ m₃ m₄ m₅ : Machine},
    Prog.after SchedulerOp.activateCurrent.step m = .ok m₁ → m₁.current = t →
    Prog.Steps SchedulerOp.step
      (fun op m => op.Allowed ∧ op.target.isSome ∧ m.ReadyAt t p) m₁ ops₁ m₂ →
    m₂.ReadyAt t p →
    Prog.after (SchedulerOp.yieldThread t p).step m₂ = .ok m₃ →
    Prog.Steps SchedulerOp.step
      (fun op m => op.Allowed ∧ op.YieldsCurrent m ∧ m.ReadyAt u p) m₃ ops₂ m₄ →
    m₄.ReadyAt u p → u ≠ t →
    Prog.after SchedulerOp.activateCurrent.step m₄ = .ok m₅ → m₅.current = t →
    m₅.ReadyAt t p →
    u ∈ m₄.picked.drop m₃.picked.length

theorem Inv.wellQueued (hinv : m.Inv rings) : m.WellQueued := by
  refine ⟨fun p => ⟨rings p.index, hinv.queues.ring _, hinv.queues.head _, fun t => ?_⟩,
    fun t htid hready => ?_, ?_⟩
  · rw [hinv.queues.mem, readyAt_iff]
  · refine hinv.queues.unlinked t ?_
    rw [ProcessTable.level, if_neg fun h => hready h.2]
  · obtain ⟨t, ht⟩ := List.exists_mem_of_ne_nil _ hinv.queues.top
    have hlevel := (hinv.queues.mem _ _).1 ht
    obtain ⟨htid, hready, hindex⟩ := ProcessTable.level_eq_some.1 hlevel
    refine ⟨m.table.threadPriority t, hindex, ⟨t, htid, hready, rfl⟩, fun k q hk => ?_⟩
    rw [hindex]
    refine Nat.le_of_not_lt fun hlt => ?_
    have hmem := (hinv.queues.mem _ _).2 (readyAt_iff.1 hk)
    rw [hinv.queues.above _ hlt] at hmem
    cases hmem

theorem Inv.picksHighest (hinv : m.Inv rings) : m.PicksHighest := by
  obtain ⟨next, hrun, hhead⟩ := activateCurrent_run hinv m.current
  obtain ⟨p, hp, -, hmax⟩ := hinv.wellQueued.highest
  refine ⟨next, p, hrun, ?_, hmax⟩
  rw [readyAt_iff, ← hinv.queues.mem, hp]
  exact List.mem_of_head? hhead

theorem Inv.yieldsFairly (hinv : m.Inv rings) : m.YieldsFairly := by
  intro t u p ops₁ ops₂ m₁ m₂ m₃ m₄ m₅ hpick hcur hsteps₁ ht₂ hyield hsteps₂ hu₄ hut hpick' hcur'
    ht₅
  -- from the pick to the yield, `t` leads its queue
  have hleads₁ : Leads t p m₁ := by
    obtain ⟨m₁', rings', hstep, -, hinv₁⟩ := step_stepped hinv
      (show SchedulerOp.activateCurrent.Allowed from trivial)
    cases hstep.symm.trans hpick
    obtain ⟨htable, hhead⟩ := activate_leads hinv hpick
    refine ⟨rings, ?_, hcur, fun ht => ?_⟩
    · exact ⟨htable ▸ hinv.queues, htable ▸ hinv.idle, htable ▸ hinv.noIrq⟩
    · rw [hcur] at hhead
      have hlevel := (hinv.queues.mem _ _).1 (List.mem_of_head? hhead)
      have hp := readyAt_iff.1 ht
      rw [htable, hlevel] at hp
      rwa [← Option.some.inj hp]
  have hleads₂ : Leads t p m₂ :=
    hsteps₁.keeps (fun op m m' h hC hstep => h.step hC.1 hC.2.1 hC.2.2 hstep) hleads₁
  obtain ⟨rings₂, hinv₂, hcur₂, hhead₂⟩ := hleads₂
  -- from the yield to the next pick, `u` waits ahead of `t`
  have hwaits₄ : Waits u t p m₃.picked.length m₄ :=
    hsteps₂.keeps (fun op m m' h hC hstep => h.step hC.1 hC.2.1 hC.2.2 hstep)
      (yield_waits hinv₂ hcur₂ hut (hhead₂ ht₂) hyield)
  obtain ⟨rings₄, hinv₄, -, hwait⟩ := hwaits₄
  rcases hwait hu₄ with hpicked | ⟨-, hahead⟩
  · exact hpicked
  · obtain ⟨htable, hhead⟩ := activate_leads hinv₄ hpick'
    rw [hcur'] at hhead
    have hlevel := (hinv₄.queues.mem _ _).1 (List.mem_of_head? hhead)
    have hp := readyAt_iff.1 ht₅
    rw [htable, hlevel] at hp
    rw [Option.some.inj hp] at hhead
    exact absurd hhead (hahead.head_ne hut)

/-- **The ready queues are rings.** After the kernel has readied its idle thread, every
run of allowed operations ends without a panic, in a state whose queues are the rings
of its ready threads; the thread picked there has the highest priority, and yielding is
fair. -/
theorem scheduler_rings (hk : processes .kernel = some (Process.new .kernel .kernel))
    (hnone : ∀ t, t.pid ≠ .kernel → (start processes).table.threadState t ≠ .ready)
    (ops : List SchedulerOp) (hops : ∀ op ∈ ops, op.Allowed) :
    ∃ m, Prog.run SchedulerOp.step (boot ++ ops) (start processes) = .ok m ∧
      m.WellQueued ∧ m.PicksHighest ∧ m.YieldsFairly := by
  obtain ⟨m₀, hboot, hinv₀⟩ := boot_run hk hnone
  obtain ⟨m, hrun, rings, hinv⟩ := run_inv ops hops hinv₀
  refine ⟨m, ?_, hinv.wellQueued, hinv.picksHighest, hinv.yieldsFairly⟩
  rw [Prog.run_append, hboot]
  exact hrun

/-- Two threads of one process, beside the idle thread. -/
theorem scheduler_rings_two_threads :
    ∃ m, Prog.run SchedulerOp.step (boot ++
        [.setThreadState ⟨⟨2, by decide⟩, 1⟩ .ready, .setThreadState ⟨⟨2, by decide⟩, 2⟩ .ready,
          .activateCurrent])
        (start fun pid => if pid = .kernel then some (Process.new .kernel .kernel)
          else some (Process.new pid .kernel)) = .ok m ∧
      m.WellQueued ∧ m.PicksHighest := by
  let processes (pid : PID) : Option Process :=
    if pid = .kernel then some (Process.new .kernel .kernel) else some (Process.new pid .kernel)
  have hk : processes .kernel = some (Process.new .kernel .kernel) := if_pos rfl
  obtain ⟨m, hrun, hwell, hpicks, -⟩ := scheduler_rings hk (fun t ht => by
        rw [ProcessTable.threadState_of (if_neg ht)]
        exact nofun)
    [.setThreadState ⟨⟨2, by decide⟩, 1⟩ .ready, .setThreadState ⟨⟨2, by decide⟩, 2⟩ .ready,
      .activateCurrent] (by
        intro op hop
        simp only [List.mem_cons, List.not_mem_nil, or_false] at hop
        rcases hop with rfl | rfl | rfl
        · exact ⟨by decide, fun h => by cases h⟩
        · exact ⟨by decide, fun h => by cases h⟩
        · trivial)
  exact ⟨m, hrun, hwell, hpicks⟩

end Machine

end Kernel
