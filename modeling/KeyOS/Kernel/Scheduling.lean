import KeyOS.Kernel.ReadyQueues

/-!
# Runs of the scheduler

The processes change the states and priorities of their threads, the running thread
yields, and the kernel picks the next one. In every run the ready queues are the rings
of `KeyOS.Kernel.ReadyQueues`, and a thread that yields is behind every thread that
was ready with it.
-/

namespace Kernel

open Exec LinkedRing

/-! ## 1. Thread states and priorities -/

namespace ProcessTable

variable {table : ProcessTable} {rings : Nat → List Thread} {t k : Thread}

/-- The priority a thread is queued at, if it is ready. Interrupt handlers are not
queued. -/
def level (table : ProcessTable) (t : Thread) : Option Nat :=
  if t.tid ≠ IRQ_TID ∧ table.threadState t = .ready then some (table.threadPriority t).index
  else none

theorem level_eq_some {i : Nat} : table.level t = some i ↔
    t.tid ≠ IRQ_TID ∧ table.threadState t = .ready ∧ (table.threadPriority t).index = i := by
  unfold level
  split
  · next h =>
    rw [Option.some.injEq]
    exact ⟨fun hi => ⟨h.1, h.2, hi⟩, fun hi => hi.2.2⟩
  · next h => exact ⟨nofun, fun hi => absurd ⟨hi.1, hi.2.1⟩ h⟩

/-- Rings that differ from `rings` by the thread `t` at most. -/
def Edits (t : Thread) (rings rings' : Nat → List Thread) : Prop :=
  ∀ i, rings' i = rings i ∨ rings' i = rings i ++ [t] ∨ rings' i = (rings i).erase t

/-- What setting the state or the priority of `t` does to the queues. -/
structure Moved (t : Thread) (table : ProcessTable) (rings : Nat → List Thread)
    (table' : ProcessTable) (rings' : Nat → List Thread) : Prop where
  queues : table'.scheduler.Queues table'.level rings'
  edits : Edits t rings rings'
  same : table'.level t = table.level t → rings' = rings
  others : ∀ k ≠ t, table'.threadState k = table.threadState k ∧
    table'.threadPriority k = table.threadPriority k
  irq : table'.scheduler.inIrqHandler = table.scheduler.inIrqHandler
  exist : ∀ pid, (table'.processes pid).isSome = (table.processes pid).isSome

theorem onScheduler_ok {α : Type} {x : Prog Scheduler Panic Error α} {a : α} {s' : Scheduler}
    (hx : x table.scheduler = (.ok a, s')) :
    onScheduler x table = (.ok a, { table with scheduler := s' }) := by
  simp only [onScheduler, Prog.zoom, hx]

theorem exist_setProcess {p p' : Process} (hp : table.processes t.pid = some p) (pid : PID) :
    ((table.setProcess t.pid (some p')).processes pid).isSome = (table.processes pid).isSome := by
  rcases eq_or_ne pid t.pid with rfl | hne
  · rw [setProcess_self, hp]
    rfl
  · rw [setProcess_of_ne hne]

/-- Replacing a process changes nothing about the threads on which both agree. -/
theorem thread_setProcess {α : Type} (f : Process → TID → α) {p p' : Process}
    (hp : table.processes t.pid = some p) (hk : ∀ tid, tid ≠ t.tid → f p' tid = f p tid)
    (hne : k ≠ t) :
    ((table.setProcess t.pid (some p')).processes k.pid).map (fun p => f p k.tid) =
      (table.processes k.pid).map fun p => f p k.tid := by
  obtain ⟨kpid, ktid⟩ := k
  rcases eq_or_ne kpid t.pid with rfl | hpid
  · have htid : ktid ≠ t.tid := by
      rintro rfl
      exact hne rfl
    show ((table.setProcess t.pid (some p')).processes t.pid).map _ = _
    rw [setProcess_self, hp]
    exact congrArg some (hk _ htid)
  · rw [setProcess_of_ne hpid]

theorem threadState_of {p : Process} (hp : table.processes t.pid = some p) :
    table.threadState t = p.threads t.tid := by
  rw [threadState, hp]
  rfl

theorem threadPriority_of {p : Process} (hp : table.processes t.pid = some p) :
    table.threadPriority t = p.threadPriorities t.tid := by
  rw [threadPriority, hp]
  rfl

/-- `level` after a change of `t` only. -/
theorem level_update {table' : ProcessTable}
    (hothers : ∀ k ≠ t, table'.threadState k = table.threadState k ∧
      table'.threadPriority k = table.threadPriority k) :
    table'.level = Function.update table.level t (table'.level t) := by
  funext k
  rcases eq_or_ne k t with rfl | hk
  · rw [Function.update_self]
  · rw [Function.update_of_ne hk, level, level, (hothers k hk).1, (hothers k hk).2]

/-- The tables that the two setters end in. -/
theorem moved_of {p : Process} (p' : Process) {s' : Scheduler} {rings' : Nat → List Thread}
    (hp : table.processes t.pid = some p)
    (hstate : ∀ tid, tid ≠ t.tid → p'.threads tid = p.threads tid)
    (hprio : ∀ tid, tid ≠ t.tid → p'.threadPriorities tid = p.threadPriorities tid)
    (hedits : Edits t rings rings')
    (hq : s'.Queues (Function.update table.level t
      (({ table with scheduler := s' }.setProcess t.pid (some p')).level t)) rings')
    (hsame : ({ table with scheduler := s' }.setProcess t.pid (some p')).level t =
      table.level t → rings' = rings)
    (hirq : s'.inIrqHandler = table.scheduler.inIrqHandler) :
    Moved t table rings ({ table with scheduler := s' }.setProcess t.pid (some p')) rings' := by
  have hothers : ∀ k ≠ t,
      ({ table with scheduler := s' }.setProcess t.pid (some p')).threadState k =
        table.threadState k ∧
      ({ table with scheduler := s' }.setProcess t.pid (some p')).threadPriority k =
        table.threadPriority k := by
    intro k hk
    have h₁ := thread_setProcess
      (fun p => p.threads) hp hstate hk
    have h₂ := thread_setProcess
      (fun p => p.threadPriorities) hp hprio hk
    exact ⟨congrArg (fun o => o.getD .free) h₁, congrArg (fun o => o.getD .appDefault) h₂⟩
  refine ⟨?_, hedits, hsame, hothers, hirq, exist_setProcess hp⟩
  rw [level_update hothers]
  exact hq

theorem Edits.refl (t : Thread) (rings : Nat → List Thread) : Edits t rings rings :=
  fun _ => .inl rfl

theorem Edits.append (t : Thread) (rings : Nat → List Thread) (i : Nat) :
    Edits t rings (Function.update rings i (rings i ++ [t])) := by
  intro j
  rcases eq_or_ne j i with rfl | hj
  · exact .inr (.inl (Function.update_self ..))
  · exact .inl (Function.update_of_ne hj _ _)

theorem Edits.erase (t : Thread) (rings : Nat → List Thread) (i : Nat) :
    Edits t rings (Function.update rings i ((rings i).erase t)) := by
  intro j
  rcases eq_or_ne j i with rfl | hj
  · exact .inr (.inr (Function.update_self ..))
  · exact .inl (Function.update_of_ne hj _ _)

/-- `set_thread_state` of a thread that is not an interrupt handler, while another
thread is idle. -/
theorem setThreadState_run (h : table.scheduler.Queues table.level rings)
    (htid : t.tid ≠ IRQ_TID) {state : ThreadState} {idle : Thread}
    (hidle : table.level idle = some 0) (hne : t = idle → state = .ready) {p : Process}
    (hp : table.processes t.pid = some p) :
    ∃ table' rings', setThreadState t state table = (.ok (), table') ∧
      Moved t table rings table' rings' ∧ table'.threadState t = state ∧
      table'.threadPriority t = table.threadPriority t := by
  have hstate := threadState_of hp
  have hprio := threadPriority_of hp
  set p' : Process := { p with threads := Function.update p.threads t.tid state } with hp'
  have hafter : ∀ s' : Scheduler,
      ({ table with scheduler := s' }.setProcess t.pid (some p')).threadState t = state ∧
      ({ table with scheduler := s' }.setProcess t.pid (some p')).threadPriority t =
        table.threadPriority t := by
    intro s'
    rw [threadState_of (setProcess_self _ _ _), threadPriority_of (setProcess_self _ _ _), hprio]
    exact ⟨Function.update_self .., rfl⟩
  have hkeep : ∀ tid, tid ≠ t.tid → p'.threads tid = p.threads tid :=
    fun tid htid => Function.update_of_ne htid _ _
  unfold setThreadState
  rw [Prog.bind_ok _ (Prog.get_run _), hp, Prog.bind_ok _ (Prog.okOr_some_run _ p _)]
  by_cases hready : p.threads t.tid = .ready
  · have hlevel : table.level t = some (p.threadPriorities t.tid).index :=
      level_eq_some.2 ⟨htid, hstate.trans hready, by rw [hprio]⟩
    by_cases hst : state = .ready
    · -- ready before and after
      refine ⟨_, rings, ?_, moved_of _ hp hkeep (fun _ _ => rfl) (.refl t rings) ?_ (fun _ => rfl)
        rfl, hafter _⟩
      · rw [Prog.bind_ok _ (Prog.onlyIf_false_run (fun hc => hc.2 hst) _ _),
          Prog.bind_ok _ (Prog.onlyIf_false_run (fun hc => hc.1 hready) _ _), Prog.modify_run]
      · have hsame : (table.setProcess t.pid (some p')).level t = table.level t := by
          rw [hlevel, level_eq_some, (hafter table.scheduler).1, (hafter table.scheduler).2, hprio]
          exact ⟨htid, hst, rfl⟩
        rw [hsame, Function.update_eq_self]
        exact h
    · have hnone : ∀ s' : Scheduler,
          ({ table with scheduler := s' }.setProcess t.pid (some p')).level t = none := by
        intro s'
        rw [level, if_neg]
        rintro ⟨-, hr⟩
        exact hst ((hafter s').1.symm.trans hr)
      obtain ⟨s', hrun, hq, hirq⟩ := Scheduler.parkThread_run h htid hlevel hidle
        (fun heq => hst (hne heq.symm))
      refine ⟨_, _, ?_, moved_of _ hp hkeep (fun _ _ => rfl) (.erase t rings (p.threadPriorities t.tid).index) ?_ ?_ hirq,
        hafter s'⟩
      · rw [Prog.bind_ok _ ((Prog.onlyIf_true_run ⟨hready, hst⟩ _ _).trans (onScheduler_ok hrun)),
          Prog.bind_ok _ (Prog.onlyIf_false_run (fun hc => hc.1 hready) _ _), Prog.modify_run]
      · rw [hnone]
        exact hq
      · intro hcontra
        rw [hnone, hlevel] at hcontra
        cases hcontra
  · have hlevel : table.level t = none := by
      rw [level, if_neg]
      rintro ⟨-, hr⟩
      exact hready (hstate.symm.trans hr)
    by_cases hst : state = .ready
    · have hsome : ∀ s' : Scheduler,
          ({ table with scheduler := s' }.setProcess t.pid (some p')).level t =
            some (p.threadPriorities t.tid).index := by
        intro s'
        rw [level_eq_some, (hafter s').1, (hafter s').2, hprio]
        exact ⟨htid, hst, rfl⟩
      obtain ⟨s', hrun, hq, hirq⟩ := Scheduler.readyThread_run h htid hlevel
        (p.threadPriorities t.tid)
      refine ⟨_, _, ?_, moved_of _ hp hkeep (fun _ _ => rfl) (.append t rings (p.threadPriorities t.tid).index) ?_ ?_ hirq,
        hafter s'⟩
      · rw [Prog.bind_ok _ (Prog.onlyIf_false_run (fun hc => hready hc.1) _ _),
          Prog.bind_ok _ ((Prog.onlyIf_true_run ⟨hready, hst⟩ _ _).trans (onScheduler_ok hrun)),
          Prog.modify_run]
      · rw [hsome]
        exact hq
      · intro hcontra
        rw [hsome, hlevel] at hcontra
        cases hcontra
    · refine ⟨_, rings, ?_, moved_of _ hp hkeep (fun _ _ => rfl) (.refl t rings) ?_ (fun _ => rfl)
        rfl, hafter _⟩
      · rw [Prog.bind_ok _ (Prog.onlyIf_false_run (fun hc => hready hc.1) _ _),
          Prog.bind_ok _ (Prog.onlyIf_false_run (fun hc => hst hc.2) _ _), Prog.modify_run]
      · have hsame : (table.setProcess t.pid (some p')).level t = table.level t := by
          rw [hlevel, level, if_neg]
          rintro ⟨-, hr⟩
          exact hst ((hafter table.scheduler).1.symm.trans hr)
        rw [hsame, Function.update_eq_self]
        exact h

/-- `set_thread_priority` of a thread that is not an interrupt handler. A ready thread
leaves its queue and goes to the end of the other one. -/
theorem setThreadPriority_run (h : table.scheduler.Queues table.level rings)
    (htid : t.tid ≠ IRQ_TID) {priority : ThreadPriority} {idle : Thread}
    (hidle : table.level idle = some 0) (hne : t = idle → priority = .idle) {p : Process}
    (hp : table.processes t.pid = some p) :
    ∃ table' rings', setThreadPriority t priority table = (.ok (), table') ∧
      Moved t table rings table' rings' ∧ table'.threadState t = table.threadState t ∧
      table'.threadPriority t = priority := by
  have hstate := threadState_of hp
  have hprio := threadPriority_of hp
  unfold setThreadPriority
  rw [Prog.bind_ok _ (Prog.get_run _), hp, Prog.bind_ok _ (Prog.okOr_some_run _ p _)]
  by_cases hsame : p.threadPriorities t.tid = priority
  · rw [if_pos hsame]
    exact ⟨table, rings, rfl, ⟨h, .refl t rings, fun _ => rfl, fun _ _ => ⟨rfl, rfl⟩, rfl,
      fun _ => rfl⟩, rfl, hprio.trans hsame⟩
  · rw [if_neg hsame]
    set p' : Process :=
      { p with threadPriorities := Function.update p.threadPriorities t.tid priority } with hp'
    have hafter : ∀ s' : Scheduler,
        ({ table with scheduler := s' }.setProcess t.pid (some p')).threadState t =
          table.threadState t ∧
        ({ table with scheduler := s' }.setProcess t.pid (some p')).threadPriority t = priority := by
      intro s'
      rw [threadState_of (setProcess_self _ _ _), threadPriority_of (setProcess_self _ _ _), hstate]
      exact ⟨rfl, Function.update_self ..⟩
    have hkeep : ∀ tid, tid ≠ t.tid → p'.threadPriorities tid = p.threadPriorities tid :=
      fun tid htid => Function.update_of_ne htid _ _
    by_cases hready : p.threads t.tid = .ready
    · have hlevel : table.level t = some (p.threadPriorities t.tid).index :=
        level_eq_some.2 ⟨htid, hstate.trans hready, by rw [hprio]⟩
      have hlevel' : ∀ s' : Scheduler,
          ({ table with scheduler := s' }.setProcess t.pid (some p')).level t =
            some priority.index := by
        intro s'
        rw [level_eq_some, (hafter s').1, (hafter s').2]
        exact ⟨htid, hstate.trans hready, rfl⟩
      have hindex : (p.threadPriorities t.tid).index ≠ priority.index :=
        fun hi => hsame (ThreadPriority.index_inj hi)
      have hidle_ne : idle ≠ t := by
        rintro rfl
        -- the idle thread keeps its priority
        obtain ⟨-, -, hzero⟩ := level_eq_some.1 hidle
        rw [hprio] at hzero
        rw [hzero, hne rfl] at hindex
        exact hindex rfl
      obtain ⟨s₁, hrun₁, hq₁, hirq₁⟩ := Scheduler.parkThread_run h htid hlevel hidle hidle_ne
      obtain ⟨s₂, hrun₂, hq₂, hirq₂⟩ := Scheduler.readyThread_run hq₁ htid
        (Function.update_self ..) priority
      have hedits : Edits t rings (Function.update (Function.update rings
          (p.threadPriorities t.tid).index ((rings (p.threadPriorities t.tid).index).erase t))
          priority.index (rings priority.index ++ [t])) := by
        intro i
        rcases eq_or_ne i priority.index with rfl | hi
        · rw [Function.update_self]
          exact .inr (.inl rfl)
        · rw [Function.update_of_ne hi]
          exact Edits.erase t rings _ i
      rw [Function.update_idem, Function.update_of_ne (Ne.symm hindex)] at hq₂
      refine ⟨_, _, ?_, moved_of p' hp (fun _ _ => rfl) hkeep hedits ?_ ?_ (hirq₂.trans hirq₁),
        hafter s₂⟩
      · have hboth : Prog.onlyIf (p.threads t.tid = .ready) (do
            onScheduler (Scheduler.parkThread t (p.threadPriorities t.tid))
            onScheduler (Scheduler.readyThread t priority)) table =
            ((.ok (), { table with scheduler := s₂ }) : Outcome Panic Error Unit × ProcessTable) := by
          rw [Prog.onlyIf_true_run hready, Prog.bind_ok _ (onScheduler_ok hrun₁)]
          exact onScheduler_ok hrun₂
        rw [Prog.bind_ok _ hboth, Prog.modify_run]
      · rw [hlevel']
        exact hq₂
      · intro hcontra
        rw [hlevel', hlevel] at hcontra
        exact absurd (Option.some.inj hcontra) (Ne.symm hindex)
    · have hnone : ∀ s' : Scheduler,
          ({ table with scheduler := s' }.setProcess t.pid (some p')).level t = none := by
        intro s'
        rw [level, if_neg]
        rintro ⟨-, hr⟩
        exact hready (hstate.symm.trans ((hafter s').1.symm.trans hr))
      have hlevel : table.level t = none := by
        rw [level, if_neg]
        rintro ⟨-, hr⟩
        exact hready (hstate.symm.trans hr)
      refine ⟨_, rings, ?_, moved_of p' hp (fun _ _ => rfl) hkeep (.refl t rings) ?_ (fun _ => rfl)
        rfl, hafter _⟩
      · rw [Prog.bind_ok _ (Prog.onlyIf_false_run hready _ _), Prog.modify_run]
      · rw [hnone table.scheduler, ← hlevel, Function.update_eq_self]
        exact h

end ProcessTable

end Kernel
