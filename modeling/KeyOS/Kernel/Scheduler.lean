import KeyOS.Kernel.Process
import KeyOS.Lib.LinkedRing

/-!
# The scheduler

The ready threads of each priority form a circular doubly linked list. `queueHeads`
points into the circle, to the most recently activated thread, and the thread that
runs next is the head of the highest priority that has one. The links of all threads
share one table, so an edit of one ring has to leave the others alone.
-/

namespace Kernel

open Exec LinkedRing

/-! ## 1. The functions of the source -/

/-- A thread, by its process and its ID. -/
structure Thread where
  pid : PID
  tid : TID
deriving DecidableEq

abbrev SchedulerLink : Type := Link Thread

structure Scheduler where
  /-- One per priority -/
  queueHeads : Nat → Option Thread
  links : Links Thread
  highestReadyPriority : Nat
  inIrqHandler : Bool

namespace Scheduler

def setHead (priority : Nat) (head : Option Thread) (s : Scheduler) : Scheduler :=
  { s with queueHeads := Function.update s.queueHeads priority head }

def setLink (t : Thread) (link : Option SchedulerLink) (s : Scheduler) : Scheduler :=
  { s with links := Function.update s.links t link }

/-- Add a thread to its ready queue, behind all the others. -/
def readyThread (t : Thread) (priority : ThreadPriority) : Prog Scheduler Panic Error Unit := do
  let s ← Prog.get
  -- IRQ handlers are scheduled out of band
  if t.tid = IRQ_TID then
    Prog.require .irqReadyTwice (!s.inIrqHandler)
    Prog.modify fun s => { s with inIrqHandler := true }
  else
    match s.queueHeads priority.index with
    | none =>
      Prog.modify (setHead priority.index (some t))
      Prog.modify fun s =>
        { s with highestReadyPriority := max s.highestReadyPriority priority.index }
      Prog.modify (setLink t (some ⟨t, t⟩))
    | some head =>
      Prog.require .linkedTwice (s.links t).isNone
      let headCopy ← Prog.expect .notLinked (s.links head)
      Prog.modify (setLink head (some ⟨headCopy.next, t⟩))
      let s ← Prog.get
      let prev ← Prog.expect .notLinked (s.links headCopy.prev)
      Prog.modify (setLink headCopy.prev (some ⟨t, prev.prev⟩))
      Prog.modify (setLink t (some ⟨head, headCopy.prev⟩))

/-- The highest priority below `priority` that has a ready thread. -/
def highestBelow (priority : Nat) (s : Scheduler) : Option Nat :=
  (List.range priority).reverse.find? fun p => (s.queueHeads p).isSome

/-- Take a thread out of its ready queue. -/
def parkThread (t : Thread) (priority : ThreadPriority) : Prog Scheduler Panic Error Unit := do
  let s ← Prog.get
  if t.tid = IRQ_TID then
    Prog.require .irqNotReady s.inIrqHandler
    Prog.modify fun s => { s with inIrqHandler := false }
  else
    let link ← Prog.expect .notLinked (s.links t)
    Prog.modify (setLink t none)
    if link.next = t then
      Prog.modify (setHead priority.index none)
      let s ← Prog.get
      if priority.index = s.highestReadyPriority then
        let p ← Prog.expect .noThreadsReady (s.highestBelow priority.index)
        Prog.modify fun s => { s with highestReadyPriority := p }
    else
      Prog.onlyIf (s.queueHeads priority.index = some t)
        (Prog.modify (setHead priority.index (some link.next)))
      let s ← Prog.get
      let prev ← Prog.expect .notLinked (s.links link.prev)
      Prog.modify (setLink link.prev (some ⟨link.next, prev.prev⟩))
      let s ← Prog.get
      let next ← Prog.expect .notLinked (s.links link.next)
      Prog.modify (setLink link.next (some ⟨next.next, link.prev⟩))

/-- Move the head of a ready queue to the next thread, if `t` is the head. -/
def yieldThread (t : Thread) (priority : ThreadPriority) : Prog Scheduler Panic Error Unit := do
  let s ← Prog.get
  if s.queueHeads priority.index = some t then
    let link ← Prog.expect .notLinked (s.links t)
    Prog.modify (setHead priority.index (some link.next))
  else
    pure ()

end Scheduler

/-- The processes and the scheduler that their threads are in. -/
structure ProcessTable where
  processes : PID → Option Process
  scheduler : Scheduler

namespace ProcessTable

def threadState (table : ProcessTable) (t : Thread) : ThreadState :=
  ((table.processes t.pid).map fun p => p.threads t.tid).getD .free

def threadPriority (table : ProcessTable) (t : Thread) : ThreadPriority :=
  ((table.processes t.pid).map fun p => p.threadPriorities t.tid).getD .appDefault

def onScheduler {α : Type} (x : Prog Scheduler Panic Error α) :
    Prog ProcessTable Panic Error α :=
  Prog.zoom scheduler (fun s table => { table with scheduler := s }) x

def setProcess (pid : PID) (p : Option Process) (table : ProcessTable) : ProcessTable :=
  { table with processes := Function.update table.processes pid p }

@[simp] theorem setProcess_self (table : ProcessTable) (pid : PID) (p : Option Process) :
    (table.setProcess pid p).processes pid = p := Function.update_self ..

theorem setProcess_of_ne {pid pid' : PID} (h : pid' ≠ pid) (table : ProcessTable)
    (p : Option Process) : (table.setProcess pid p).processes pid' = table.processes pid' :=
  Function.update_of_ne h _ _

def setThreadState (t : Thread) (state : ThreadState) : Prog ProcessTable Panic Error Unit := do
  let table ← Prog.get
  let p ← Prog.okOr .processNotFound (table.processes t.pid)
  Prog.onlyIf (p.threads t.tid = .ready ∧ state ≠ .ready)
    (onScheduler (Scheduler.parkThread t (p.threadPriorities t.tid)))
  Prog.onlyIf (p.threads t.tid ≠ .ready ∧ state = .ready)
    (onScheduler (Scheduler.readyThread t (p.threadPriorities t.tid)))
  Prog.modify (setProcess t.pid (some { p with threads := Function.update p.threads t.tid state }))

def setThreadPriority (t : Thread) (priority : ThreadPriority) :
    Prog ProcessTable Panic Error Unit := do
  let table ← Prog.get
  let p ← Prog.okOr .processNotFound (table.processes t.pid)
  if p.threadPriorities t.tid = priority then
    pure ()
  else
    Prog.onlyIf (p.threads t.tid = .ready) do
      onScheduler (Scheduler.parkThread t (p.threadPriorities t.tid))
      onScheduler (Scheduler.readyThread t priority)
    Prog.modify (setProcess t.pid
      (some { p with threadPriorities := Function.update p.threadPriorities t.tid priority }))

/-- Choose the thread to run: the one in `current` while an interrupt is handled,
otherwise the head of the highest ready queue. -/
def activateCurrent (current : Thread) : Prog ProcessTable Panic Error Thread := do
  let table ← Prog.get
  if table.scheduler.inIrqHandler then
    pure current
  else
    let next ← Prog.expect .highestHeadEmpty
      (table.scheduler.queueHeads table.scheduler.highestReadyPriority)
    if next = current then
      pure current
    else
      let _ ← Prog.expect .processMissing (table.processes next.pid)
      pure next

end ProcessTable

end Kernel
