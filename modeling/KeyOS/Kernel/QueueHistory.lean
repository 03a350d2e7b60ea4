import KeyOS.Kernel.ServerQueue

/-!
# What a server has accepted and what it has delivered

A history remembers the messages that `queue_message` accepted and the envelopes that
`take_next_message` handed out. The queue stores neither: the run theorem says that the
second is the first in order, as far as it has come.
-/

namespace Kernel

open Exec

/-! ## 1. Histories -/

structure History where
  server : Server
  /-- The messages that `queue_message` accepted, with their senders -/
  accepted : List (PID × Message)
  /-- The envelopes that `take_next_message` returned -/
  delivered : List MessageEnvelope
  /-- The processes whose messages were discarded -/
  discarded : List PID

namespace History

def start (s : Server) : History := ⟨s, [], [], []⟩

def onServer {α : Type} (x : Prog Server Panic Error α) : Prog History Panic Error α :=
  Prog.zoom server (fun s h => { h with server := s }) x

end History

/-- An operation on the queue of a server. -/
inductive QueueOp where
  | queueMessage (pid : PID) (tid : TID) (message : Message) (addr : Option MemoryAddress)
  | queueResponse (pid : PID) (tid : TID) (message : Message) (addr : Option MemoryAddress)
  | takeNextMessage
  | takeWaitingMessage (messageIndex : Nat) (buf : Option MemoryRange)
  | discardMessagesForPid (pid : PID)

namespace QueueOp

open History

def step (sidx : Nat) : QueueOp → Prog History Panic Error Unit
  | .queueMessage pid tid message addr => do
    let _ ← onServer (Server.queueMessage pid tid message addr)
    Prog.modify fun h => { h with accepted := h.accepted ++ [(pid, message)] }
  | .queueResponse pid tid message addr => do
    let _ ← onServer (Server.queueResponse pid tid message addr)
  | .takeNextMessage => do
    let result ← onServer (Server.takeNextMessage sidx)
    Prog.modify fun h => { h with delivered := h.delivered ++ result.toList }
  | .takeWaitingMessage messageIndex buf => do
    let _ ← onServer (Server.takeWaitingMessage messageIndex buf)
  | .discardMessagesForPid pid =>
    Prog.modify fun h =>
      { h with
        server := h.server.discardMessagesForPid pid
        discarded := pid :: h.discarded }

end QueueOp

/-! ## 2. The invariant -/

/-- The envelope `e` delivers the message `a` unchanged, from one of the `n` slots. -/
def DeliveredAs (sidx n : Nat) (discarded : List PID) (a : PID × Message)
    (e : MessageEnvelope) : Prop :=
  ∃ i p, i < n ∧ SentAs discarded a.1 p ∧ e = ⟨SenderID.toSender ⟨sidx, i, some p⟩, a.2⟩

/-- The accepted messages are the delivered ones and then the ones in the queue. -/
structure History.Inv (sidx n : Nat) (h : History) : Prop where
  counted : h.server.Counted n
  small : n ≤ 128
  split : ∃ past pending order, h.accepted = past ++ pending ∧
    List.Forall₂ (DeliveredAs sidx n h.discarded) past h.delivered ∧
    h.server.InOrder h.discarded order pending

theorem SentAs.mono {discarded discarded' : List PID} {sender p : PID}
    (h : SentAs discarded sender p) (hsub : discarded ⊆ discarded') :
    SentAs discarded' sender p :=
  h.imp_right fun ⟨hp, hmem⟩ => ⟨hp, hsub hmem⟩

theorem DeliveredAs.mono {sidx n : Nat} {discarded discarded' : List PID} {a : PID × Message}
    {e : MessageEnvelope} (h : DeliveredAs sidx n discarded a e)
    (hsub : discarded ⊆ discarded') : DeliveredAs sidx n discarded' a e := by
  obtain ⟨i, p, hi, hp, he⟩ := h
  exact ⟨i, p, hi, hp.mono hsub, he⟩

namespace Server

variable {s : Server} {n : Nat} {discarded : List PID} {order : List Nat}
  {pending : List (PID × Message)} {pid : PID}

/-- The messages keep their place when a process is discarded. -/
theorem InOrder.discard (h : s.InOrder discarded order pending) (pid : PID) :
    (s.discardMessagesForPid pid).InOrder (pid :: discarded) order pending where
  nodup := h.nodup
  complete i q hq hu := by
    rw [discardMessagesForPid, List.getElem?_map, Option.map_eq_some_iff] at hq
    obtain ⟨q₀, hq₀, rfl⟩ := hq
    exact h.complete i q₀ hq₀ fun hnone => hu (QueuedMessage.undelivered_discardFor_none hnone)
  generations := h.generations
  carries := by
    refine h.carries.mono fun i _ g a hold => ?_
    obtain ⟨q, p, hq, hu, hsent⟩ := hold
    obtain ⟨p', hu', hp'⟩ := QueuedMessage.undelivered_discardFor hu
    refine ⟨q.discardFor pid, p', ?_, hu', ?_⟩
    · rw [discardMessagesForPid, List.getElem?_map, hq]
      rfl
    · rcases hp' with rfl | ⟨rfl, rfl⟩
      · exact hsent.mono (List.subset_cons_self _ _)
      · -- the sender was the discarded process, or the marker already
        rcases hsent with rfl | ⟨-, hmem⟩
        · exact .inr ⟨rfl, List.mem_cons_self⟩
        · exact .inr ⟨rfl, List.mem_cons_of_mem _ hmem⟩

/-- A new message takes the next generation, behind all the others. -/
theorem InOrder.accept (h : s.InOrder discarded order pending) {i : Nat} {q : QueuedMessage}
    {m : Message} (hi : s.queue[i]? = some .empty)
    (hq : q.undelivered = some (s.tailGeneration, pid, m)) :
    InOrder { s with
      queueHead := s.nextIndex i
      queue := s.queue.set i q
      emptyCount := s.emptyCount - 1
      tailGeneration := s.tailGeneration + 1 } discarded (order ++ [i]) (pending ++ [(pid, m)]) := by
  have hmem : i ∉ order := h.notMem hi rfl
  have hlt : i < s.queue.length := (List.getElem?_eq_some_iff.1 hi).1
  refine ⟨?_, fun j r hr hu => ?_, ?_, ?_⟩
  · rw [List.nodup_append]
    refine ⟨h.nodup, List.nodup_singleton i, fun j hj k hk => ?_⟩
    rw [List.mem_singleton] at hk
    rintro rfl
    exact hmem (hk ▸ hj)
  · rcases eq_or_ne i j with rfl | hne
    · exact List.mem_append_right _ (List.mem_singleton_self _)
    · rw [List.getElem?_set_ne hne] at hr
      exact List.mem_append_left _ (h.complete j r hr hu)
  · show s.tailGeneration + 1 = s.headGeneration + UInt8.ofNat (order ++ [i]).length
    rw [List.length_append, List.length_singleton, UInt8.ofNat_add, ← UInt8.add_assoc,
      ← h.generations]
    rfl
  · refine Carries.snoc (h.carries.mono fun j hj g a hold => ?_) ?_
    · obtain ⟨r, p, hr, hold⟩ := hold
      refine ⟨r, p, ?_, hold⟩
      rw [List.getElem?_set_ne (fun hij : i = j => hmem (hij ▸ hj)), hr]
    · refine ⟨q, pid, List.getElem?_set_self hlt, ?_, .inl rfl⟩
      rw [hq, h.generations]

/-- Receiving takes the first message of the order. -/
theorem InOrder.receive (h : s.InOrder discarded order pending) (hn : s.queue.length ≤ 128)
    {i : Nat} {q response : QueuedMessage} {p : PID} {m : Message} (hq : s.queue[i]? = some q)
    (hu : q.undelivered = some (s.headGeneration, p, m)) (hr : response.undelivered = none) :
    ∃ a rest pend, pending = a :: pend ∧ a.2 = m ∧ SentAs discarded a.1 p ∧
      (s.received i response).InOrder discarded rest pend := by
  obtain ⟨rest, a, pend, rfl, rfl, ha, hsent, htail⟩ := h.head_eq hn hq hu
  have hnodup := List.nodup_cons.1 h.nodup
  refine ⟨a, rest, pend, rfl, ha, hsent, hnodup.2, fun j r hj hrj => ?_, ?_, ?_⟩
  · rcases eq_or_ne i j with rfl | hne
    · rw [received, List.getElem?_set_self (List.getElem?_eq_some_iff.1 hq).1] at hj
      cases hj
      exact absurd hr hrj
    · rw [received, List.getElem?_set_ne hne] at hj
      exact (List.mem_cons.1 (h.complete j r hj hrj)).resolve_left (Ne.symm hne)
  · show s.tailGeneration = s.headGeneration + 1 + UInt8.ofNat rest.length
    rw [h.generations, List.length_cons, Nat.add_comm rest.length 1, UInt8.ofNat_add,
      ← UInt8.add_assoc]
    rfl
  · refine htail.mono fun j hj g b hold => ?_
    obtain ⟨r, p', hr', hold⟩ := hold
    refine ⟨r, p', ?_, hold⟩
    rw [received, List.getElem?_set_ne (fun hij : i = j => hnodup.1 (hij ▸ hj)), hr']

end Server

/-! ## 3. One operation -/

namespace History

variable {sidx n : Nat} {h : History}

theorem onServer_ok {α : Type} {x : Prog Server Panic Error α} {a : α} {s' : Server}
    (hx : x h.server = (.ok a, s')) : onServer x h = (.ok a, { h with server := s' }) := by
  simp only [onServer, Prog.zoom, hx]

theorem onServer_err {α : Type} {x : Prog Server Panic Error α} {e : Error} {s' : Server}
    (hx : x h.server = (.err e, s')) : onServer x h = (.err e, { h with server := s' }) := by
  simp only [onServer, Prog.zoom, hx]

/-- The invariant survives any edit that keeps the order of the undelivered messages. -/
theorem Inv.edit (hinv : h.Inv sidx n) {s' : Server} (hc : s'.Counted n)
    (ho : ∀ order pending, h.server.InOrder h.discarded order pending →
      s'.InOrder h.discarded order pending) : Inv sidx n { h with server := s' } := by
  obtain ⟨past, pending, order, hsplit, hpast, horder⟩ := hinv.split
  exact ⟨hc, hinv.small, past, pending, order, hsplit, hpast, ho _ _ horder⟩

theorem Inv.moveHead (hinv : h.Inv sidx n) (i : Nat) :
    Inv sidx n { h with server := { h.server with queueHead := h.server.nextIndex i } } :=
  hinv.edit (hinv.counted.moveHead i) fun _ _ ho =>
    ⟨ho.nodup, ho.complete, ho.generations, ho.carries⟩

theorem queueMessage_keeps (pid : PID) (tid : TID) (message : Message)
    (addr : Option MemoryAddress) :
    Prog.Keeps (Inv sidx n) ((QueueOp.queueMessage pid tid message addr).step sidx)
      fun _ => False := by
  intro h hinv
  rw [QueueOp.step]
  rcases Server.queueMessage_cases h.server pid tid message addr with
    ⟨-, hrun⟩ | ⟨i, hi, ⟨e, hrun⟩ | ⟨q, hq, hrun⟩⟩
  · rw [Prog.bind_err _ (onServer_err hrun)]
    exact hinv
  · rw [Prog.bind_err _ (onServer_err hrun)]
    exact hinv.moveHead i
  · obtain ⟨past, pending, order, hsplit, hpast, horder⟩ := hinv.split
    have hu := Server.queuedMessage_undelivered hq
    have hlt := horder.length_lt hi rfl
    have hgen : h.server.tailGeneration + 1 ≠ h.server.headGeneration := by
      -- one more message still leaves fewer than 256 generations in use
      intro heq
      have hsmall : order.length + 1 < 256 := by
        have := hinv.counted.slots
        have := hinv.small
        omega
      rw [horder.generations, UInt8.add_assoc, show (1 : UInt8) = UInt8.ofNat 1 from rfl,
        ← UInt8.ofNat_add] at heq
      exact absurd (add_ofNat_eq_self hsmall heq) (Nat.succ_ne_zero _)
    rw [Prog.bind_ok _ (onServer_ok (hrun (hinv.counted.pos hi) hgen)), Prog.modify_run]
    have hne : q ≠ .empty := by
      rintro rfl
      cases hu
    refine ⟨hinv.counted.fill hi hne _, hinv.small, past, pending ++ [(pid, message)],
      order ++ [i], ?_, hpast, horder.accept hi hu⟩
    show h.accepted ++ [(pid, message)] = _
    rw [hsplit, List.append_assoc]

theorem queueResponse_keeps (pid : PID) (tid : TID) (message : Message)
    (addr : Option MemoryAddress) :
    Prog.Keeps (Inv sidx n) ((QueueOp.queueResponse pid tid message addr).step sidx)
      fun _ => False := by
  intro h hinv
  rw [QueueOp.step]
  rcases Server.queueResponse_cases h.server pid tid message addr with
    ⟨-, hrun⟩ | ⟨i, hi, ⟨e, hrun⟩ | ⟨q, hq, hrun⟩⟩
  · rw [Prog.bind_err _ (onServer_err hrun)]
    exact hinv
  · rw [Prog.bind_err _ (onServer_err hrun)]
    exact hinv.moveHead i
  · obtain ⟨hu, hne⟩ := Server.queuedResponse_undelivered hq
    rw [Prog.bind_ok _ (onServer_ok (hrun (hinv.counted.pos hi)))]
    exact hinv.edit (hinv.counted.fill hi hne _) fun _ _ ho => ho.set hi rfl hu rfl rfl rfl

theorem takeWaitingMessage_keeps (messageIndex : Nat) (buf : Option MemoryRange) :
    Prog.Keeps (Inv sidx n) ((QueueOp.takeWaitingMessage messageIndex buf).step sidx)
      fun _ => False := by
  intro h hinv
  rw [QueueOp.step]
  rcases Server.takeWaitingMessage_cases h.server messageIndex buf with
    ⟨e, hrun⟩ | ⟨q, -, -, hrun⟩ | ⟨q, w, hq, -, hw, hrun⟩
  · rw [Prog.bind_err _ (onServer_err hrun)]
    exact hinv
  · rw [Prog.bind_ok _ (onServer_ok hrun)]
    exact hinv
  · obtain ⟨hu, hne⟩ := Server.waitingMessage_waits hw
    rw [Prog.bind_ok _ (onServer_ok hrun)]
    exact hinv.edit (hinv.counted.free hq hne) fun _ _ ho => ho.set hq hu rfl rfl rfl rfl

/-- `take_next_message` returns the oldest message that is not delivered, or there is
none. -/
theorem takeNextMessage_spec (hinv : h.Inv sidx n) :
    (h.delivered.length = h.accepted.length ∧
      QueueOp.takeNextMessage.step sidx h = (.ok (), h) ∧
      Server.takeNextMessage sidx h.server = (.ok none, h.server)) ∨
    ∃ e s', h.delivered.length < h.accepted.length ∧
      QueueOp.takeNextMessage.step sidx h =
        (.ok (), { h with server := s', delivered := h.delivered ++ [e] }) ∧
      Server.takeNextMessage sidx h.server = (.ok (some e), s') ∧
      Inv sidx n { h with server := s', delivered := h.delivered ++ [e] } := by
  obtain ⟨past, pending, order, hsplit, hpast, horder⟩ := hinv.split
  have hslots := hinv.counted.slots
  have hsmall : h.server.queue.length ≤ 128 := hslots ▸ hinv.small
  have hlen := congrArg List.length hsplit
  rw [List.length_append, hpast.length_eq] at hlen
  rcases Server.takeNextMessage_cases h.server sidx (hslots ▸ hinv.counted.tail) with
    ⟨i, q, p, m, response, hq, hu, hr, hrun⟩ | ⟨hnone, hrun⟩
  · obtain ⟨a, rest, pend, rfl, rfl, hsent, horder'⟩ := horder.receive hsmall hq hu hr
    have hne : q ≠ .empty := by
      rintro rfl
      cases hu
    refine .inr ⟨_, _, ?_, ?_, hrun, hinv.counted.received hq hne response, hinv.small,
      past ++ [a], pend, rest, ?_, ?_, horder'⟩
    · rw [hlen, List.length_cons]
      exact Nat.lt_add_of_pos_right (Nat.succ_pos _)
    · rw [QueueOp.step, Prog.bind_ok _ (onServer_ok hrun), Prog.modify_run]
      rfl
    · show h.accepted = _
      rw [hsplit, List.append_assoc, List.singleton_append]
    · have hi : i < n := hslots ▸ (List.getElem?_eq_some_iff.1 hq).1
      exact List.rel_append hpast (.cons ⟨i, p, hi, hsent, rfl⟩ .nil)
  · obtain rfl := horder.eq_nil hsmall hnone
    refine .inl ⟨hlen.symm, ?_, hrun⟩
    rw [QueueOp.step, Prog.bind_ok _ (onServer_ok hrun), Prog.modify_run]
    simp only [Option.toList_none, List.append_nil]

theorem discard_keeps (pid : PID) :
    Prog.Keeps (Inv sidx n) ((QueueOp.discardMessagesForPid pid).step sidx) fun _ => False := by
  intro h hinv
  rw [QueueOp.step, Prog.modify_run]
  obtain ⟨past, pending, order, hsplit, hpast, horder⟩ := hinv.split
  exact ⟨hinv.counted.discard pid, hinv.small, past, pending, order, hsplit,
    hpast.imp fun a e hd => hd.mono (List.subset_cons_self _ _), horder.discard pid⟩

/-- No operation panics, and each keeps the invariant. -/
theorem step_keeps (op : QueueOp) : Prog.Keeps (Inv sidx n) (op.step sidx) fun _ => False := by
  cases op with
  | queueMessage pid tid message addr => exact queueMessage_keeps pid tid message addr
  | queueResponse pid tid message addr => exact queueResponse_keeps pid tid message addr
  | takeNextMessage =>
    intro h hinv
    rcases takeNextMessage_spec hinv with ⟨-, hrun, -⟩ | ⟨e, s', -, hrun, -, hinv'⟩
    · rw [hrun]
      exact hinv
    · rw [hrun]
      exact hinv'
  | takeWaitingMessage messageIndex buf => exact takeWaitingMessage_keeps messageIndex buf
  | discardMessagesForPid pid => exact discard_keeps pid

end History

/-! ## 4. Every run -/

namespace History

variable {sidx n : Nat} {h : History}

/-- A fresh server has accepted nothing. -/
theorem Inv.init {pid : PID} {sid : SID} {permissions : Range} {s : Server} (hpos : 1 ≤ n)
    (hsmall : n ≤ 128) (hs : Server.init pid sid n permissions none = (.ok (), some s)) :
    Inv sidx n (start s) := by
  obtain ⟨p, rfl⟩ := Server.init_ok hs
  refine ⟨⟨List.length_replicate, hpos, hpos, ?_⟩, hsmall, [], [], [], rfl, .nil, List.nodup_nil,
    fun i q hq hu => ?_, rfl, .nil _⟩
  · show (List.replicate n QueuedMessage.empty).length = _
    rw [List.length_replicate]
    exact (List.count_replicate_self ..).symm
  · obtain rfl := (List.mem_replicate.1 (List.mem_of_getElem? hq)).2
    exact absurd rfl hu

theorem run_inv (hinv : h.Inv sidx n) (ops : List QueueOp) :
    ∃ h', Prog.run (QueueOp.step sidx) ops h = .ok h' ∧ h'.Inv sidx n :=
  Prog.run_keeps ops (fun op _ _ hs => (step_keeps op).after hs) hinv

/-- Receiving as often as there are messages in the queue delivers all of them. -/
theorem drain (k : Nat) (hinv : h.Inv sidx n) (hk : h.delivered.length + k = h.accepted.length) :
    ∃ h', Prog.run (QueueOp.step sidx) (List.replicate k .takeNextMessage) h = .ok h' ∧
      h'.Inv sidx n ∧ h'.accepted = h.accepted ∧ h'.delivered.length = h.accepted.length := by
  induction k generalizing h with
  | zero => exact ⟨h, rfl, hinv, rfl, hk⟩
  | succ k ih =>
    rcases takeNextMessage_spec hinv with ⟨hall, -, -⟩ | ⟨e, s', -, hrun, -, hinv'⟩
    · exact absurd hk (by omega)
    · have hafter : Prog.after (QueueOp.takeNextMessage.step sidx) h =
          .ok { h with server := s', delivered := h.delivered ++ [e] } := by
        rw [Prog.after, hrun]
      have hk' : (h.delivered ++ [e]).length + k = h.accepted.length := by
        rw [List.length_append, List.length_singleton, ← hk]
        omega
      obtain ⟨h', hrun', hrest⟩ := ih hinv' hk'
      exact ⟨h', (Prog.run_cons_ok _ hafter).trans hrun', hrest⟩

/-- Bodies and senders of what an invariant history has delivered. -/
theorem Inv.delivered_prefix (hinv : h.Inv sidx n) :
    List.Forall₂ (DeliveredAs sidx n h.discarded) (h.accepted.take h.delivered.length)
      h.delivered := by
  obtain ⟨past, pending, order, hsplit, hpast, -⟩ := hinv.split
  rw [hsplit, ← hpast.length_eq, List.take_left]
  exact hpast

theorem Inv.delivered_le (hinv : h.Inv sidx n) : h.delivered.length ≤ h.accepted.length := by
  obtain ⟨past, pending, order, hsplit, hpast, -⟩ := hinv.split
  rw [hsplit, List.length_append, hpast.length_eq]
  exact Nat.le_add_right _ _

/-- **First in, first out, exactly once.** Every run over a fresh server of at most 128
slots ends without a panic. What it has delivered is what it has accepted, in order and
with the same bodies, up to the messages that are still in the queue; receiving those
delivers the rest; `take_next_message` returns nothing exactly when none is left; and
`emptyCount` is the number of empty slots. -/
theorem queue_fifo {pid : PID} {sid : SID} {permissions : Range} {s : Server} (hpos : 1 ≤ n)
    (hsmall : n ≤ 128) (hs : Server.init pid sid n permissions none = (.ok (), some s))
    (sidx : Nat) (ops : List QueueOp) :
    ∃ h, Prog.run (QueueOp.step sidx) ops (start s) = .ok h ∧
      List.Forall₂ (DeliveredAs sidx n h.discarded) (h.accepted.take h.delivered.length)
        h.delivered ∧
      (∃ h', Prog.run (QueueOp.step sidx)
          (List.replicate (h.accepted.length - h.delivered.length) .takeNextMessage) h = .ok h' ∧
        h'.accepted = h.accepted ∧
        List.Forall₂ (DeliveredAs sidx n h'.discarded) h.accepted h'.delivered) ∧
      ((Server.takeNextMessage sidx h.server).1 = .ok none ↔
        h.delivered.length = h.accepted.length) ∧
      h.server.emptyCount = h.server.queue.count .empty := by
  obtain ⟨h, hrun, hinv⟩ := run_inv (Inv.init hpos hsmall hs) ops
  refine ⟨h, hrun, hinv.delivered_prefix, ?_, ?_, hinv.counted.count⟩
  · obtain ⟨h', hrun', hinv', hacc, hlen⟩ :=
      drain _ hinv (Nat.add_sub_cancel' hinv.delivered_le)
    refine ⟨h', hrun', hacc, ?_⟩
    have hpre := hinv'.delivered_prefix
    rwa [hacc, hlen, List.take_length] at hpre
  · rcases takeNextMessage_spec hinv with ⟨hall, -, hnone⟩ | ⟨e, s', hlt, -, hsome, -⟩
    · rw [hnone]
      exact ⟨fun _ => hall, fun _ => rfl⟩
    · rw [hsome]
      exact ⟨nofun, fun heq => absurd heq (Nat.ne_of_lt hlt)⟩

/-- Two slots, and a scalar message that is sent and received. -/
theorem queue_fifo_two_slots :
    ∃ h, Prog.run (QueueOp.step 0)
        [.queueMessage .kernel 1 (Message.newScalar 7 1 2 3 4) none, .takeNextMessage]
        (start (Server.fresh .kernel ⟨0, 0, 0, 0⟩ 2 .default)) = .ok h ∧
      List.Forall₂ (DeliveredAs 0 2 h.discarded) (h.accepted.take h.delivered.length)
        h.delivered := by
  have hs : Server.init .kernel ⟨0, 0, 0, 0⟩ 2 .zero none =
      (.ok (), some (Server.fresh .kernel ⟨0, 0, 0, 0⟩ 2 .default)) := rfl
  obtain ⟨h, hrun, hpre, -⟩ := queue_fifo (n := 2) (by decide) (by decide) hs 0 [.queueMessage .kernel 1 (Message.newScalar 7 1 2 3 4) none, .takeNextMessage]
  exact ⟨h, hrun, hpre⟩

end History

end Kernel
