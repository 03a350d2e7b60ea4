import KeyOS.Kernel.Server

/-!
# The server queue delivers in order

Slots fill round-robin, replies free them out of order and the death of a process
rewrites them, so the order of the queue is not the order of the slots. It is carried
by the generation in each slot: the undelivered messages, oldest first, hold the
generations from `headGeneration` up to `tailGeneration`, and there are too few slots
for two of them to share one.
-/

namespace Kernel

open Exec

/-! ## 1. What a slot still has to deliver -/

namespace QueuedMessage

/-- The generation, the sender and the message of a slot that the server has not
received yet. -/
def undelivered : QueuedMessage → Option (UInt8 × PID × Message)
  | .blockingScalarMessage pid _ idx id args =>
    some (idx, pid, .blockingScalar (scalarBody id args))
  | .scalarMessage pid idx id args => some (idx, pid, .scalar (scalarBody id args))
  | .memoryMessageSend pid idx id buf offset valid =>
    some (idx, pid, .move (memoryBody id buf offset valid))
  | .memoryMessageBlockingSend pid _ idx id _ buf offset valid =>
    some (idx, pid, .blockingMove (memoryBody id buf offset valid))
  | .memoryMessageROLend pid _ idx id _ buf offset valid =>
    some (idx, pid, .borrow (memoryBody id buf offset valid))
  | .memoryMessageRWLend pid _ idx id _ buf offset valid =>
    some (idx, pid, .mutableBorrow (memoryBody id buf offset valid))
  | .memoryMessageROLendTerminated idx id buf offset valid =>
    some (idx, .terminated, .borrow (memoryBody id buf offset valid))
  | .memoryMessageRWLendTerminated idx id buf offset valid =>
    some (idx, .terminated, .mutableBorrow (memoryBody id buf offset valid))
  | .memoryMessageBlockingSendTerminated idx id buf offset valid =>
    some (idx, .terminated, .blockingMove (memoryBody id buf offset valid))
  | .blockingScalarTerminated idx id args =>
    some (idx, .terminated, .blockingScalar (scalarBody id args))
  | .empty | .waitingReturnMemory .. | .waitingReturnMoved .. | .waitingReturnMovedTerminated
  | .waitingForget .. | .waitingReturnScalar .. | .waitingReturnScalarTerminated => none

theorem deliver_eq_some {q : QueuedMessage} {gen : UInt8} {p : PID} {m : Message}
    (h : q.undelivered = some (gen, p, m)) (sidx i : Nat) :
    ∃ response, q.deliver sidx i gen = some (⟨SenderID.toSender ⟨sidx, i, some p⟩, m⟩, response) ∧
      response.undelivered = none := by
  cases q <;> simp only [undelivered, Option.some.injEq, Prod.mk.injEq, reduceCtorEq] at h <;>
    (obtain ⟨rfl, rfl, rfl⟩ := h
     exact ⟨_, if_pos rfl, rfl⟩)

theorem deliver_eq_none {q : QueuedMessage} {gen : UInt8}
    (h : ∀ p m, q.undelivered ≠ some (gen, p, m)) (sidx i : Nat) :
    q.deliver sidx i gen = none := by
  cases q <;>
    first
    | rfl
    | exact if_neg fun hg => h _ _ (by rw [← hg]; rfl)

/-- A slot delivers exactly when its generation is the one asked for. -/
theorem undelivered_of_deliver {q : QueuedMessage} {gen : UInt8} {sidx i : Nat}
    {d : MessageEnvelope × QueuedMessage} (h : q.deliver sidx i gen = some d) :
    ∃ p m, q.undelivered = some (gen, p, m) := by
  by_contra hno
  have hno : ∀ p m, q.undelivered ≠ some (gen, p, m) := fun p m hp => hno ⟨p, m, hp⟩
  rw [deliver_eq_none hno] at h
  cases h

theorem discardFor_eq_empty {pid : PID} {q : QueuedMessage} :
    q.discardFor pid = .empty ↔ q = .empty := by
  cases q <;> simp only [discardFor, reduceCtorEq, iff_false] <;>
    (split <;> simp only [reduceCtorEq, not_false_eq_true])

/-- A discard keeps the generation and the message of a slot. The sender stays too, or
was the discarded process and is gone. -/
theorem undelivered_discardFor {pid : PID} {q : QueuedMessage} {gen : UInt8} {p : PID}
    {m : Message} (h : q.undelivered = some (gen, p, m)) :
    ∃ p', (q.discardFor pid).undelivered = some (gen, p', m) ∧
      (p' = p ∨ p' = .terminated ∧ p = pid) := by
  cases q <;> simp only [undelivered, Option.some.injEq, Prod.mk.injEq, reduceCtorEq] at h <;>
    (obtain ⟨rfl, rfl, rfl⟩ := h
     simp only [discardFor]) <;>
    first
    | exact ⟨_, rfl, .inl rfl⟩
    | (split
       · next hp => exact ⟨_, rfl, .inr ⟨rfl, hp⟩⟩
       · exact ⟨_, rfl, .inl rfl⟩)

theorem undelivered_discardFor_none {pid : PID} {q : QueuedMessage}
    (h : q.undelivered = none) : (q.discardFor pid).undelivered = none := by
  cases q <;> simp only [undelivered, reduceCtorEq] at h <;> simp only [discardFor] <;>
    first
    | rfl
    | (split <;> rfl)

end QueuedMessage

/-! ## 2. The operations, one lemma each -/

namespace Server

variable {s s' : Server} {pid : PID} {tid : TID} {message : Message}
  {addr : Option MemoryAddress}

theorem queuedMessage_undelivered {idx : UInt8} {q : QueuedMessage}
    (h : queuedMessage pid tid idx message addr = .ok q) :
    q.undelivered = some (idx, pid, message) := by
  have memory : ∀ m : MemoryMessage, QueuedMessage.memoryBody m.id ⟨m.buf.addr, m.buf.size⟩
      ((m.offset.map NonZeroUsize.get).getD 0) ((m.valid.map NonZeroUsize.get).getD 0) = m := by
    intro m
    simp only [QueuedMessage.memoryBody, NonZeroUsize.new_getD, ServerBuffer.range]
  cases message <;> simp only [queuedMessage, ServerBuffer.new_eq] at h
  case scalar | blockingScalar => cases h; rfl
  case move m => cases h; simp only [QueuedMessage.undelivered, memory]
  all_goals
    cases addr with
    | none => cases h
    | some a => cases h; simp only [QueuedMessage.undelivered, memory]

theorem queuedResponse_undelivered {q : QueuedMessage}
    (h : queuedResponse pid tid message addr = .ok q) :
    q.undelivered = none ∧ q ≠ .empty := by
  cases message <;>
    simp only [queuedResponse, ServerBuffer.new_eq, NonZeroUsize.new_get] at h
  case scalar | blockingScalar => cases h; exact ⟨rfl, nofun⟩
  case move m => cases h; exact ⟨rfl, nofun⟩
  all_goals
    cases addr with
    | none => cases h
    | some a => cases h; exact ⟨rfl, nofun⟩

/-- `find_empty_slot` finds an empty slot if there is one. -/
theorem findEmptySlot_run (s : Server) :
    (∃ i, s.queue[i]? = some .empty ∧
      findEmptySlot s = (.ok i, { s with queueHead := s.nextIndex i })) ∨
    ((∀ i ∈ s.probeOrder, s.queue[i]? ≠ some .empty) ∧
      findEmptySlot s = (.err .serverQueueFull, s)) := by
  unfold findEmptySlot
  rw [Prog.bind_ok _ (Prog.get_run s)]
  cases hf : s.probeOrder.find? fun i => decide (s.queue[i]? = some .empty) with
  | none =>
    refine .inr ⟨fun i hi hq => ?_, rfl⟩
    have := List.find?_eq_none.1 hf i hi
    simp only [hq, decide_true, not_true] at this
  | some i =>
    have hi := List.find?_some hf
    exact .inl ⟨i, of_decide_eq_true hi, rfl⟩

/-- The next slot is a slot. -/
theorem nextIndex_lt (h : 0 < s.queue.length) (i : Nat) : s.nextIndex i < s.queue.length := by
  unfold nextIndex
  split <;> omega

/-- What `queue_message` does: refuse a full queue, refuse a lend without its address,
or fill an empty slot with the next generation. -/
theorem queueMessage_cases (s : Server) (pid : PID) (tid : TID) (message : Message)
    (addr : Option MemoryAddress) :
    ((∀ i ∈ s.probeOrder, s.queue[i]? ≠ some .empty) ∧
      queueMessage pid tid message addr s = (.err .serverQueueFull, s)) ∨
    ∃ i, s.queue[i]? = some .empty ∧
      ((∃ e, queueMessage pid tid message addr s =
          (.err e, { s with queueHead := s.nextIndex i })) ∨
       ∃ q, queuedMessage pid tid s.tailGeneration message addr = .ok q ∧
        (0 < s.emptyCount → s.tailGeneration + 1 ≠ s.headGeneration →
          queueMessage pid tid message addr s =
            (.ok i, { s with
              queueHead := s.nextIndex i
              queue := s.queue.set i q
              emptyCount := s.emptyCount - 1
              tailGeneration := s.tailGeneration + 1 }))) := by
  unfold queueMessage
  rcases findEmptySlot_run s with ⟨i, hi, hrun⟩ | ⟨hfull, hrun⟩
  · refine .inr ⟨i, hi, ?_⟩
    rw [Prog.bind_ok _ hrun, Prog.bind_ok _ (Prog.gets_run _ _)]
    cases hq : queuedMessage pid tid s.tailGeneration message addr with
    | error e =>
      refine .inl ⟨e, ?_⟩
      exact Prog.bind_err _ (Prog.ofExcept_error_run e _)
    | ok q =>
      refine .inr ⟨q, rfl, fun hpos hgen => ?_⟩
      rw [Prog.bind_ok _ (Prog.ofExcept_ok_run q _), Prog.bind_ok _ (Prog.modify_run _ _),
        Prog.bind_ok _ (Prog.get_run _), Prog.bind_ok _ (Prog.require_run _ (decide_eq_true hpos) _),
        Prog.bind_ok _ (Prog.modify_run _ _), Prog.bind_ok _ (Prog.get_run _),
        Prog.bind_ok _ (Prog.require_run _ (decide_eq_true hgen) _), Prog.pure_run]
  · exact .inl ⟨hfull, Prog.bind_err _ hrun⟩

/-- What `queue_response` does: the same with a slot that waits for a reply. -/
theorem queueResponse_cases (s : Server) (pid : PID) (tid : TID) (message : Message)
    (addr : Option MemoryAddress) :
    ((∀ i ∈ s.probeOrder, s.queue[i]? ≠ some .empty) ∧
      queueResponse pid tid message addr s = (.err .serverQueueFull, s)) ∨
    ∃ i, s.queue[i]? = some .empty ∧
      ((∃ e, queueResponse pid tid message addr s =
          (.err e, { s with queueHead := s.nextIndex i })) ∨
       ∃ q, queuedResponse pid tid message addr = .ok q ∧
        (0 < s.emptyCount →
          queueResponse pid tid message addr s =
            (.ok i, { s with
              queueHead := s.nextIndex i
              queue := s.queue.set i q
              emptyCount := s.emptyCount - 1 }))) := by
  unfold queueResponse
  rcases findEmptySlot_run s with ⟨i, hi, hrun⟩ | ⟨hfull, hrun⟩
  · refine .inr ⟨i, hi, ?_⟩
    rw [Prog.bind_ok _ hrun]
    cases hq : queuedResponse pid tid message addr with
    | error e =>
      refine .inl ⟨e, ?_⟩
      exact Prog.bind_err _ (Prog.ofExcept_error_run e _)
    | ok q =>
      refine .inr ⟨q, rfl, fun hpos => ?_⟩
      rw [Prog.bind_ok _ (Prog.ofExcept_ok_run q _), Prog.bind_ok _ (Prog.modify_run _ _),
        Prog.bind_ok _ (Prog.get_run _), Prog.bind_ok _ (Prog.require_run _ (decide_eq_true hpos) _),
        Prog.bind_ok _ (Prog.modify_run _ _), Prog.pure_run]
  · exact .inl ⟨hfull, Prog.bind_err _ hrun⟩

theorem waitingMessage_waits {q : QueuedMessage} {buf : Option MemoryRange} {w : WaitingMessage}
    (h : waitingMessage q buf = .ok (some w)) : q.undelivered = none ∧ q ≠ .empty := by
  cases q <;> simp only [waitingMessage, Except.ok.injEq, reduceCtorEq] at h <;>
    exact ⟨rfl, nofun⟩

/-- What `take_waiting_message` does: refuse, find nothing to answer, or free a slot
that waits for a reply. -/
theorem takeWaitingMessage_cases (s : Server) (i : Nat) (buf : Option MemoryRange) :
    (∃ e, takeWaitingMessage i buf s = (.err e, s)) ∨
    (∃ q, s.queue[i]? = some q ∧ waitingMessage q buf = .ok none ∧
      takeWaitingMessage i buf s = (.ok .none, s)) ∨
    ∃ q w, s.queue[i]? = some q ∧ checkReturnedBuffer q buf = .ok () ∧
      waitingMessage q buf = .ok (some w) ∧
      takeWaitingMessage i buf s = (.ok w, { s with
        queue := s.queue.set i .empty
        emptyCount := s.emptyCount + 1
        queueTail := s.nextIndex i }) := by
  unfold takeWaitingMessage
  rw [Prog.bind_ok _ (Prog.get_run s)]
  cases hq : s.queue[i]? with
  | none => exact .inl ⟨_, Prog.bind_err _ (Prog.okOr_none_run _ _)⟩
  | some q =>
    rw [Prog.bind_ok _ (Prog.okOr_some_run _ q _)]
    cases hc : checkReturnedBuffer q buf with
    | error e => exact .inl ⟨e, Prog.bind_err _ (Prog.ofExcept_error_run e _)⟩
    | ok u =>
      rw [Prog.bind_ok _ (Prog.ofExcept_ok_run u _)]
      cases hw : waitingMessage q buf with
      | error e => exact .inl ⟨e, Prog.bind_err _ (Prog.ofExcept_error_run e _)⟩
      | ok w =>
        rw [Prog.bind_ok _ (Prog.ofExcept_ok_run w _)]
        cases w with
        | none => exact .inr (.inl ⟨q, rfl, hw, rfl⟩)
        | some w => exact .inr (.inr ⟨q, w, rfl, hc, hw, rfl⟩)

/-! ### The loop of `take_next_message` -/

/-- The slot at `i`, as the loop sees it. -/
def slotAt (s : Server) (i : Nat) : QueuedMessage := s.queue[i]?.getD .empty

/-- The `k`-th slot that the loop looks at. -/
def visited (s : Server) (k : Nat) : Nat :=
  if s.queueTail + k < s.queue.length then s.queueTail + k else s.queueTail + k - s.queue.length

theorem nextIndex_visited (ht : s.queueTail < s.queue.length) {k : Nat}
    (hk : k < s.queue.length) :
    (k + 1 < s.queue.length ∧ s.nextIndex (s.visited k) = s.visited (k + 1)) ∨
      (k + 1 = s.queue.length ∧ s.nextIndex (s.visited k) = s.queueTail) := by
  unfold nextIndex visited
  split <;> split <;> (try split) <;> omega

theorem visited_ne_tail {k : Nat} (hpos : 0 < k)
    (hk : k < s.queue.length) : s.visited k ≠ s.queueTail := by
  unfold visited
  split <;> omega

theorem exists_visited (ht : s.queueTail < s.queue.length) {i : Nat} (hi : i < s.queue.length) :
    ∃ k, k < s.queue.length ∧ s.visited k = i := by
  unfold visited
  rcases Nat.lt_or_ge i s.queueTail with h | h
  · exact ⟨i + s.queue.length - s.queueTail, by omega, by rw [if_neg (by omega)]; omega⟩
  · exact ⟨i - s.queueTail, by omega, by rw [if_pos (by omega)]; omega⟩

/-- What receiving the slot `i` does to the queue. -/
def received (s : Server) (i : Nat) (response : QueuedMessage) : Server :=
  { s with
    queueTail := s.nextIndex i
    emptyCount := if response = .empty then s.emptyCount + 1 else s.emptyCount
    queue := s.queue.set i response
    headGeneration := s.headGeneration + 1 }

/-- With as much fuel as there are slots left to visit, the loop returns the first slot
that delivers, or has seen that none does. -/
theorem takeNextLoop_cases (sidx : Nat) (ht : s.queueTail < s.queue.length) (fuel k : Nat)
    (hk : k < s.queue.length) (hfuel : k + fuel = s.queue.length)
    (hseen : ∀ j < k, (s.slotAt (s.visited j)).deliver sidx (s.visited j) s.headGeneration = none) :
    (∃ i result response,
      (s.slotAt i).deliver sidx i s.headGeneration = some (result, response) ∧
      takeNextLoop sidx fuel (s.visited k) s = (some result, s.received i response)) ∨
    ((∀ j < s.queue.length,
        (s.slotAt (s.visited j)).deliver sidx (s.visited j) s.headGeneration = none) ∧
      takeNextLoop sidx fuel (s.visited k) s = (none, s)) := by
  induction fuel generalizing k with
  | zero => exact absurd hfuel (by omega)
  | succ fuel ih =>
    rw [takeNextLoop]
    cases hd : (s.slotAt (s.visited k)).deliver sidx (s.visited k) s.headGeneration with
    | some d =>
      obtain ⟨result, response⟩ := d
      rw [slotAt] at hd
      exact .inl ⟨_, result, response, hd, by rw [hd]; rfl⟩
    | none =>
      have hseen' : ∀ j < k + 1,
          (s.slotAt (s.visited j)).deliver sidx (s.visited j) s.headGeneration = none := by
        intro j hj
        rcases Nat.lt_or_eq_of_le (Nat.le_of_lt_succ hj) with h | h
        · exact hseen j h
        · rw [h]
          exact hd
      rw [slotAt] at hd
      rw [hd]
      show _ ∨ _ ∧ (if _ then _ else _) = _
      rcases nextIndex_visited ht hk with ⟨hlt, hnext⟩ | ⟨hend, hnext⟩
      · have hmore := visited_ne_tail (Nat.succ_pos k) hlt
        rw [hnext, if_neg hmore]
        exact ih (k + 1) hlt (by omega) hseen'
      · -- the walk is back at the tail, and every slot has been visited
        rw [if_pos hnext]
        exact .inr ⟨fun j hj => hseen' j (by omega), rfl⟩

/-- What `take_next_message` does: it receives a slot of the oldest generation, or there
is none. -/
theorem takeNextMessage_cases (s : Server) (sidx : Nat) (ht : s.queueTail < s.queue.length) :
    (∃ (i : Nat) (q : QueuedMessage) (p : PID) (m : Message) (response : QueuedMessage),
      s.queue[i]? = some q ∧ q.undelivered = some (s.headGeneration, p, m) ∧
      response.undelivered = none ∧
      takeNextMessage sidx s =
        (.ok (some ⟨SenderID.toSender ⟨sidx, i, some p⟩, m⟩), s.received i response)) ∨
    ((s.tailGeneration = s.headGeneration ∨ ∀ (i : Nat) (q : QueuedMessage) (p : PID) (m : Message),
        s.queue[i]? = some q → q.undelivered ≠ some (s.headGeneration, p, m)) ∧
      takeNextMessage sidx s = (.ok none, s)) := by
  unfold takeNextMessage
  by_cases hg : s.tailGeneration = s.headGeneration
  · exact .inr ⟨.inl hg, if_pos hg⟩
  · have hstart : s.visited 0 = s.queueTail := if_pos ht
    rw [if_neg hg, ← hstart]
    rcases takeNextLoop_cases sidx ht s.queue.length 0 (by omega) (Nat.zero_add _)
        (fun j hj => absurd hj (Nat.not_lt_zero j)) with
      ⟨i, result, response, hd, hrun⟩ | ⟨hall, hrun⟩
    · obtain ⟨p, m, hp⟩ := QueuedMessage.undelivered_of_deliver hd
      obtain ⟨response', hd', hresp⟩ := QueuedMessage.deliver_eq_some hp sidx i
      rw [hd'] at hd
      cases hd
      unfold slotAt at hp
      cases hq : s.queue[i]? with
      | none =>
        rw [hq] at hp
        cases hp
      | some q =>
        rw [hq] at hp
        exact .inl ⟨i, q, p, m, response, hq, hp, hresp, by rw [hrun]⟩
    · refine .inr ⟨.inr fun i q p m hq hp => ?_, by rw [hrun]⟩
      obtain ⟨hi, -⟩ := List.getElem?_eq_some_iff.1 hq
      obtain ⟨k, hk, rfl⟩ := exists_visited ht hi
      obtain ⟨response, hd, -⟩ := QueuedMessage.deliver_eq_some hp sidx (s.visited k)
      have hnone := hall k hk
      rw [slotAt, hq, Option.getD_some, hd] at hnone
      cases hnone

end Server

/-! ## 3. The order of the undelivered messages -/

/-- A sender that a message may be delivered with: its own, or the terminated marker
when the messages of that process have been discarded. -/
def SentAs (discarded : List PID) (sender p : PID) : Prop :=
  p = sender ∨ p = .terminated ∧ sender ∈ discarded

/-- The slot `i` holds the message `a` with generation `gen`. -/
def Holds (queue : List QueuedMessage) (discarded : List PID) (i : Nat) (gen : UInt8)
    (a : PID × Message) : Prop :=
  ∃ q p, queue[i]? = some q ∧ q.undelivered = some (gen, p, a.2) ∧ SentAs discarded a.1 p

/-- The slots `order` hold the messages `pending`, with consecutive generations from
`gen` on. -/
inductive Carries (queue : List QueuedMessage) (discarded : List PID) :
    UInt8 → List Nat → List (PID × Message) → Prop where
  | nil (gen : UInt8) : Carries queue discarded gen [] []
  | cons {gen : UInt8} {i : Nat} {order : List Nat} {a : PID × Message}
      {pending : List (PID × Message)} (head : Holds queue discarded i gen a)
      (tail : Carries queue discarded (gen + 1) order pending) :
      Carries queue discarded gen (i :: order) (a :: pending)

namespace Carries

variable {queue queue' : List QueuedMessage} {discarded discarded' : List PID} {gen : UInt8}
  {order : List Nat} {pending : List (PID × Message)}

theorem length_eq (h : Carries queue discarded gen order pending) :
    order.length = pending.length := by
  induction h with
  | nil => rfl
  | cons _ _ ih => exact congrArg Nat.succ ih

theorem mono (h : Carries queue discarded gen order pending)
    (hold : ∀ i ∈ order, ∀ g a, Holds queue discarded i g a → Holds queue' discarded' i g a) :
    Carries queue' discarded' gen order pending := by
  induction h with
  | nil => exact .nil _
  | cons head _ ih =>
    exact .cons (hold _ List.mem_cons_self _ _ head)
      (ih fun i hi => hold i (List.mem_cons_of_mem _ hi))

/-- The next message goes behind all the others. -/
theorem snoc (h : Carries queue discarded gen order pending) {i : Nat} {a : PID × Message}
    (hi : Holds queue discarded i (gen + UInt8.ofNat order.length) a) :
    Carries queue discarded gen (order ++ [i]) (pending ++ [a]) := by
  induction h with
  | nil gen =>
    rw [List.length_nil, show UInt8.ofNat 0 = 0 from rfl, UInt8.add_zero] at hi
    exact .cons hi (.nil _)
  | @cons gen j order b pending head tail ih =>
    refine .cons head (ih ?_)
    rwa [List.length_cons, Nat.add_comm order.length 1, UInt8.ofNat_add, ← UInt8.add_assoc] at hi

/-- Every carried slot holds the generation of its place. -/
theorem holds_of_mem (h : Carries queue discarded gen order pending) {i : Nat}
    (hi : i ∈ order) : ∃ k a, k < order.length ∧
      Holds queue discarded i (gen + UInt8.ofNat k) a ∧ order[k]? = some i := by
  induction h with
  | nil => cases hi
  | @cons gen j order b pending head tail ih =>
    rcases List.mem_cons.1 hi with rfl | hi
    · refine ⟨0, b, Nat.succ_pos _, ?_, rfl⟩
      rwa [show UInt8.ofNat 0 = 0 from rfl, UInt8.add_zero]
    · obtain ⟨k, a, hk, hold, hget⟩ := ih hi
      refine ⟨k + 1, a, Nat.succ_lt_succ hk, ?_, hget⟩
      rwa [Nat.add_comm k 1, UInt8.ofNat_add, ← UInt8.add_assoc]

end Carries

/-- The undelivered messages of `s`, oldest first, and the slots they are in. -/
structure Server.InOrder (s : Server) (discarded : List PID) (order : List Nat)
    (pending : List (PID × Message)) : Prop where
  nodup : order.Nodup
  complete : ∀ i q, s.queue[i]? = some q → q.undelivered ≠ none → i ∈ order
  generations : s.tailGeneration = s.headGeneration + UInt8.ofNat order.length
  carries : Carries s.queue discarded s.headGeneration order pending

/-- The indices are slots and `emptyCount` counts the empty ones. -/
structure Server.Counted (n : Nat) (s : Server) : Prop where
  slots : s.queue.length = n
  head : s.queueHead < n
  tail : s.queueTail < n
  count : s.emptyCount = s.queue.count .empty

theorem add_ofNat_eq_self {gen : UInt8} {k : Nat} (hk : k < 256)
    (h : gen + UInt8.ofNat k = gen) : k = 0 := by
  have hval := congrArg UInt8.toNat h
  rw [UInt8.toNat_add, UInt8.toNat_ofNat'] at hval
  have := gen.toNat_lt
  omega

namespace Server

variable {s : Server} {n : Nat} {discarded : List PID} {order : List Nat}
  {pending : List (PID × Message)}

namespace InOrder

theorem lt_length (h : s.InOrder discarded order pending) {i : Nat} (hi : i ∈ order) :
    i < s.queue.length := by
  obtain ⟨k, a, -, ⟨q, p, hq, -⟩, -⟩ := h.carries.holds_of_mem hi
  exact (List.getElem?_eq_some_iff.1 hq).1

theorem length_le (h : s.InOrder discarded order pending) : order.length ≤ s.queue.length := by
  have hsub : order ⊆ List.range s.queue.length := fun i hi => List.mem_range.2 (h.lt_length hi)
  have := (List.subperm_of_subset h.nodup hsub).length_le
  rwa [List.length_range] at this

/-- A slot that has nothing to deliver is not in the order. -/
theorem notMem (h : s.InOrder discarded order pending) {i : Nat} {q : QueuedMessage}
    (hq : s.queue[i]? = some q) (hu : q.undelivered = none) : i ∉ order := by
  intro hi
  obtain ⟨k, a, -, ⟨q', p, hq', hu', -⟩, -⟩ := h.carries.holds_of_mem hi
  rw [hq] at hq'
  cases hq'
  rw [hu] at hu'
  cases hu'

/-- While a slot has nothing to deliver there are fewer messages than slots. -/
theorem length_lt (h : s.InOrder discarded order pending) {i : Nat} {q : QueuedMessage}
    (hq : s.queue[i]? = some q) (hu : q.undelivered = none) : order.length < s.queue.length := by
  have hnodup : (i :: order).Nodup := List.nodup_cons.2 ⟨h.notMem hq hu, h.nodup⟩
  have hsub : i :: order ⊆ List.range s.queue.length := by
    intro j hj
    rcases List.mem_cons.1 hj with rfl | hj
    · exact List.mem_range.2 (List.getElem?_eq_some_iff.1 hq).1
    · exact List.mem_range.2 (h.lt_length hj)
  have := (List.subperm_of_subset hnodup hsub).length_le
  rwa [List.length_range, List.length_cons] at this

/-- Editing slots outside the order changes nothing. -/
theorem set (h : s.InOrder discarded order pending) {i : Nat} {q r : QueuedMessage}
    (hq : s.queue[i]? = some q) (hu : q.undelivered = none) (hr : r.undelivered = none)
    {s' : Server} (hs : s'.queue = s.queue.set i r) (hhead : s'.headGeneration = s.headGeneration)
    (htail : s'.tailGeneration = s.tailGeneration) : s'.InOrder discarded order pending where
  nodup := h.nodup
  complete j q' hq' hu' := by
    rw [hs, List.getElem?_set] at hq'
    split at hq'
    · split at hq'
      · cases hq'
        exact absurd hr hu'
      · cases hq'
    · exact h.complete j q' hq' hu'
  generations := by rw [hhead, htail, h.generations]
  carries := by
    rw [hhead, hs]
    refine h.carries.mono fun j hj g a ⟨q', p, hq', hold⟩ => ⟨q', p, ?_, hold⟩
    rw [List.getElem?_set_ne (fun hij : i = j => h.notMem hq hu (hij ▸ hj)), hq']

/-- The slot with the head generation is the first of the order. -/
theorem head_eq (h : s.InOrder discarded order pending) (hn : s.queue.length ≤ 128) {i : Nat}
    {q : QueuedMessage} {p : PID} {m : Message} (hq : s.queue[i]? = some q)
    (hu : q.undelivered = some (s.headGeneration, p, m)) :
    ∃ rest a pend, order = i :: rest ∧ pending = a :: pend ∧ a.2 = m ∧
      SentAs discarded a.1 p ∧ Carries s.queue discarded (s.headGeneration + 1) rest pend := by
  have hi : i ∈ order := h.complete i q hq (by rw [hu]; nofun)
  obtain ⟨k, a, hk, ⟨q', p', hq', hu', -⟩, hget⟩ := h.carries.holds_of_mem hi
  rw [hq] at hq'
  cases hq'
  rw [hu] at hu'
  simp only [Option.some.injEq, Prod.mk.injEq] at hu'
  have hlen := h.length_le
  have hk0 : k = 0 := add_ofNat_eq_self (by omega) hu'.1.symm
  subst hk0
  have hcar := h.carries
  cases hcar with
  | nil => cases hget
  | @cons _ j rest b pend head tail =>
    cases hget
    obtain ⟨r, p₁, hr, hu₁, hsent⟩ := head
    rw [hq] at hr
    cases hr
    rw [hu] at hu₁
    simp only [Option.some.injEq, Prod.mk.injEq] at hu₁
    exact ⟨rest, b, pend, rfl, rfl, hu₁.2.2.symm, hu₁.2.1 ▸ hsent, tail⟩

/-- When no slot has the head generation, everything has been delivered. -/
theorem eq_nil (h : s.InOrder discarded order pending) (hn : s.queue.length ≤ 128)
    (hnone : s.tailGeneration = s.headGeneration ∨
      ∀ (i : Nat) (q : QueuedMessage) (p : PID) (m : Message), s.queue[i]? = some q →
        q.undelivered ≠ some (s.headGeneration, p, m)) : pending = [] := by
  rcases hnone with heq | hnone
  · have hlen := h.length_le
    have hzero : order.length = 0 :=
      add_ofNat_eq_self (by omega) (h.generations.symm.trans heq)
    exact List.length_eq_zero_iff.1 (h.carries.length_eq ▸ hzero)
  · have hcar := h.carries
    cases hcar with
    | nil => rfl
    | cons head tail =>
      obtain ⟨q, p, hq, hu, -⟩ := head
      exact absurd hu (hnone _ q p _ hq)

end InOrder

/-! ### The count of empty slots -/

theorem count_set_empty {queue : List QueuedMessage} {i : Nat} {q : QueuedMessage}
    (hq : queue[i]? = some q) (r : QueuedMessage) :
    (queue.set i r).count .empty + (if q = .empty then 1 else 0) =
      queue.count .empty + if r = .empty then 1 else 0 := by
  obtain ⟨hi, rfl⟩ := List.getElem?_eq_some_iff.1 hq
  have hpos : queue[i] = .empty → 0 < queue.count .empty := fun he =>
    List.count_pos_iff.2 (he ▸ List.getElem_mem hi)
  rw [List.count_set hi]
  simp only [beq_iff_eq]
  by_cases he : queue[i] = .empty
  · have := hpos he
    simp only [he, if_true]
    omega
  · simp only [he, if_false]
    omega

theorem Counted.pos (h : s.Counted n) {i : Nat} (hi : s.queue[i]? = some .empty) :
    0 < s.emptyCount := by
  rw [h.count]
  exact List.count_pos_iff.2 (List.mem_of_getElem? hi)

theorem Counted.next (h : s.Counted n) (i : Nat) : s.nextIndex i < n := by
  have := nextIndex_lt (h.slots ▸ Nat.lt_of_le_of_lt (Nat.zero_le _) h.head) (s := s) i
  rwa [h.slots] at this

/-- Filling an empty slot. -/
theorem Counted.fill (h : s.Counted n) {i : Nat} {q : QueuedMessage}
    (hi : s.queue[i]? = some .empty) (hq : q ≠ .empty) (gen : UInt8) :
    Counted n { s with
      queueHead := s.nextIndex i
      queue := s.queue.set i q
      emptyCount := s.emptyCount - 1
      tailGeneration := gen } where
  slots := (List.length_set ..).trans h.slots
  head := h.next i
  tail := h.tail
  count := by
    have hcount := count_set_empty hi q
    rw [if_pos rfl, if_neg hq, ← h.count] at hcount
    show s.emptyCount - 1 = (s.queue.set i q).count .empty
    omega

/-- Freeing a slot that a reply names. -/
theorem Counted.free (h : s.Counted n) {i : Nat} {q : QueuedMessage}
    (hi : s.queue[i]? = some q) (hq : q ≠ .empty) :
    Counted n { s with
      queue := s.queue.set i .empty
      emptyCount := s.emptyCount + 1
      queueTail := s.nextIndex i } where
  slots := (List.length_set ..).trans h.slots
  head := h.head
  tail := h.next i
  count := by
    have hcount := count_set_empty hi .empty
    rw [if_pos rfl, if_neg hq, ← h.count] at hcount
    exact hcount.symm

theorem Counted.received (h : s.Counted n) {i : Nat} {q : QueuedMessage}
    (hi : s.queue[i]? = some q) (hq : q ≠ .empty) (response : QueuedMessage) :
    (s.received i response).Counted n where
  slots := (List.length_set ..).trans h.slots
  head := h.head
  tail := h.next i
  count := by
    have hcount := count_set_empty hi response
    rw [if_neg hq, ← h.count, Nat.add_zero] at hcount
    show (if response = .empty then s.emptyCount + 1 else s.emptyCount) = _
    rw [Server.received, hcount]
    split <;> rfl

theorem Counted.discard (h : s.Counted n) (pid : PID) :
    (s.discardMessagesForPid pid).Counted n where
  slots := (List.length_map _).trans h.slots
  head := h.head
  tail := h.tail
  count := by
    have hcount : (s.queue.map (QueuedMessage.discardFor pid)).count .empty =
        s.queue.count .empty := by
      rw [List.count, List.countP_map]
      refine List.countP_congr fun q _ => ?_
      simp only [Function.comp_apply, beq_iff_eq]
      exact QueuedMessage.discardFor_eq_empty
    exact h.count.trans hcount.symm

theorem Counted.moveHead (h : s.Counted n) (i : Nat) :
    Counted n { s with queueHead := s.nextIndex i } where
  slots := h.slots
  head := h.next i
  tail := h.tail
  count := h.count

end Server

end Kernel
