import KeyOS.CtapHid.Server

/-!
# Transactions of the CTAPHID server

A message is what an initialization packet and the continuation packets of its channel
carry. The server takes sequence number 0 at any time and number 1 also as the first one, and a
`CANCEL` of another channel replaces or ends the active transaction. Where that does not
happen, messages are reassembled exactly and transactions are isolated.

Result: `transactions_isolated`.
-/

namespace CtapHid

open CtapHidServer

/-! ## 1. Events -/

structure Packet where
  bytes : List UInt8
  size : bytes.length = 64

/-- A packet, the times of its processing and the draws of the random number generator. -/
structure Event where
  packet : Packet
  clock : Clock
  draws : List UInt32

namespace Event

def parsed (e : Event) : Except CtapHidError (Header × List UInt8) :=
  Header.deserialize e.packet.bytes

/-- The packet is one of the channel. -/
def Of (e : Event) (cid : UInt32) : Prop := ∃ cmdSeq payload, e.parsed = .ok (⟨cid, cmdSeq⟩, payload)

end Event

/-- `Gathers cid cmd payloadLen es n data`: the last initialization packet of the channel in `es`
announces `payloadLen` bytes for `cmd`. The continuation packets of the channel since then have
the sequence numbers `0, …, n - 1`, in this order. The packets carry `data`. -/
inductive Gathers (cid : UInt32) (cmd : Command) (payloadLen : Nat) :
    List Event → Nat → List UInt8 → Prop where
  | first (before : List Event) {e : Event} {payload : List UInt8}
      (he : e.parsed = .ok (⟨cid, .cmd cmd payloadLen⟩, payload)) :
      Gathers cid cmd payloadLen (before ++ [e]) 0 payload
  | more {es : List Event} {e : Event} {n : Nat} {data payload : List UInt8} {seq : UInt8}
      (h : Gathers cid cmd payloadLen es n data)
      (he : e.parsed = .ok (⟨cid, .seq seq⟩, payload)) (hseq : seq.toNat = n) :
      Gathers cid cmd payloadLen (es ++ [e]) (n + 1) (data ++ payload)
  | other {es : List Event} {e : Event} {n : Nat} {data : List UInt8}
      (h : Gathers cid cmd payloadLen es n data) (he : ¬ e.Of cid) :
      Gathers cid cmd payloadLen (es ++ [e]) n data

/-- The buffer holds exactly the message that the packets of the channel carry. -/
def Reassembled (cid : UInt32) (ch : Channel) (es : List Event) : Prop :=
  ∃ n data, Gathers cid ch.cmd ch.payloadLen es n data ∧ ch.payloadLen ≤ data.length ∧
    ch.buf = data.take ch.payloadLen

/-- The payload of an initialization packet, and that of a continuation packet. -/
def initLen : Nat := 57

def contLen : Nat := 59

/-- The condition on a packet. An initialization packet is no `CANCEL` that comes while another
channel is active, and is not refused while its own channel is. A continuation packet of the
active channel has number 0 only as the first, and number 1 not as the first. -/
def Orderly (s : CtapHidServer) (e : Event) : Prop :=
  match e.parsed with
  | .ok (⟨cid, .cmd cmd _⟩, _) =>
    (cmd = .cancel → (s.expire e.clock).activeCid = none ∨ (s.expire e.clock).activeCid = some cid) ∧
      ((s.expire e.clock).activeCid = some cid → (s.expire e.clock).checkBusy cid cmd = none)
  | .ok (⟨cid, .seq seq⟩, _) =>
    ∀ ch, (s.expire e.clock).activeCid = some cid → (s.expire e.clock).channels cid = some ch →
      (seq = 0 → ch.buf.length = initLen) ∧ (seq = 1 → ch.buf.length ≠ initLen)
  | .error _ => True

/-- `Runs host C es s`: the packets `es` take a new server to `s`, each one is processed to its
end, and each one satisfies `C` in the state that it finds. -/
inductive Runs (host : Host) (C : CtapHidServer → Event → Prop) :
    List Event → CtapHidServer → Prop where
  | new : Runs host C [] CtapHidServer.new
  | packet {es : List Event} {e : Event} {s s' : CtapHidServer} {response : Option Message}
      (h : Runs host C es s) (hC : C s e)
      (hrun : s.process host e.packet.bytes e.clock e.draws = (.ok response, s')) :
      Runs host C (es ++ [e]) s'

/-! ## 2. Packets -/

section Packets

theorem toNat_lt_of_and {b : UInt8} (h : b &&& 0x80 = 0) : b.toNat < 128 := by
  have hall : ∀ n : Fin 256, UInt8.ofFin n &&& 0x80 = 0 → n.val < 128 := by decide +kernel
  exact hall b.toFin h

theorem beBytes_two (a b : UInt8) : beBytes [a, b] < 2 ^ 16 := by
  have ha := a.toNat_lt
  have hb := b.toNat_lt
  show 256 * (256 * 0 + a.toNat) + b.toNat < 2 ^ 16
  omega

/-- What a 64-byte packet holds behind its header. -/
theorem deserialize_size {bytes payload : List UInt8} {header : Header}
    (hsize : bytes.length = 64) (h : Header.deserialize bytes = .ok (header, payload)) :
    match header.cmdSeq with
    | .cmd _ payloadLen => payload.length = initLen ∧ payloadLen < 2 ^ 16
    | .seq seq => payload.length = contLen ∧ seq.toNat < 128 := by
  unfold Header.deserialize at h
  split at h
  · next b0 b1 b2 b3 b4 rest =>
    have hrest : rest.length = 59 := by
      simp only [List.length_cons] at hsize
      omega
    split_ifs at h with hseq
    · cases h
      exact ⟨hrest, toNat_lt_of_and hseq⟩
    · cases hcmd : Command.fromU8 (b4 &&& 0x7f) with
      | none =>
        rw [hcmd] at h
        cases h
      | some cmd =>
        rw [hcmd] at h
        match rest, hrest, h with
        | b5 :: b6 :: payload, hrest, h =>
          cases h
          simp only [List.length_cons] at hrest
          exact ⟨by show payload.length = 57; omega, beBytes_two b5 b6⟩
  · cases h

theorem Event.cmd_size {e : Event} {cid : UInt32} {cmd : Command} {payloadLen : Nat}
    {payload : List UInt8} (h : e.parsed = .ok (⟨cid, .cmd cmd payloadLen⟩, payload)) :
    payload.length = initLen ∧ payloadLen < 2 ^ 16 :=
  deserialize_size e.packet.size h

theorem Event.seq_size {e : Event} {cid : UInt32} {seq : UInt8} {payload : List UInt8}
    (h : e.parsed = .ok (⟨cid, .seq seq⟩, payload)) :
    payload.length = contLen ∧ seq.toNat < 128 :=
  deserialize_size e.packet.size h

theorem Event.of_ne {e : Event} {cid cid' : UInt32} {cmdSeq : CmdSeq} {payload : List UInt8}
    (h : e.parsed = .ok (⟨cid, cmdSeq⟩, payload)) (hne : cid' ≠ cid) : ¬ e.Of cid' := by
  rintro ⟨cmdSeq', payload', h'⟩
  rw [h] at h'
  cases h'
  exact hne rfl

theorem Event.of_error {e : Event} {cid : UInt32} {err : CtapHidError}
    (h : e.parsed = .error err) : ¬ e.Of cid := by
  rintro ⟨cmdSeq', payload', h'⟩
  rw [h] at h'
  cases h'

end Packets

/-! ## 3. The server after a packet -/

/-- The channel has a message that is not complete yet. -/
structure Pending (es : List Event) (s : CtapHidServer) (cid : UInt32) (ch : Channel) (n : Nat) :
    Prop where
  channel : s.channels cid = some ch
  gathers : Gathers cid ch.cmd ch.payloadLen es n ch.buf
  length : ch.buf.length = initLen + contLen * n
  incomplete : ch.buf.length < ch.payloadLen
  payloadLen : ch.payloadLen < 2 ^ 16
  prevSeq : ch.prevSeq.toNat = n - 1
  bound : n ≤ 128
  unlocked : ch.cmd ≠ .cancel → s.lockedCid = none ∨ s.lockedCid = some cid

/-- The message of the active channel is pending. -/
def Inv (es : List Event) (s : CtapHidServer) : Prop :=
  ∀ cid, s.activeCid = some cid → ∃ ch n, Pending es s cid ch n

/-- No other channel is active. -/
def Free (s : CtapHidServer) (cid : UInt32) : Prop := s.activeCid = none ∨ s.activeCid = some cid

/-- No other channel holds the lock. -/
def Unlocked (s : CtapHidServer) (cid : UInt32) : Prop :=
  s.lockedCid = none ∨ s.lockedCid = some cid

/-- What becomes of a packet: nothing changes, or no other channel is active. -/
inductive Outcome (es : List Event) (s : CtapHidServer) (e : Event) :
    Reception → CtapHidServer → Prop where
  | kept {r : Reception} (hr : r = .nothing ∨ ∃ msg, r = .reply msg)
      (h : ∀ cid, s.activeCid = some cid → ¬ e.Of cid) : Outcome es s e r s
  | closed {cid : UInt32} {msg : Message} {s' : CtapHidServer} (he : e.Of cid) (hfree : Free s cid)
      (h : s'.activeCid = none) : Outcome es s e (.reply msg) s'
  | drawing {cid : UInt32} {s' : CtapHidServer} (he : e.Of cid) (hfree : Free s cid) :
      Outcome es s e (.stuck .drawing) s'
  | pending {cid : UInt32} {ch : Channel} {n : Nat} {s' : CtapHidServer} (he : e.Of cid)
      (hfree : Free s cid) (hactive : s'.activeCid = some cid)
      (h : Pending (es ++ [e]) s' cid ch n) : Outcome es s e .nothing s'
  | complete {cid : UInt32} {ch : Channel} {s' : CtapHidServer} (he : e.Of cid)
      (hfree : Free s cid) (hch : s'.channels cid = some ch)
      (h : Reassembled cid ch (es ++ [e])) (hlock : ch.cmd ≠ .cancel → Unlocked s cid) :
      Outcome es s e (.complete cid) s'

section Steps

variable {es : List Event} {s : CtapHidServer} {e : Event} {cid : UInt32}

@[simp] theorem setChannel_same (ch : Channel) : (s.setChannel cid ch).channels cid = some ch :=
  if_pos rfl

theorem checkBusy_free {cmd : Command} (h : s.checkBusy cid cmd = none) (hcmd : cmd ≠ .cancel) :
    Unlocked s cid ∧ Free s cid := by
  unfold checkBusy at h
  rw [if_neg hcmd] at h
  split_ifs at h with hlocked hactive
  constructor
  · by_cases hnone : s.lockedCid = none
    · exact .inl hnone
    · exact .inr (by_contra fun hother => hlocked ⟨hnone, hother⟩)
  · by_cases hnone : s.activeCid = none
    · exact .inl hnone
    · exact .inr (by_contra fun hother => hactive ⟨hnone, hother⟩)

theorem take_min_length {α : Type} (l : List α) (n : Nat) : l.take (min l.length n) = l.take n := by
  rw [Nat.min_comm]
  exact List.take_eq_take_min.symm

theorem createChannel_lock {draws : List UInt32} {newCid : UInt32} {s' : CtapHidServer}
    (h : s.createChannel draws = some (newCid, s')) :
    s'.lockedCid = s.lockedCid ∧ s'.activeCid = s.activeCid := by
  unfold createChannel at h
  cases hfind : draws.find? fun cid => s.channels cid = none with
  | none =>
    rw [hfind] at h
    cases h
  | some c =>
    rw [hfind] at h
    cases h
    exact ⟨rfl, rfl⟩

/-- An initialization packet that is let in opens a message. -/
theorem opened {cmd : Command} {payloadLen : Nat} {payload : List UInt8} {s₁ : CtapHidServer}
    {newCid : Option UInt32} (he : e.parsed = .ok (⟨cid, .cmd cmd payloadLen⟩, payload))
    (hfree : Free s cid) (hlock : cmd ≠ .cancel → Unlocked s cid) (hactive : s₁.activeCid = some cid)
    (hlocked : s₁.lockedCid = s.lockedCid) :
    Outcome es s e (if payloadLen ≤ payload.length % 2 ^ 16 then .complete cid else .nothing)
      (s₁.setChannel cid ⟨cid, cmd, payloadLen, payload.take (min payload.length payloadLen), 0,
        newCid⟩) := by
  have hof : e.Of cid := ⟨_, _, he⟩
  obtain ⟨hsize, hlen⟩ := e.cmd_size he
  have hmod : payload.length % 2 ^ 16 = initLen := by rw [hsize]; rfl
  rw [take_min_length, hmod]
  split_ifs with hfits
  · exact .complete hof hfree (setChannel_same _)
      ⟨0, payload, .first es he, by rw [hsize]; exact hfits, rfl⟩ hlock
  · have hall : payload.take payloadLen = payload := List.take_of_length_le (by omega)
    rw [hall]
    refine .pending (n := 0) hof hfree hactive ⟨setChannel_same _, .first es he, hsize, ?_, hlen, rfl,
      by omega, fun hcmd => ?_⟩
    · show payload.length < payloadLen
      omega
    · show s₁.lockedCid = none ∨ s₁.lockedCid = some cid
      rw [hlocked]
      exact hlock hcmd

theorem receiveInit_outcome {cmd : Command} {payloadLen : Nat} {payload : List UInt8}
    (now : Instant) (draws : List UInt32)
    (he : e.parsed = .ok (⟨cid, .cmd cmd payloadLen⟩, payload))
    (hcancel : cmd = .cancel → Free s cid)
    (hopen : s.activeCid = some cid → s.checkBusy cid cmd = none) :
    Outcome es s e (s.receiveInit cid cmd payloadLen payload now draws).1
      (s.receiveInit cid cmd payloadLen payload now draws).2 := by
  have hof : e.Of cid := ⟨_, _, he⟩
  unfold receiveInit
  cases hbusy : s.checkBusy cid cmd with
  | some msg =>
    refine .kept (.inr ⟨msg, rfl⟩) fun c hc => ?_
    refine e.of_ne he fun hsame => ?_
    rw [hsame] at hc
    rw [hopen hc] at hbusy
    cases hbusy
  | none =>
    have hlock : cmd ≠ .cancel → Unlocked s cid := fun h => (checkBusy_free hbusy h).1
    have hfree : Free s cid := by
      by_cases h : cmd = .cancel
      · exact hcancel h
      · exact (checkBusy_free hbusy h).2
    dsimp only
    by_cases hinit : cid = broadcastCid ∧ cmd = .init
    · rw [if_pos hinit]
      cases hnew : (s.startTransaction cid now).createChannel draws with
      | none => exact .drawing hof hfree
      | some r =>
        obtain ⟨hlocked, hactive⟩ := createChannel_lock hnew
        dsimp only [Option.map_some]
        cases r.2.channels cid with
        | some _ => exact opened he hfree hlock hactive hlocked
        | none => exact .closed hof hfree rfl
    · rw [if_neg hinit]
      cases hch : (s.startTransaction cid now).channels cid with
      | some _ =>
        dsimp only
        rw [hch]
        exact opened he hfree hlock rfl rfl
      | none =>
        dsimp only
        rw [hch]
        exact .closed hof hfree rfl

theorem next_seq {es : List Event} {s : CtapHidServer} {ch : Channel} {n : Nat} {seq : UInt8}
    (h : Pending es s cid ch n) (hseq : seq = 0 ∨ seq = ch.prevSeq + 1)
    (hzero : seq = 0 → ch.buf.length = initLen) (hone : seq = 1 → ch.buf.length ≠ initLen) :
    seq.toNat = n := by
  have hlen := h.length
  have hprev := h.prevSeq
  have hbound := h.bound
  have hfirst : ch.buf.length = initLen ↔ n = 0 := by
    rw [hlen]
    unfold initLen contLen
    omega
  rcases hseq with rfl | rfl
  · exact (hfirst.mp (hzero rfl)).symm
  · have hnext : (ch.prevSeq + 1).toNat = n - 1 + 1 := by
      rw [UInt8.toNat_add, hprev]
      show (n - 1 + 1) % 256 = n - 1 + 1
      omega
    rcases Nat.eq_zero_or_pos n with hn | hn
    · have hprev0 : ch.prevSeq = 0 := UInt8.toNat_inj.mp (by rw [hprev, hn]; rfl)
      exact absurd (hfirst.mpr hn) (hone (by rw [hprev0]; rfl))
    · omega

/-- A continuation packet of the active channel adds what is missing. -/
theorem continued {ch : Channel} {n : Nat} {seq : UInt8} {payload : List UInt8}
    (h : Pending es s cid ch n) (hactive : s.activeCid = some cid)
    (he : e.parsed = .ok (⟨cid, .seq seq⟩, payload)) (hseq : seq.toNat = n) :
    Outcome es s e
      (if ch.payloadLen ≤
        (ch.buf ++ payload.take (min payload.length (ch.payloadLen - ch.buf.length))).length % 2 ^ 16
        then .complete cid else .nothing)
      (s.setChannel cid { ch with
        prevSeq := seq
        buf := ch.buf ++ payload.take (min payload.length (ch.payloadLen - ch.buf.length)) }) := by
  have hof : e.Of cid := ⟨_, _, he⟩
  obtain ⟨hsize, hbound⟩ := e.seq_size he
  have hincomplete := h.incomplete
  have hlen := h.payloadLen
  have hgathers := h.gathers.more he hseq
  have htake : ch.buf ++ payload.take (ch.payloadLen - ch.buf.length)
      = (ch.buf ++ payload).take ch.payloadLen := by
    rw [List.take_append, List.take_of_length_le hincomplete.le]
  rw [take_min_length, htake]
  have hmod : ((ch.buf ++ payload).take ch.payloadLen).length % 2 ^ 16
      = min ch.payloadLen (ch.buf ++ payload).length := by
    rw [List.length_take]
    omega
  rw [hmod]
  split_ifs with hfits
  · exact .complete hof (.inr hactive) (setChannel_same _)
      ⟨n + 1, ch.buf ++ payload, hgathers, le_trans hfits (min_le_right _ _), rfl⟩ h.unlocked
  · have hshort : (ch.buf ++ payload).length < ch.payloadLen := by omega
    have hall : (ch.buf ++ payload).take ch.payloadLen = ch.buf ++ payload :=
      List.take_of_length_le hshort.le
    rw [hall]
    refine .pending (n := n + 1) hof (.inr hactive) hactive ⟨setChannel_same _, hgathers, ?_, hshort,
      hlen, hseq, by omega, h.unlocked⟩
    show (ch.buf ++ payload).length = _
    rw [List.length_append, h.length, hsize]
    ring

theorem receiveSeq_outcome {seq : UInt8} {payload : List UInt8} (hinv : Inv es s)
    (he : e.parsed = .ok (⟨cid, .seq seq⟩, payload))
    (hseq : ∀ ch, s.activeCid = some cid → s.channels cid = some ch →
      (seq = 0 → ch.buf.length = initLen) ∧ (seq = 1 → ch.buf.length ≠ initLen)) :
    Outcome es s e (s.receiveSeq cid seq payload).1 (s.receiveSeq cid seq payload).2 := by
  have hof : e.Of cid := ⟨_, _, he⟩
  unfold receiveSeq
  by_cases hactive : s.activeCid = some cid
  · obtain ⟨ch, n, hpending⟩ := hinv cid hactive
    obtain ⟨hzero, hone⟩ := hseq ch hactive hpending.channel
    rw [if_neg (not_not_intro hactive), hpending.channel]
    dsimp only
    have hprev : ch.prevSeq ≠ 255 := by
      intro h255
      have hlast := hpending.prevSeq
      have hbound := hpending.bound
      rw [h255, show (255 : UInt8).toNat = 255 from rfl] at hlast
      omega
    rw [if_neg (fun h => hprev h.2)]
    by_cases hnext : seq = 0 ∨ seq = ch.prevSeq + 1
    · rw [if_pos hnext, if_neg (Nat.not_lt_of_lt hpending.incomplete)]
      exact continued hpending hactive he (next_seq hpending hnext hzero hone)
    · rw [if_neg hnext]
      exact .closed hof (.inr hactive) rfl
  · rw [if_pos hactive]
    refine .kept (.inl rfl) fun c hc => e.of_ne he ?_
    rintro rfl
    exact hactive hc

/-- Whatever has timed out, the rest is as it was. -/
theorem expire_cases (s : CtapHidServer) (clock : Clock) :
    (s.expire clock).channels = s.channels ∧
      ((s.expire clock).activeCid = none ∨ (s.expire clock).activeCid = s.activeCid) ∧
      ((s.expire clock).lockedCid = none ∨ (s.expire clock).lockedCid = s.lockedCid) := by
  have htimeout : (s.checkTransactionTimeout clock.timeoutCheck).channels = s.channels ∧
      ((s.checkTransactionTimeout clock.timeoutCheck).activeCid = none ∨
        (s.checkTransactionTimeout clock.timeoutCheck).activeCid = s.activeCid) ∧
      (s.checkTransactionTimeout clock.timeoutCheck).lockedCid = s.lockedCid := by
    unfold checkTransactionTimeout
    split
    · split
      · exact ⟨rfl, .inl rfl, rfl⟩
      · exact ⟨rfl, .inr rfl, rfl⟩
    · exact ⟨rfl, .inr rfl, rfl⟩
  obtain ⟨hchannels, hactive, hlocked⟩ := htimeout
  unfold expire checkLockExpiry
  split
  · split
    · exact ⟨hchannels, hactive, .inl rfl⟩
    · exact ⟨hchannels, hactive, .inr hlocked⟩
  · exact ⟨hchannels, hactive, .inr hlocked⟩

theorem Inv.expire (h : Inv es s) (clock : Clock) : Inv es (s.expire clock) := by
  obtain ⟨hchannels, hactive, hlocked⟩ := expire_cases s clock
  intro cid hcid
  rcases hactive with hnone | hsame
  · rw [hnone] at hcid
    cases hcid
  · obtain ⟨ch, n, hp⟩ := h cid (hsame ▸ hcid)
    refine ⟨ch, n, hchannels ▸ hp.channel, hp.gathers, hp.length, hp.incomplete, hp.payloadLen,
      hp.prevSeq, hp.bound, fun hcmd => ?_⟩
    rcases hlocked with hnone | hsame
    · exact .inl hnone
    · rw [hsame]
      exact hp.unlocked hcmd

/-- The step lemma. -/
theorem receive_outcome (hinv : Inv es s) (hC : Orderly s e) :
    Outcome es (s.expire e.clock) e (s.receive e.packet.bytes e.clock e.draws).1
      (s.receive e.packet.bytes e.clock e.draws).2 := by
  unfold receive
  unfold Orderly Event.parsed at hC
  dsimp only
  cases hparsed : Header.deserialize e.packet.bytes with
  | error err => exact .kept (.inr ⟨_, rfl⟩) fun cid _ => e.of_error hparsed
  | ok r =>
    obtain ⟨⟨cid, cmdSeq⟩, payload⟩ := r
    rw [hparsed] at hC
    cases cmdSeq with
    | cmd cmd payloadLen => exact receiveInit_outcome _ _ hparsed hC.1 hC.2
    | seq seq => exact receiveSeq_outcome (hinv.expire e.clock) hparsed hC

end Steps

/-! ## 4. Runs -/

section Runs

variable {es : List Event} {s : CtapHidServer} {e : Event} {cid : UInt32}

theorem Inv.idle (h : s.activeCid = none) : Inv es s := fun cid hcid => by
  rw [h] at hcid
  cases hcid

/-- What is pending stays so when a packet of another channel comes. -/
theorem Inv.other (hinv : Inv es s) (h : ∀ cid, s.activeCid = some cid → ¬ e.Of cid) :
    Inv (es ++ [e]) s := by
  intro cid hcid
  obtain ⟨ch, n, hp⟩ := hinv cid hcid
  exact ⟨ch, n, hp.channel, hp.gathers.other (h cid hcid), hp.length, hp.incomplete, hp.payloadLen,
    hp.prevSeq, hp.bound, hp.unlocked⟩

/-- A packet that is processed to its end keeps the invariant. -/
theorem process_inv (host : Host) (hinv : Inv es s) (hC : Orderly s e) {response : Option Message}
    {s' : CtapHidServer}
    (hrun : s.process host e.packet.bytes e.clock e.draws = (.ok response, s')) :
    Inv (es ++ [e]) s' := by
  have houtcome := receive_outcome hinv hC
  unfold process at hrun
  rcases hr : s.receive e.packet.bytes e.clock e.draws with ⟨r, s₁⟩
  rw [hr] at houtcome hrun
  cases houtcome with
  | kept hquiet hother =>
    rcases hquiet with rfl | ⟨msg, rfl⟩
    · cases hrun
      exact (hinv.expire e.clock).other hother
    · cases hrun
      exact (hinv.expire e.clock).other hother
  | closed _ _ hclosed =>
    cases hrun
    exact .idle hclosed
  | drawing _ _ => cases hrun
  | pending _ _ hactive hp =>
    cases hrun
    intro cid hcid
    obtain rfl := Option.some.inj (hactive.symm.trans hcid)
    exact ⟨_, _, hp⟩
  | complete _ _ _ _ _ =>
    cases hrun
    exact .idle rfl

theorem runs_inv {host : Host} (h : Runs host Orderly es s) : Inv es s := by
  induction h with
  | new => exact .idle rfl
  | packet _ hC hrun ih => exact process_inv host ih hC hrun

/-- Where a continuation packet edits a buffer, its sequence number is the next one. -/
theorem receive_seq {seq : UInt8} {payload : List UInt8} (hinv : Inv es s) (hC : Orderly s e)
    (he : e.parsed = .ok (⟨cid, .seq seq⟩, payload)) :
    (s.receive e.packet.bytes e.clock e.draws).2.channels = s.channels ∨
      (s.expire e.clock).activeCid = some cid ∧
        ∃ cmd payloadLen data, Gathers cid cmd payloadLen es seq.toNat data := by
  have hchannels := (expire_cases s e.clock).1
  unfold Orderly at hC
  rw [he] at hC
  have hreceive : s.receive e.packet.bytes e.clock e.draws
      = (s.expire e.clock).receiveSeq cid seq payload := by
    unfold receive
    rw [show Header.deserialize e.packet.bytes = _ from he]
  rw [hreceive]
  unfold receiveSeq
  by_cases hactive : (s.expire e.clock).activeCid = some cid
  · obtain ⟨ch, n, hp⟩ := hinv.expire e.clock cid hactive
    obtain ⟨hzero, hone⟩ := hC ch hactive hp.channel
    rw [if_neg (not_not_intro hactive), hp.channel]
    dsimp only
    by_cases hnext : seq = 0 ∨ seq = ch.prevSeq + 1
    · refine .inr ⟨hactive, ch.cmd, ch.payloadLen, ch.buf, ?_⟩
      rw [next_seq hp hnext hzero hone]
      exact hp.gathers
    · rw [if_neg hnext]
      split
      · exact .inl hchannels
      · exact .inl hchannels
  · rw [if_pos hactive]
    exact .inl hchannels

/-- A packet of another channel leaves the active transaction alone. -/
theorem receive_isolated (hinv : Inv es s) (hC : Orderly s e)
    (hactive : (s.expire e.clock).activeCid = some cid) (hother : ¬ e.Of cid) :
    (s.receive e.packet.bytes e.clock e.draws).2 = s.expire e.clock ∧
      ∀ c, (s.receive e.packet.bytes e.clock e.draws).1 ≠ .complete c := by
  have houtcome := receive_outcome hinv hC
  have hbusy : ∀ c, e.Of c → ¬ Free (s.expire e.clock) c := by
    rintro c hof (hnone | hsame)
    · rw [hnone] at hactive
      cases hactive
    · obtain rfl := Option.some.inj (hactive.symm.trans hsame)
      exact hother hof
  rcases hr : s.receive e.packet.bytes e.clock e.draws with ⟨r, s₁⟩
  rw [hr] at houtcome
  cases houtcome with
  | kept hquiet _ =>
    refine ⟨rfl, fun c hc => ?_⟩
    rcases hquiet with rfl | ⟨msg, rfl⟩
    · cases hc
    · cases hc
  | closed hof hfree _ => exact absurd hfree (hbusy _ hof)
  | drawing hof hfree => exact absurd hfree (hbusy _ hof)
  | pending hof hfree _ _ => exact absurd hfree (hbusy _ hof)
  | complete hof hfree _ _ _ => exact absurd hfree (hbusy _ hof)

end Runs

/-- **Transactions are isolated and reassembled exactly**, in a run of orderly packets, for the
packet that comes next. A command is processed on exactly the message that the packets of its
channel carry, and while no other channel is active or holds a lock, `CANCEL` apart. A packet of
another channel changes nothing while the active transaction has not timed out. A
continuation packet edits a buffer only if its number is the next one. No arithmetic
underflows. -/
theorem transactions_isolated (host : Host) {es : List Event} {s : CtapHidServer} {e : Event}
    (h : Runs host Orderly es s) (hC : Orderly s e) :
    (∀ cid s', s.receive e.packet.bytes e.clock e.draws = (.complete cid, s') →
      ∃ ch, s'.channels cid = some ch ∧ Reassembled cid ch (es ++ [e]) ∧
        (ch.cmd ≠ .cancel → Unlocked (s.expire e.clock) cid ∧ Free (s.expire e.clock) cid)) ∧
    (∀ cid, (s.expire e.clock).activeCid = some cid → ¬ e.Of cid →
      (s.process host e.packet.bytes e.clock e.draws).2 = s.expire e.clock) ∧
    (∀ cid seq payload, e.parsed = .ok (⟨cid, .seq seq⟩, payload) →
      (s.receive e.packet.bytes e.clock e.draws).2.channels = s.channels ∨
        (s.expire e.clock).activeCid = some cid ∧
          ∃ cmd payloadLen data, Gathers cid cmd payloadLen es seq.toNat data) ∧
    (s.process host e.packet.bytes e.clock e.draws).1 ≠ .error .arithmetic := by
  have hinv := runs_inv h
  refine ⟨fun cid s' hr => ?_, fun cid hactive hother => ?_,
    fun cid seq payload he => receive_seq hinv hC he, fun hstuck => ?_⟩
  · have houtcome := receive_outcome hinv hC
    rw [hr] at houtcome
    cases houtcome with
    | complete _ hfree hch hmessage hlock =>
      exact ⟨_, hch, hmessage, fun hcmd => ⟨hlock hcmd, hfree⟩⟩
    | kept hquiet _ =>
      rcases hquiet with hc | ⟨msg, hc⟩
      · cases hc
      · cases hc
  · obtain ⟨hsame, hnone⟩ := receive_isolated hinv hC hactive hother
    unfold process
    rcases hr : s.receive e.packet.bytes e.clock e.draws with ⟨r, s₁⟩
    rw [hr] at hsame hnone
    cases r with
    | reply msg => exact hsame
    | nothing => exact hsame
    | complete c => exact absurd rfl (hnone c)
    | stuck why => exact hsame
  · have houtcome := receive_outcome hinv hC
    unfold process at hstuck
    rcases hr : s.receive e.packet.bytes e.clock e.draws with ⟨r, s₁⟩
    rw [hr] at houtcome hstuck
    cases houtcome with
    | kept hquiet _ =>
      rcases hquiet with rfl | ⟨msg, rfl⟩
      · cases hstuck
      · cases hstuck
    | closed _ _ _ => cases hstuck
    | drawing _ _ => cases hstuck
    | pending _ _ _ _ => cases hstuck
    | complete _ _ _ _ _ => cases hstuck

/-! ## 5. Strays -/

section Strays

theorem Gathers.of_seq {cid : UInt32} {cmd : Command} {payloadLen n : Nat} {es : List Event}
    {e : Event} {data payload : List UInt8} {seq : UInt8}
    (h : Gathers cid cmd payloadLen (es ++ [e]) n data)
    (he : e.parsed = .ok (⟨cid, .seq seq⟩, payload)) :
    ∃ data', Gathers cid cmd payloadLen es seq.toNat data' := by
  generalize hl : es ++ [e] = l at h
  cases h with
  | first before hfirst =>
    obtain ⟨-, hlast⟩ := List.append_inj' hl rfl
    cases hlast
    rw [he] at hfirst
    cases hfirst
  | more h hmore hseq =>
    obtain ⟨rfl, hlast⟩ := List.append_inj' hl rfl
    cases hlast
    rw [he] at hmore
    cases hmore
    exact ⟨_, hseq ▸ h⟩
  | other h hother =>
    obtain ⟨-, hlast⟩ := List.append_inj' hl rfl
    cases hlast
    exact absurd ⟨_, _, he⟩ hother

theorem Gathers.of_cmd {cid : UInt32} {cmd cmd' : Command} {payloadLen payloadLen' n : Nat}
    (es : List Event) {e : Event} {data payload : List UInt8}
    (h : Gathers cid cmd payloadLen (es ++ [e]) n data)
    (he : e.parsed = .ok (⟨cid, .cmd cmd' payloadLen'⟩, payload)) : n = 0 := by
  generalize hl : es ++ [e] = l at h
  cases h with
  | first before hfirst => rfl
  | more h hmore hseq =>
    obtain ⟨-, hlast⟩ := List.append_inj' hl rfl
    cases hlast
    rw [he] at hmore
    cases hmore
  | other h hother =>
    obtain ⟨-, hlast⟩ := List.append_inj' hl rfl
    cases hlast
    exact absurd ⟨_, _, he⟩ hother

def sampleHost : Host := ⟨fun _ => [], fun _ _ => [], (1, 0, 0)⟩

/-- A packet that starts with `header`, at time 0, with one draw. -/
def sampleEvent (header : List UInt8) (draw : UInt32) (h : header.length ≤ 64) : Event where
  packet := ⟨header ++ List.replicate (64 - header.length) 7, by
    rw [List.length_append, List.length_replicate]
    omega⟩
  clock := ⟨0, 0, 0, 0⟩
  draws := [draw]

/-- `INIT` on the broadcast channel creates a channel. -/
def sampleInit (cid : UInt32) : Event := sampleEvent [255, 255, 255, 255, 0x86, 0, 8] cid (by decide)

/-- `PING` of 100 bytes on channel 1. -/
def samplePing : Event := sampleEvent [0, 0, 0, 1, 0x81, 0, 100] 0 (by decide)

def sampleCont (seq : UInt8) : Event := sampleEvent [0, 0, 0, 1, seq] 0 (Nat.le_add_left 5 59)

/-- `CANCEL` on channel 2. -/
def sampleCancel : Event := sampleEvent [0, 0, 0, 2, 0x91, 0, 0] 0 (by decide)

def sampleRun (es : List Event) : CtapHidServer :=
  es.foldl (fun s e => (s.process sampleHost e.packet.bytes e.clock e.draws).2) CtapHidServer.new

theorem runs_snoc {C : CtapHidServer → Event → Prop} (es : List Event) {e : Event}
    (h : Runs sampleHost C es (sampleRun es)) (hC : C (sampleRun es) e)
    (hok : ((sampleRun es).process sampleHost e.packet.bytes e.clock e.draws).1.isOk = true) :
    Runs sampleHost C (es ++ [e]) (sampleRun (es ++ [e])) := by
  have hsnoc : sampleRun (es ++ [e])
      = ((sampleRun es).process sampleHost e.packet.bytes e.clock e.draws).2 := by
    unfold sampleRun
    rw [List.foldl_append]
    rfl
  rw [hsnoc]
  rcases hr : (sampleRun es).process sampleHost e.packet.bytes e.clock e.draws
    with ⟨why | response, s'⟩
  · rw [hr] at hok
    cases hok
  · exact .packet h hC hr

theorem orderly_cmd {s : CtapHidServer} {e : Event} {cid : UInt32} {cmd : Command}
    {payloadLen : Nat} {payload : List UInt8}
    (he : e.parsed = .ok (⟨cid, .cmd cmd payloadLen⟩, payload)) (hcmd : cmd ≠ .cancel)
    (hidle : s.activeCid = none) : Orderly s e := by
  unfold Orderly
  rw [he]
  refine ⟨fun h => absurd h hcmd, fun h => ?_⟩
  rcases (expire_cases s e.clock).2.1 with hnone | hsame
  · rw [hnone] at h
    cases h
  · rw [hsame, hidle] at h
    cases h

theorem sampleInit_parsed (cid : UInt32) : (sampleInit cid).parsed
    = .ok (⟨broadcastCid, .cmd .init 8⟩, List.replicate 57 7) := rfl

theorem samplePing_parsed : samplePing.parsed
    = .ok (⟨1, .cmd .ping 100⟩, List.replicate 57 7) := by decide +kernel

theorem sampleInit_runs : Runs sampleHost Orderly [sampleInit 1] (sampleRun [sampleInit 1]) :=
  runs_snoc [] .new (orderly_cmd (sampleInit_parsed 1) (by decide) rfl) rfl

end Strays

/-- A ping of two packets. -/
theorem transactions_isolated_one : ∃ s' ch,
    (sampleRun [sampleInit 1, samplePing]).receive (sampleCont 0).packet.bytes
      (sampleCont 0).clock (sampleCont 0).draws = (.complete 1, s') ∧ s'.channels 1 = some ch ∧
      Reassembled 1 ch [sampleInit 1, samplePing, sampleCont 0] := by
  have hruns : Runs sampleHost Orderly [sampleInit 1, samplePing]
      (sampleRun [sampleInit 1, samplePing]) :=
    runs_snoc [sampleInit 1] sampleInit_runs
      (orderly_cmd samplePing_parsed (by decide) (by decide +kernel))
      (by decide +kernel)
  have hcont : (sampleCont 0).parsed = .ok (⟨1, .seq 0⟩, List.replicate 59 7) := by decide +kernel
  have hbuf : (((sampleRun [sampleInit 1, samplePing]).expire (sampleCont 0).clock).channels 1).map
      (fun ch => ch.buf.length) = some initLen := by decide +kernel
  have hC : Orderly (sampleRun [sampleInit 1, samplePing]) (sampleCont 0) := by
    unfold Orderly
    rw [hcont]
    refine fun ch _ hch => ⟨fun _ => ?_, fun h => absurd h (by decide)⟩
    rw [hch] at hbuf
    exact Option.some.inj hbuf
  have hreceive : ((sampleRun [sampleInit 1, samplePing]).receive (sampleCont 0).packet.bytes
      (sampleCont 0).clock (sampleCont 0).draws).1 = .complete 1 := by decide +kernel
  obtain ⟨ch, hch, hmessage, -⟩ :=
    (transactions_isolated sampleHost hruns hC).1 1 _ (Prod.ext hreceive rfl)
  exact ⟨_, ch, Prod.ext hreceive rfl, hch, hmessage⟩

/-- A continuation packet with number 1 is taken as the first one and completes a ping, and a
`CANCEL` of channel 2 ends the transaction of channel 1. -/
theorem strays_break_in :
    (∃ es s, ∃ e : Event, ∃ s' ch, Runs sampleHost (fun _ _ => True) es s ∧
      s.receive e.packet.bytes e.clock e.draws = (.complete 1, s') ∧ s'.channels 1 = some ch ∧
        ¬ Reassembled 1 ch (es ++ [e])) ∧
    ∃ es s, ∃ e : Event, Runs sampleHost (fun _ _ => True) es s ∧
      (s.expire e.clock).activeCid = some 1 ∧ ¬ e.Of 1 ∧
        (s.process sampleHost e.packet.bytes e.clock e.draws).2.activeCid = none := by
  have hinit : Runs sampleHost (fun _ _ => True) [sampleInit 1] (sampleRun [sampleInit 1]) :=
    runs_snoc [] .new trivial rfl
  constructor
  · have hruns : Runs sampleHost (fun _ _ => True) [sampleInit 1, samplePing]
        (sampleRun [sampleInit 1, samplePing]) :=
      runs_snoc [sampleInit 1] hinit trivial (by decide +kernel)
    have hreceive : ((sampleRun [sampleInit 1, samplePing]).receive (sampleCont 1).packet.bytes
        (sampleCont 1).clock (sampleCont 1).draws).1 = .complete 1 := by decide +kernel
    have hch : (((sampleRun [sampleInit 1, samplePing]).receive (sampleCont 1).packet.bytes
        (sampleCont 1).clock (sampleCont 1).draws).2.channels 1).isSome = true := by decide +kernel
    have hcont : (sampleCont 1).parsed = .ok (⟨1, .seq 1⟩, List.replicate 59 7) := by
      decide +kernel
    refine ⟨_, _, sampleCont 1, _, _, hruns, Prod.ext hreceive rfl, (Option.some_get hch).symm, ?_⟩
    rintro ⟨n, data, hgathers, -⟩
    obtain ⟨data', hone⟩ := hgathers.of_seq hcont
    exact absurd (Gathers.of_cmd [sampleInit 1] hone samplePing_parsed) (by decide)
  · have htwo : Runs sampleHost (fun _ _ => True) [sampleInit 1, sampleInit 2]
        (sampleRun [sampleInit 1, sampleInit 2]) :=
      runs_snoc [sampleInit 1] hinit trivial (by decide +kernel)
    have hthree : Runs sampleHost (fun _ _ => True) [sampleInit 1, sampleInit 2, samplePing]
        (sampleRun [sampleInit 1, sampleInit 2, samplePing]) :=
      runs_snoc [sampleInit 1, sampleInit 2] htwo trivial (by decide +kernel)
    have hcancel : sampleCancel.parsed = .ok (⟨2, .cmd .cancel 0⟩, List.replicate 57 7) := by
      decide +kernel
    exact ⟨_, _, sampleCancel, hthree, by decide +kernel, sampleCancel.of_ne hcancel (by decide),
      by decide +kernel⟩

end CtapHid
