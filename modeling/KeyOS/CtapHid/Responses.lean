import KeyOS.CtapHid.Transactions
import KeyOS.Lib.BlockModes

/-!
# Responses of the CTAPHID server

A response is sent as an initialization packet and continuation packets, which are numbered with
seven bits. Up to 7609 bytes the receiver reassembles what was sent. A message of more bytes can be
received all the same, because number 0 is taken at any time, and its echo cannot be reassembled.

Result: `responses_reassemble`.
-/

namespace CtapHid

open CtapHidServer BlockModes

/-! ## 1. Sending -/

def Command.toU8 : Command → UInt8
  | ping => 0x01
  | init => 0x06
  | message => 0x03
  | wink => 0x08
  | cbor => 0x10
  | cancel => 0x11
  | error => 0x3f
  | lock => 0x04
  | keepAlive => 0x3b

def Header.serialize (header : Header) : List UInt8 :=
  toBeBytes header.cid ++
    match header.cmdSeq with
    | .cmd cmd payloadLen =>
      [0x80 ||| cmd.toU8, UInt8.ofNat (payloadLen / 256), UInt8.ofNat payloadLen]
    | .seq seq => [seq]

/-- `Header::len` -/
def Header.len (header : Header) : Nat :=
  match header.cmdSeq with
  | .cmd _ _ => 7
  | .seq _ => 5

/-- `resize(64, 0)` -/
def padded (pkt : List UInt8) : List UInt8 := pkt.take 64 ++ .replicate (64 - pkt.length) 0

def continuation (cid : UInt32) (chunk : List UInt8 × Nat) : List UInt8 :=
  padded ((Header.mk cid (.seq (UInt8.ofNat chunk.2))).serialize ++ chunk.1)

/-- The packets of a response -/
def sendResponse (header : Header) (payload : List UInt8) : List (List UInt8) :=
  padded (header.serialize ++ payload) ::
    if 64 - header.len < payload.length then
      ((blocks (64 - 5) (payload.drop (64 - header.len))).zipIdx).map (continuation header.cid)
    else []

/-! ## 2. Reassembling -/

/-- The continuation rules of `process`: number 0 or the next one, and what is missing is taken. -/
def continueWith (cid : UInt32) (payloadLen : Nat) (prevSeq : UInt8) (buf : List UInt8) :
    List (List UInt8) → Option (List UInt8)
  | [] => if buf.length = payloadLen then some buf else none
  | pkt :: pkts =>
    if payloadLen ≤ buf.length then none
    else match Header.deserialize pkt with
      | .ok (⟨c, .seq seq⟩, payload) =>
        if c = cid ∧ (seq = 0 ∨ seq = prevSeq + 1) then
          continueWith cid payloadLen seq (buf ++ payload.take (payloadLen - buf.length)) pkts
        else none
      | _ => none

/-- The message that packets carry, if they carry one and nothing else -/
def reassemble : List (List UInt8) → Option (UInt32 × Command × List UInt8)
  | [] => none
  | pkt :: pkts =>
    match Header.deserialize pkt with
    | .ok (⟨cid, .cmd cmd payloadLen⟩, payload) =>
      (continueWith cid payloadLen 0 (payload.take payloadLen) pkts).map fun buf => (cid, cmd, buf)
    | _ => none

/-- The most bytes that an initialization packet and 128 continuation packets carry. -/
def maxMessage : Nat := initLen + 128 * contLen

/-- The receiver reassembles what is sent. -/
structure Reassembles (header : Header) (payload : List UInt8) : Prop where
  length : ∃ cmd, header.cmdSeq = .cmd cmd payload.length
  size : ∀ pkt ∈ sendResponse header payload, pkt.length = 64
  numbered : ∀ i pkt, (sendResponse header payload)[i + 1]? = some pkt →
    ∃ seq rest, Header.deserialize pkt = .ok (⟨header.cid, .seq seq⟩, rest) ∧ seq.toNat = i
  reassembled : ∃ cmd, header.cmdSeq = .cmd cmd payload.length ∧
    reassemble (sendResponse header payload) = some (header.cid, cmd, payload)

/-! ## 3. Headers -/

theorem beBytes_toBeBytes (cid : UInt32) : UInt32.ofNat (beBytes (toBeBytes cid)) = cid := by
  have hlt := cid.toNat_lt
  have hvalue : beBytes (toBeBytes cid) = cid.toNat := by
    show 256 * (256 * (256 * (256 * 0 + (UInt8.ofNat (cid.toNat / 256 ^ 3)).toNat) +
      (UInt8.ofNat (cid.toNat / 256 ^ 2)).toNat) + (UInt8.ofNat (cid.toNat / 256)).toNat) +
      (UInt8.ofNat cid.toNat).toNat = cid.toNat
    simp only [UInt8.toNat_ofNat']
    omega
  rw [hvalue, UInt32.ofNat_toNat]

theorem beBytes_length {n : Nat} (h : n < 2 ^ 16) :
    beBytes [UInt8.ofNat (n / 256), UInt8.ofNat n] = n := by
  show 256 * (256 * 0 + (UInt8.ofNat (n / 256)).toNat) + (UInt8.ofNat n).toNat = n
  simp only [UInt8.toNat_ofNat']
  omega

theorem command_byte (cmd : Command) :
    (0x80 ||| cmd.toU8) &&& 0x80 ≠ 0 ∧
      Command.fromU8 ((0x80 ||| cmd.toU8) &&& 0x7f) = some cmd := by
  cases cmd <;> decide

/-- A command header is read as it was written. -/
theorem deserialize_cmd (cid : UInt32) (cmd : Command) {n : Nat} (h : n < 2 ^ 16)
    (rest : List UInt8) :
    Header.deserialize ((Header.mk cid (.cmd cmd n)).serialize ++ rest) =
      .ok (⟨cid, .cmd cmd n⟩, rest) := by
  obtain ⟨hbit, hcmd⟩ := command_byte cmd
  show Header.deserialize (_ :: _ :: _ :: _ :: (0x80 ||| cmd.toU8) :: UInt8.ofNat (n / 256) ::
    UInt8.ofNat n :: rest) = _
  unfold Header.deserialize
  dsimp only
  rw [if_neg hbit, hcmd]
  dsimp only
  have hcid := beBytes_toBeBytes cid
  unfold toBeBytes at hcid
  rw [beBytes_length h, hcid]

theorem and_of_toNat_lt {b : UInt8} (h : b.toNat < 128) : b &&& 0x80 = 0 := by
  have hall : ∀ n : Fin 256, n.val < 128 → UInt8.ofFin n &&& 0x80 = 0 := by decide +kernel
  exact hall b.toFin h

/-- So is a number below 128. -/
theorem deserialize_seq (cid : UInt32) {seq : UInt8} (h : seq.toNat < 128) (rest : List UInt8) :
    Header.deserialize ((Header.mk cid (.seq seq)).serialize ++ rest) =
      .ok (⟨cid, .seq seq⟩, rest) := by
  show Header.deserialize (_ :: _ :: _ :: _ :: seq :: rest) = _
  unfold Header.deserialize
  dsimp only
  have hcid := beBytes_toBeBytes cid
  unfold toBeBytes at hcid
  rw [if_pos (and_of_toNat_lt h), hcid]

/-! ## 4. Packets -/

theorem length_padded (pkt : List UInt8) : (padded pkt).length = 64 := by
  unfold padded
  rw [List.length_append, List.length_take, List.length_replicate]
  omega

theorem length_serialize (header : Header) : header.serialize.length = header.len := by
  unfold Header.serialize Header.len
  split <;> rfl

theorem len_le (header : Header) : header.len ≤ 7 := by
  unfold Header.len
  split <;> decide

/-- A header is in front of what fits of the payload. -/
theorem padded_header (header : Header) (payload : List UInt8) :
    padded (header.serialize ++ payload) = header.serialize ++
      (payload.take (64 - header.len) ++ .replicate (64 - header.len - payload.length) 0) := by
  have hlen := length_serialize header
  have hle := len_le header
  unfold padded
  rw [List.take_append, hlen, List.take_of_length_le (by omega), List.append_assoc,
    List.length_append, hlen, Nat.sub_add_eq]

theorem deserialize_continuation (cid : UInt32) (chunk : List UInt8) {i : Nat} (h : i < 128) :
    Header.deserialize (continuation cid (chunk, i)) =
      .ok (⟨cid, .seq (UInt8.ofNat i)⟩, chunk.take 59 ++ .replicate (59 - chunk.length) 0) := by
  unfold continuation
  rw [padded_header]
  refine deserialize_seq cid ?_ _
  rw [UInt8.toNat_ofNat']
  omega

/-- Continuation packets give back the chunks that they were made of. -/
theorem continueWith_blocks (cid : UInt32) (rest : List UInt8) : ∀ (i payloadLen : Nat)
    (prevSeq : UInt8) (buf : List UInt8), buf.length + rest.length = payloadLen →
    (i ≠ 0 → prevSeq = UInt8.ofNat (i - 1)) → i + (blocks 59 rest).length ≤ 128 →
    continueWith cid payloadLen prevSeq buf
      (((blocks 59 rest).zipIdx i).map (continuation cid)) = some (buf ++ rest) := by
  -- the number of a packet is 0 or follows the one before it
  have hnext (i : Nat) (prevSeq : UInt8) (hprev : i ≠ 0 → prevSeq = UInt8.ofNat (i - 1)) :
      UInt8.ofNat i = 0 ∨ UInt8.ofNat i = prevSeq + 1 := by
    cases i with
    | zero => exact .inl rfl
    | succ i =>
      rw [hprev (Nat.succ_ne_zero i), Nat.add_sub_cancel, UInt8.ofNat_add]
      exact .inr rfl
  induction rest using text_induction (n := 59) (by decide) with
  | nil =>
    intro i payloadLen prevSeq buf hlen _ _
    rw [blocks_nil, List.append_nil]
    exact if_pos hlen
  | short block hne hshort =>
    intro i payloadLen prevSeq buf hlen hprev hcount
    have hpos := List.length_pos_iff.2 hne
    rw [blocks_short hne hshort.le] at hcount ⊢
    have hi : i < 128 := by
      rw [List.length_singleton] at hcount
      omega
    show continueWith cid payloadLen prevSeq buf [continuation cid (block, i)] = _
    unfold continueWith
    rw [if_neg (by omega), deserialize_continuation cid block hi]
    dsimp only
    rw [if_pos ⟨rfl, hnext i prevSeq hprev⟩, List.take_of_length_le hshort.le,
      List.take_append_of_le_length (by omega), List.take_of_length_le (by omega)]
    unfold continueWith
    rw [if_pos (by rw [List.length_append, hlen])]
  | whole block rest hblock ih =>
    intro i payloadLen prevSeq buf hlen hprev hcount
    rw [List.length_append] at hlen
    have hne : block ≠ [] := List.ne_nil_of_length_pos (by omega)
    rw [blocks_append (by decide) (by rw [hblock]), blocks_short hne hblock.le] at hcount ⊢
    rw [List.length_append, List.length_singleton] at hcount
    show continueWith cid payloadLen prevSeq buf (continuation cid (block, i) ::
      ((blocks 59 rest).zipIdx (i + 1)).map (continuation cid)) = _
    unfold continueWith
    rw [if_neg (by omega), deserialize_continuation cid block (by omega)]
    dsimp only
    rw [if_pos ⟨rfl, hnext i prevSeq hprev⟩, List.take_of_length_le hblock.le,
      show 59 - block.length = 0 by omega, List.replicate_zero, List.append_nil,
      List.take_of_length_le (by omega),
      ih (i + 1) payloadLen (UInt8.ofNat i) (buf ++ block) (by rw [List.length_append]; omega)
        (fun _ => by rw [Nat.add_sub_cancel]) (by omega), List.append_assoc]

/-! ## 5. Responses -/

theorem length_blocks (text : List UInt8) : (blocks 59 text).length = (text.length + 58) / 59 := by
  unfold blocks
  rw [List.length_map, List.length_range]

/-- The packets behind the first one -/
theorem sendResponse_succ (cid : UInt32) (cmd : Command) (n : Nat) (payload : List UInt8) (i : Nat) :
    (sendResponse ⟨cid, .cmd cmd n⟩ payload)[i + 1]? =
      ((blocks 59 (payload.drop 57))[i]?).map fun chunk => continuation cid (chunk, i) := by
  show (if 57 < payload.length then
    ((blocks 59 (payload.drop 57)).zipIdx).map (continuation cid) else [])[i]? = _
  by_cases hlong : 57 < payload.length
  · rw [if_pos hlong, List.getElem?_map, List.getElem?_zipIdx, Option.map_map, Nat.zero_add]
    rfl
  · rw [if_neg hlong, List.drop_eq_nil_of_le (by omega), blocks_nil]
    rfl

theorem sendResponse_size (header : Header) (payload : List UInt8) :
    ∀ pkt ∈ sendResponse header payload, pkt.length = 64 := by
  intro pkt hpkt
  unfold sendResponse at hpkt
  rcases List.mem_cons.1 hpkt with rfl | hpkt
  · exact length_padded _
  · split at hpkt
    · obtain ⟨chunk, -, rfl⟩ := List.mem_map.1 hpkt
      exact length_padded _
    · cases hpkt

theorem reassemble_sendResponse (cid : UInt32) (cmd : Command) {payload : List UInt8}
    (h : payload.length ≤ maxMessage) :
    reassemble (sendResponse ⟨cid, .cmd cmd payload.length⟩ payload) = some (cid, cmd, payload) := by
  have hmax : maxMessage = 7609 := rfl
  show reassemble (padded ((Header.mk cid (.cmd cmd payload.length)).serialize ++ payload) ::
    if 57 < payload.length then ((blocks 59 (payload.drop 57)).zipIdx).map (continuation cid)
      else []) = _
  unfold reassemble
  rw [padded_header]
  dsimp only
  rw [deserialize_cmd cid cmd (by omega)]
  dsimp only
  rw [show 64 - (Header.mk cid (.cmd cmd payload.length)).len = 57 from rfl]
  by_cases hlong : 57 < payload.length
  · have hhead : (payload.take 57).length = 57 := by
      rw [List.length_take]
      omega
    have hrest : (payload.drop 57).length = payload.length - 57 := List.length_drop ..
    rw [if_pos hlong, show 57 - payload.length = 0 by omega, List.replicate_zero, List.append_nil,
      List.take_of_length_le (by omega),
      continueWith_blocks cid (payload.drop 57) 0 payload.length 0 (payload.take 57) (by omega)
        (fun h => (h rfl).elim) (by rw [length_blocks]; omega), List.take_append_drop]
    rfl
  · rw [if_neg hlong, List.take_of_length_le (Nat.le_of_not_lt hlong), List.take_left]
    unfold continueWith
    rw [if_pos rfl]
    rfl

/-- Up to 7609 bytes, and no more. -/
theorem reassembles_iff (cid : UInt32) (cmd : Command) (payload : List UInt8) :
    Reassembles ⟨cid, .cmd cmd payload.length⟩ payload ↔ payload.length ≤ maxMessage := by
  have hmax : maxMessage = 7609 := rfl
  have hcount : (blocks 59 (payload.drop 57)).length = (payload.length - 57 + 58) / 59 := by
    rw [length_blocks, List.length_drop]
  refine ⟨fun h => ?_, fun h => ⟨⟨cmd, rfl⟩, sendResponse_size _ _, fun i pkt hpkt => ?_,
    cmd, rfl, reassemble_sendResponse cid cmd h⟩⟩
  · by_contra hlong
    -- packet 128 has no number
    have hblock : 128 < (blocks 59 (payload.drop 57)).length := by omega
    have hpkt := sendResponse_succ cid cmd payload.length payload 128
    rw [List.getElem?_eq_getElem hblock] at hpkt
    obtain ⟨seq, rest, hdeserialize, hseq⟩ := h.numbered 128 _ hpkt
    have hsize := deserialize_size (length_padded _) hdeserialize
    exact absurd hseq (hsize.2.ne)
  · rw [sendResponse_succ] at hpkt
    obtain ⟨chunk, hchunk, rfl⟩ := Option.map_eq_some_iff.1 hpkt
    have hi : i < 128 := by
      have hlt := (List.getElem?_eq_some_iff.1 hchunk).1
      omega
    refine ⟨_, _, deserialize_continuation cid chunk hi, ?_⟩
    rw [UInt8.toNat_ofNat']
    omega

/-! ## 6. The server -/

/-- No response of the FIDO server is longer than a message can be. -/
structure Host.Bounded (host : Host) : Prop where
  u2f : ∀ apdu, (host.u2f apdu).length ≤ maxMessage
  cbor : ∀ cmd payload, (host.ctapProcessCbor cmd payload).length ≤ maxMessage

/-- A response can be reassembled, and so could the message that a packet completes. -/
structure Right (s : CtapHidServer) (e : Event) (response : Option Message) : Prop where
  response : ∀ header payload, response = some (header, payload) → Reassembles header payload
  message : ∀ cid s', s.receive e.packet.bytes e.clock e.draws = (.complete cid, s') →
    ∀ ch, s'.channels cid = some ch → ch.payloadLen ≤ maxMessage

/-- The condition on a packet. A continuation packet that is taken does not complete a message that
was announced to be longer than 7609 bytes. -/
def Short (s : CtapHidServer) (e : Event) : Prop :=
  match e.parsed with
  | .ok (⟨cid, .seq seq⟩, _) =>
    ∀ ch, (s.expire e.clock).activeCid = some cid → (s.expire e.clock).channels cid = some ch →
      (seq = 0 ∨ seq = ch.prevSeq + 1) → maxMessage < ch.payloadLen →
      ch.buf.length + contLen < ch.payloadLen
  | _ => True

/-- The active channel waits for more. -/
def Waits (s : CtapHidServer) : Prop :=
  ∀ cid ch, s.activeCid = some cid → s.channels cid = some ch →
    ch.buf.length < ch.payloadLen ∧ ch.payloadLen < 2 ^ 16

/-- What becomes of a packet -/
inductive Taken (s : CtapHidServer) (e : Event) : Reception → CtapHidServer → Prop where
  | nothing {s' : CtapHidServer} (hwaits : Waits s') (hshort : Short s e) : Taken s e .nothing s'
  | reply {s' : CtapHidServer} (err : CtapHidError) (cid : UInt32) (hwaits : Waits s')
      (hshort : Short s e) : Taken s e (.reply (err.toMsg cid)) s'
  | complete {s' : CtapHidServer} {cid : UInt32} {ch : Channel} (hch : s'.channels cid = some ch)
      (hlen : ch.buf.length = ch.payloadLen) (hshort : Short s e ↔ ch.payloadLen ≤ maxMessage) :
      Taken s e (.complete cid) s'
  | stuck {s' : CtapHidServer} (why : Stuck) : Taken s e (.stuck why) s'

section

variable {s : CtapHidServer} {e : Event}

theorem Waits.idle (h : s.activeCid = none) : Waits s := fun _ _ hactive => by
  rw [h] at hactive
  cases hactive

theorem Waits.expire (h : Waits s) (clock : Clock) : Waits (s.expire clock) := by
  obtain ⟨hchannels, hactive, -⟩ := expire_cases s clock
  intro cid ch hcid hch
  rw [hchannels] at hch
  rcases hactive with hnone | hsame
  · rw [hnone] at hcid
    cases hcid
  · exact h cid ch (hsame ▸ hcid) hch

theorem checkBusy_reply {cid : UInt32} {cmd : Command} {msg : Message}
    (h : s.checkBusy cid cmd = some msg) : msg = CtapHidError.busyChannel.toMsg cid := by
  unfold checkBusy at h
  split_ifs at h <;> exact (Option.some.inj h).symm

/-- A channel that was just opened holds what its packet carries. -/
theorem opened_taken {s₁ : CtapHidServer} {cid : UInt32} {cmd : Command} {payloadLen : Nat}
    {payload : List UInt8} {newCid : Option UInt32}
    (he : e.parsed = .ok (⟨cid, .cmd cmd payloadLen⟩, payload)) (hshort : Short s e)
    (hactive : s₁.activeCid = some cid) :
    Taken s e (if payloadLen ≤ payload.length % 2 ^ 16 then .complete cid else .nothing)
      (s₁.setChannel cid ⟨cid, cmd, payloadLen, payload.take (min payload.length payloadLen), 0,
        newCid⟩) := by
  obtain ⟨hsize, hlen⟩ := e.cmd_size he
  have hinit : initLen = 57 := rfl
  have hmod : payload.length % 2 ^ 16 = 57 := by rw [hsize]; rfl
  rw [take_min_length, hmod]
  split_ifs with hfits
  · refine .complete (setChannel_same _) ?_ ⟨fun _ => ?_, fun _ => hshort⟩
    · show (payload.take payloadLen).length = payloadLen
      rw [List.length_take, hsize]
      omega
    · exact hfits.trans (by decide)
  · refine .nothing (fun c ch hc hch => ?_) hshort
    obtain rfl := Option.some.inj (hactive.symm.trans hc)
    rw [setChannel_same] at hch
    obtain rfl := Option.some.inj hch
    refine ⟨?_, hlen⟩
    show (payload.take payloadLen).length < payloadLen
    rw [List.length_take, hsize]
    omega

theorem receiveInit_taken {s₀ : CtapHidServer} {cid : UInt32} {cmd : Command} {payloadLen : Nat}
    {payload : List UInt8} (now : Instant) (draws : List UInt32) (hwaits : Waits s)
    (he : e.parsed = .ok (⟨cid, .cmd cmd payloadLen⟩, payload)) :
    Taken s₀ e (s.receiveInit cid cmd payloadLen payload now draws).1
      (s.receiveInit cid cmd payloadLen payload now draws).2 := by
  have hshort : Short s₀ e := by
    unfold Short
    rw [he]
    trivial
  unfold receiveInit
  cases hbusy : s.checkBusy cid cmd with
  | some msg =>
    rw [checkBusy_reply hbusy]
    exact .reply _ _ hwaits hshort
  | none =>
    dsimp only
    by_cases hinit : cid = broadcastCid ∧ cmd = .init
    · rw [if_pos hinit]
      cases hnew : (s.startTransaction cid now).createChannel draws with
      | none => exact .stuck _
      | some r =>
        obtain ⟨-, hactive⟩ := createChannel_lock hnew
        dsimp only [Option.map_some]
        cases r.2.channels cid with
        | some _ => exact opened_taken he hshort hactive
        | none => exact .reply _ _ (.idle rfl) hshort
    · rw [if_neg hinit]
      dsimp only
      cases (s.startTransaction cid now).channels cid with
      | some _ => exact opened_taken he hshort rfl
      | none => exact .reply _ _ (.idle rfl) hshort

theorem receiveSeq_taken {cid : UInt32} {seq : UInt8} {payload : List UInt8}
    (hwaits : Waits (s.expire e.clock)) (he : e.parsed = .ok (⟨cid, .seq seq⟩, payload)) :
    Taken s e ((s.expire e.clock).receiveSeq cid seq payload).1
      ((s.expire e.clock).receiveSeq cid seq payload).2 := by
  have hshort : Short s e ↔ ∀ ch, (s.expire e.clock).activeCid = some cid →
      (s.expire e.clock).channels cid = some ch → (seq = 0 ∨ seq = ch.prevSeq + 1) →
      maxMessage < ch.payloadLen → ch.buf.length + contLen < ch.payloadLen := by
    unfold Short
    rw [he]
  obtain ⟨hsize, -⟩ := e.seq_size he
  have hcont : contLen = 59 := rfl
  generalize s.expire e.clock = s₁ at *
  unfold receiveSeq
  by_cases hactive : s₁.activeCid = some cid
  · rw [if_neg (not_not_intro hactive)]
    cases hch : s₁.channels cid with
    | none => exact .reply _ _ (.idle rfl) (hshort.2 fun ch _ h => by rw [hch] at h; cases h)
    | some ch =>
      obtain ⟨hless, hlen⟩ := hwaits cid ch hactive hch
      dsimp only
      split_ifs with hover hnext hunder hdone
      · exact .stuck _
      · exact .stuck _
      · -- the message is complete
        have hfull : (ch.buf ++ payload.take (min payload.length
            (ch.payloadLen - ch.buf.length))).length = ch.payloadLen := by
          rw [take_min_length, List.length_append, List.length_take, hsize] at hdone ⊢
          omega
        refine .complete (setChannel_same _) hfull ?_
        rw [hshort]
        refine ⟨fun h => ?_, fun h ch' _ hch' _ hlong => ?_⟩
        · by_contra hlong
          have hlate := h ch hactive hch hnext (Nat.lt_of_not_le hlong)
          rw [take_min_length, List.length_append, List.length_take, hsize] at hfull
          omega
        · rw [hch] at hch'
          obtain rfl := Option.some.inj hch'
          exact absurd hlong (Nat.not_lt_of_le h)
      · have hmore : (ch.buf ++ payload.take (min payload.length
            (ch.payloadLen - ch.buf.length))).length < ch.payloadLen := by
          rw [take_min_length, List.length_append, List.length_take, hsize] at hdone ⊢
          omega
        refine .nothing (fun c ch' hc hch' => ?_) (hshort.2 fun ch' _ hch' _ _ => ?_)
        · obtain rfl := Option.some.inj (hactive.symm.trans hc)
          rw [setChannel_same] at hch'
          obtain rfl := Option.some.inj hch'
          exact ⟨hmore, hlen⟩
        · rw [hch] at hch'
          obtain rfl := Option.some.inj hch'
          rw [take_min_length, List.length_append, List.length_take, hsize] at hmore
          omega
      · refine .reply _ _ (.idle rfl) (hshort.2 fun ch' _ hch' hseq => ?_)
        rw [hch] at hch'
        obtain rfl := Option.some.inj hch'
        exact absurd hseq hnext
  · rw [if_pos hactive]
    exact .nothing hwaits (hshort.2 fun _ h => absurd h hactive)

/-- The step lemma. -/
theorem receive_taken (hwaits : Waits s) :
    Taken s e (s.receive e.packet.bytes e.clock e.draws).1
      (s.receive e.packet.bytes e.clock e.draws).2 := by
  have hexpired := hwaits.expire e.clock
  unfold receive
  dsimp only
  cases hparsed : Header.deserialize e.packet.bytes with
  | error err =>
    refine .reply _ _ hexpired ?_
    unfold Short Event.parsed
    rw [hparsed]
    trivial
  | ok r =>
    obtain ⟨⟨cid, cmdSeq⟩, payload⟩ := r
    cases cmdSeq with
    | cmd cmd payloadLen => exact receiveInit_taken _ _ hexpired hparsed
    | seq seq => exact receiveSeq_taken hexpired hparsed

theorem process_waits {host : Host} {response : Option Message} {s' : CtapHidServer}
    (hwaits : Waits s) (hrun : s.process host e.packet.bytes e.clock e.draws = (.ok response, s')) :
    Waits s' := by
  have htaken := receive_taken (e := e) hwaits
  unfold process at hrun
  rcases hr : s.receive e.packet.bytes e.clock e.draws with ⟨r, s₁⟩
  rw [hr] at htaken hrun
  cases htaken with
  | nothing hwaits' => cases hrun; exact hwaits'
  | reply _ _ hwaits' => cases hrun; exact hwaits'
  | complete => cases hrun; exact .idle rfl
  | stuck => cases hrun

theorem Runs.waits {host : Host} {C : CtapHidServer → Event → Prop} {es : List Event}
    (h : Runs host C es s) : Waits s := by
  induction h with
  | new => exact .idle rfl
  | packet _ _ hrun ih => exact process_waits ih hrun

/-- No response is longer than its message and those of the FIDO server. -/
theorem process_length {host : Host} (hhost : host.Bounded) {ch : Channel}
    (h : ch.buf.length ≤ maxMessage) : (ch.process host).1.2.length ≤ maxMessage := by
  have hsmall (e : CtapHidError) : e.toCmdPayload.2.length ≤ maxMessage := by
    show 1 ≤ maxMessage
    decide
  unfold Channel.process
  dsimp only
  cases ch.cmd with
  | ping => exact h
  | init =>
    dsimp only
    split_ifs with height
    · show (ch.buf ++ toBeBytes (ch.newCid.getD ch.cid) ++
        [protocolVersion, host.devVersion.1, host.devVersion.2.1, host.devVersion.2.2, 0x05]).length ≤ _
      rw [List.length_append, List.length_append, height]
      show 8 + 4 + 5 ≤ maxMessage
      decide
    · exact hsmall _
  | message =>
    dsimp only
    split_ifs
    · exact hhost.u2f _
    · exact hsmall _
  | wink =>
    dsimp only
    split_ifs
    · exact Nat.zero_le _
    · exact hsmall _
  | cbor =>
    dsimp only
    cases ch.buf with
    | nil => exact hsmall _
    | cons cmd payload => exact hhost.cbor _ _
  | cancel =>
    dsimp only
    split_ifs
    · exact Nat.zero_le _
    · exact hsmall _
  | error => exact hsmall _
  | lock =>
    dsimp only
    split_ifs
    · exact h
    · exact hsmall _
  | keepAlive => exact hsmall _

theorem processChannelCommand_length {host : Host} (hhost : host.Bounded) {cid : UInt32}
    {ch : Channel} (now : Instant) (hch : s.channels cid = some ch)
    (h : ch.buf.length ≤ maxMessage) {cmd : Command} {payload : List UInt8}
    (hresult : (s.processChannelCommand host cid now).1 = some (cmd, payload)) :
    payload.length ≤ maxMessage := by
  have hprocess := process_length hhost h
  have hsmall (e : CtapHidError) : e.toCmdPayload.2.length ≤ maxMessage := by
    show 1 ≤ maxMessage
    decide
  unfold processChannelCommand at hresult
  rw [hch] at hresult
  dsimp only at hresult
  split at hresult
  · cases hresult
  · split at hresult
    · split at hresult
      · cases hresult
        exact Nat.zero_le _
      next err _ _ =>
        have hlength := hsmall err
        rw [show err.toCmdPayload = (cmd, payload) from Option.some.inj hresult] at hlength
        exact hlength
    · cases hresult
      exact hsmall _
  · cases hresult
    exact hprocess

/-- After any packets, a response can be reassembled and the message behind it is not too long, if
and only if the packet does not complete a message that was announced to be too long. -/
theorem responses_reassemble {host : Host} (hhost : host.Bounded) {es : List Event}
    (h : Runs host (fun _ _ => True) es s) {response : Option Message} {s' : CtapHidServer}
    (hrun : s.process host e.packet.bytes e.clock e.draws = (.ok response, s')) :
    Right s e response ↔ Short s e := by
  have htaken := receive_taken (e := e) h.waits
  unfold process at hrun
  rcases hr : s.receive e.packet.bytes e.clock e.draws with ⟨r, s₁⟩
  rw [hr] at htaken hrun
  have hmessage (cid : UInt32) (hne : r ≠ .complete cid) (s₂ : CtapHidServer)
      (hcomplete : s.receive e.packet.bytes e.clock e.draws = (.complete cid, s₂)) : False := by
    rw [hr] at hcomplete
    exact hne (congrArg Prod.fst hcomplete)
  cases htaken with
  | nothing hwaits hshort =>
    cases hrun
    exact ⟨fun _ => hshort, fun _ => ⟨nofun, fun cid s₂ hc => (hmessage cid nofun s₂ hc).elim⟩⟩
  | reply err cid hwaits hshort =>
    cases hrun
    refine ⟨fun _ => hshort, fun _ => ⟨fun header payload heq => ?_,
      fun cid s₂ hc => (hmessage cid nofun s₂ hc).elim⟩⟩
    cases heq
    refine (reassembles_iff cid .error [err.toU8]).2 ?_
    show 1 ≤ maxMessage
    decide
  | @complete _ cid ch hch hlen hshort =>
    dsimp only at hrun
    rcases hcommand : s₁.processChannelCommand host cid e.clock.acquire with ⟨result, s₂⟩
    rw [hcommand] at hrun
    cases hrun
    rw [hshort]
    refine ⟨fun hright => hright.message cid s₁ hr ch hch, fun hle => ⟨fun header payload heq => ?_,
      fun c s₂ hc ch' hch' => ?_⟩⟩
    · obtain ⟨⟨cmd, data⟩, hresult, heq⟩ := Option.map_eq_some_iff.1 heq
      obtain rfl : data = payload := congrArg Prod.snd heq
      obtain rfl := congrArg Prod.fst heq
      have hbound : data.length ≤ maxMessage :=
        processChannelCommand_length hhost e.clock.acquire hch (hlen.trans_le hle)
          (by rw [hcommand]; exact hresult)
      have hmod : data.length % 2 ^ 16 = data.length :=
        Nat.mod_eq_of_lt (hbound.trans_lt (by decide))
      dsimp only
      rw [hmod]
      exact (reassembles_iff cid cmd data).2 hbound
    · rw [hr] at hc
      cases hc
      rw [hch] at hch'
      obtain rfl := Option.some.inj hch'
      exact hle
  | stuck => cases hrun

theorem sampleHost_bounded : sampleHost.Bounded := ⟨fun _ => Nat.zero_le _, fun _ _ => Nat.zero_le _⟩

/-- The response to `INIT` is reassembled. -/
theorem responses_reassemble_init : Right CtapHidServer.new (sampleInit 1)
    (some (⟨broadcastCid, .cmd .init 17⟩, [7, 7, 7, 7, 7, 7, 7, 7, 0, 0, 0, 1, 2, 1, 0, 0, 5])) ↔
    Short CtapHidServer.new (sampleInit 1) :=
  responses_reassemble sampleHost_bounded .new (Prod.ext (by decide +kernel) rfl)

/-! ## 7. A message that is too long -/

/-- `PING` of 7610 bytes -/
def longPing : Event := sampleEvent [255, 255, 255, 255, 0x81, 29, 186] 0 (by decide)

/-- A continuation packet with number 0 -/
def zeroCont : Event := sampleEvent [255, 255, 255, 255, 0] 0 (by decide)

theorem zeroCont_parsed : zeroCont.parsed = .ok (⟨broadcastCid, .seq 0⟩, .replicate 59 7) := by
  decide +kernel

/-- The ping waits for more, and nothing has timed out. -/
structure LongPing (s : CtapHidServer) (n : Nat) : Prop where
  active : s.activeCid = some broadcastCid
  start : s.transactionStart = some 0
  channel : ∃ ch, s.channels broadcastCid = some ch ∧ ch.payloadLen = 7610 ∧ ch.buf.length = n

theorem LongPing.receive {n : Nat} (h : LongPing s n) (hn : n < 7610) :
    ∃ ch s', ch.payloadLen = 7610 ∧ ch.buf.length = n + min 59 (7610 - n) ∧
      s'.activeCid = some broadcastCid ∧ s'.transactionStart = some 0 ∧
      s'.channels broadcastCid = some ch ∧
      s.receive zeroCont.packet.bytes zeroCont.clock zeroCont.draws =
        (if 7610 ≤ n + min 59 (7610 - n) then .complete broadcastCid else .nothing, s') := by
  obtain ⟨ch, hch, hlen, hbuf⟩ := h.channel
  have hexpire : (s.expire zeroCont.clock).activeCid = some broadcastCid ∧
      (s.expire zeroCont.clock).transactionStart = some 0 := by
    have htimeout : s.checkTransactionTimeout 0 = s := by
      unfold checkTransactionTimeout
      rw [h.active, h.start]
      rfl
    unfold expire checkLockExpiry
    rw [show zeroCont.clock.timeoutCheck = 0 from rfl, htimeout]
    split
    · split
      · exact ⟨h.active, h.start⟩
      · exact ⟨h.active, h.start⟩
    · exact ⟨h.active, h.start⟩
  have hch₁ : (s.expire zeroCont.clock).channels broadcastCid = some ch := by
    rw [(expire_cases s zeroCont.clock).1, hch]
  have hparsed : Header.deserialize zeroCont.packet.bytes = _ := zeroCont_parsed
  have hfull : (ch.buf ++ (List.replicate 59 (7 : UInt8)).take
      (min (List.replicate 59 (7 : UInt8)).length (ch.payloadLen - ch.buf.length))).length =
        n + min 59 (7610 - n) := by
    rw [take_min_length, List.length_append, List.length_take, List.length_replicate, hbuf, hlen,
      Nat.min_comm]
  unfold CtapHidServer.receive
  rw [hparsed]
  dsimp only
  generalize s.expire zeroCont.clock = s₁ at *
  unfold receiveSeq
  rw [if_neg (not_not_intro hexpire.1), hch₁]
  dsimp only
  rw [if_neg (fun hover => hover.1 rfl), if_pos (.inl rfl), if_neg (by omega), hfull, hlen,
    Nat.mod_eq_of_lt (by omega)]
  rw [hlen] at hfull
  refine ⟨{ ch with
    payloadLen := 7610
    prevSeq := 0
    buf := ch.buf ++ (List.replicate 59 (7 : UInt8)).take
      (min (List.replicate 59 (7 : UInt8)).length (7610 - ch.buf.length)) }, _, rfl, hfull, ?_, ?_, ?_,
    rfl⟩
  · exact hexpire.1
  · exact hexpire.2
  · exact setChannel_same _

theorem longPing_run (k : Nat) (hk : k ≤ 128) : ∃ es s,
    Runs sampleHost (fun _ _ => True) es s ∧ LongPing s (57 + 59 * k) := by
  induction k with
  | zero =>
    refine ⟨_, _, runs_snoc (C := fun _ _ => True) [] (e := longPing) .new trivial (by decide +kernel),
      by decide +kernel, by decide +kernel, ?_⟩
    have hch : ((sampleRun ([] ++ [longPing])).channels broadcastCid).map
        (fun ch => (ch.payloadLen, ch.buf.length)) = some (7610, 57) := by decide +kernel
    obtain ⟨ch, hch, heq⟩ := Option.map_eq_some_iff.1 hch
    exact ⟨ch, hch, congrArg Prod.fst heq, congrArg Prod.snd heq⟩
  | succ k ih =>
    obtain ⟨es, s, hruns, hping⟩ := ih (by omega)
    obtain ⟨ch, s', hlen, hbuf, hactive, hstart, hch, hreceive⟩ := hping.receive (by omega)
    have hmore : 57 + 59 * k + min 59 (7610 - (57 + 59 * k)) = 57 + 59 * (k + 1) := by omega
    rw [hmore, if_neg (by omega)] at hreceive
    have hrun : s.process sampleHost zeroCont.packet.bytes zeroCont.clock zeroCont.draws =
        (.ok none, s') := by
      unfold process
      rw [hreceive]
    exact ⟨_, s', .packet hruns trivial hrun, hactive, hstart, ch, hch, hlen, hbuf.trans hmore⟩

/-- A ping of 7610 bytes is taken. -/
theorem long_ping_taken : ¬ ∀ (host : Host) (es : List Event) (s : CtapHidServer) (e : Event)
    (response : Option Message) (s' : CtapHidServer), host.Bounded →
    Runs host (fun _ _ => True) es s →
    s.process host e.packet.bytes e.clock e.draws = (.ok response, s') → Right s e response := by
  intro hall
  obtain ⟨es, s, hruns, hping⟩ := longPing_run 128 le_rfl
  obtain ⟨ch, s', hlen, -, -, -, hch, hreceive⟩ := hping.receive (by decide)
  rw [if_pos (by decide)] at hreceive
  have hright := hall sampleHost es s zeroCont _ _ sampleHost_bounded hruns (by
    unfold process
    rw [hreceive])
  have hle := hright.message broadcastCid s' hreceive ch hch
  rw [hlen] at hle
  exact absurd hle (by decide)

end

end CtapHid
