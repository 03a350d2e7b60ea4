import KeyOS.Emmc.Scheduling

/-!
# Admission and completions

Each of the three calls keeps `Sound`. A completion stalls the pipeline exactly when
`strandsOn` holds before it.
-/

namespace Emmc

open SerialStore Pipeline

variable {E : CryptEngine} {requests : List Request} {base flash : Flash} {n : Nat}
  {s s' t : Operation} {p : Pipeline} {r : Request} {m : Machine} {log l₁ l₂ : List Event}

/-! ## 1. Admission -/

namespace Pipeline

theorem pending_insertOp (h : ∀ t ∈ p.ops, t.seq ≠ s.seq) :
    { p with ops := insertOp s p.ops }.pending.Perm (s :: p.pending) := by
  have hops : (insertOp s p.ops ++ p.inbox).Perm (s :: (p.ops ++ p.inbox)) :=
    (insertOp_perm h).append_right p.inbox
  have hcrypt : (p.cryptRunning.toList ++ (insertOp s p.ops ++ p.inbox)).Perm
      (s :: (p.cryptRunning.toList ++ (p.ops ++ p.inbox))) :=
    (hops.append_left _).trans List.perm_middle
  exact (hcrypt.append_left _).trans List.perm_middle

theorem pending_inbox (s : Operation) (p : Pipeline) :
    { p with inbox := p.inbox ++ [s] }.pending.Perm (s :: p.pending) := by
  have hlast : { p with inbox := p.inbox ++ [s] }.pending = p.pending ++ [s] := by
    unfold pending
    simp only [List.append_assoc]
  rw [hlast]
  exact List.perm_append_singleton s p.pending

theorem Placed.insert (h : p.Placed) (hne : ∀ t ∈ p.ops, t.seq ≠ s.seq)
    (hlt : ∀ t ∈ p.inbox, s.seq < t.seq) : { p with ops := insertOp s p.ops }.Placed := by
  refine ⟨?_, h.ahead, h.sdmmc, h.crypt⟩
  obtain ⟨hops, hinbox, hbefore⟩ := List.pairwise_append.1 h.sorted
  refine List.pairwise_append.2 ⟨insertOp_sorted hops hne, hinbox, fun t ht u hu => ?_⟩
  rcases List.mem_cons.1 ((insertOp_perm hne).mem_iff.1 ht) with rfl | ht
  · exact hlt u hu
  · exact hbefore t ht u hu

theorem Placed.record (h : p.Placed) (es : List Event) : (p.record es).Placed :=
  ⟨h.sorted, h.ahead, fun s hs => (h.sdmmc s hs).imp_right fun h => h.mono es, h.crypt⟩

theorem Placed.without_sdmmc (h : p.Placed) : { p with sdmmcRunning := none }.Placed :=
  ⟨h.sorted, fun s hs => h.ahead s (List.mem_append_right _ hs), nofun, h.crypt⟩

theorem Placed.without_crypt (h : p.Placed) : { p with cryptRunning := none }.Placed := by
  refine ⟨h.sorted, fun s hs => h.ahead s (List.mem_append_left _ ?_), h.sdmmc, nofun⟩
  rwa [Option.toList_none, List.append_nil] at hs

theorem Placed.park (h : p.Placed) (hlt : ∀ t ∈ p.pending, t.seq < s.seq) :
    { p with inbox := p.inbox ++ [s] }.Placed := by
  refine ⟨?_, fun t ht u hu => ?_, h.sdmmc, h.crypt⟩
  · rw [← List.append_assoc]
    refine List.pairwise_append.2 ⟨h.sorted, List.pairwise_singleton _ _, fun t ht u hu => ?_⟩
    rw [List.mem_singleton.1 hu]
    exact hlt t (List.mem_append_right _ (List.mem_append_right _ ht))
  · rcases List.mem_append.1 hu with hu | hu
    · exact h.ahead t ht u hu
    · rw [List.mem_singleton.1 hu]
      refine hlt t ?_
      rw [pending, ← List.append_assoc]
      exact List.mem_append_left _ ht

/-- An admitted request is in flight, and does not stall the pipeline. -/
theorem Sound.admit (h : Sound E requests base n flash p) (hr : requests[n]? = some r) :
    ∃ p', (p.record (r.answered p.nextSeq)).admitOperation r.op r.range = some p' ∧
      Sound E requests base (n + 1) flash p' ∧ (¬ p.Stalled → ¬ p'.Stalled) := by
  obtain rfl := h.next
  obtain ⟨es, hes, hcancel⟩ : ∃ es : List Event, (∀ e ∈ es, e.seq? = none) ∧
      (if (p.record (r.answered p.nextSeq)).isIdle then
        (p.record (r.answered p.nextSeq)).record [.cancelIdle]
      else p.record (r.answered p.nextSeq)) = p.record (r.answered p.nextSeq ++ es) := by
    split
    · refine ⟨[.cancelIdle], fun e he => ?_, ?_⟩
      · rw [List.mem_singleton.1 he]
        rfl
      · unfold Pipeline.record
        rw [List.append_assoc]
    · exact ⟨[], fun e he => absurd he List.not_mem_nil, by rw [List.append_nil]⟩
  have hinFlight := (h.inFlight.request hr).record hes
  rw [List.append_assoc] at hinFlight
  have hbound := h.inFlight.bound
  have hplaced := h.placed.record (r.answered p.nextSeq ++ es)
  have hadmission : (p.record (r.answered p.nextSeq)).admitOperation r.op r.range =
      if p.inbox.isEmpty = false ∨ p.pipelineFull then
        { p.record (r.answered p.nextSeq ++ es) with
          nextSeq := p.nextSeq + 1, inbox := p.inbox ++ [Operation.mk p.nextSeq r.range r.op] }.tryAdvance
      else
        { p.record (r.answered p.nextSeq ++ es) with
          nextSeq := p.nextSeq + 1
          ops := insertOp ⟨p.nextSeq, r.range, r.op⟩ p.ops }.tryAdvance := by
    rw [admitOperation, hcancel]
    rfl
  rw [hadmission]
  split
  · next hpark =>
    have hsound : Sound E requests base (p.nextSeq + 1) flash
        { p.record (r.answered p.nextSeq ++ es) with
          nextSeq := p.nextSeq + 1, inbox := p.inbox ++ [Operation.mk p.nextSeq r.range r.op] } := by
      have hparked := hplaced.park (s := ⟨p.nextSeq, r.range, r.op⟩) hbound
      exact ⟨rfl, hinFlight.perm (pending_inbox _ p).symm, hparked.sorted, hparked.ahead,
        hparked.sdmmc, hparked.crypt⟩
    obtain ⟨p', hp', hsound', hstalled⟩ := hsound.tryAdvance
    refine ⟨p', hp', hsound', fun hno hyes => hno ?_⟩
    have hstrands := hstalled.1 hyes
    simp only [strands, Bool.and_eq_true, Option.isNone_iff_eq_none] at hstrands
    obtain ⟨⟨⟨⟨hsdmmc, hcrypt⟩, -⟩, -⟩, -⟩ := hstrands
    refine ⟨hsdmmc, hcrypt, ?_⟩
    rcases hpark with hinbox | hfull
    · exact .inr (List.isEmpty_eq_false_iff.1 hinbox)
    · refine .inl fun hnil => ?_
      change p.sdmmcRunning = none at hsdmmc
      change p.cryptRunning = none at hcrypt
      rw [pipelineFull, running, hsdmmc, hcrypt, hnil] at hfull
      cases hfull
  · next hroom =>
    rw [not_or, Bool.not_eq_false, List.isEmpty_iff] at hroom
    have hsound : Sound E requests base (p.nextSeq + 1) flash
        { p.record (r.answered p.nextSeq ++ es) with
          nextSeq := p.nextSeq + 1, ops := insertOp ⟨p.nextSeq, r.range, r.op⟩ p.ops } := by
      have hne : ∀ t ∈ p.ops, t.seq ≠ p.nextSeq := fun t ht => Nat.ne_of_lt (hbound t
        (List.mem_append_right _ (List.mem_append_right _ (List.mem_append_left _ ht))))
      have hnone : ∀ t ∈ p.inbox, p.nextSeq < t.seq := by
        rw [hroom.1]
        intro t ht
        cases ht
      have hinserted := hplaced.insert (s := ⟨p.nextSeq, r.range, r.op⟩) hne hnone
      exact ⟨rfl, hinFlight.perm (pending_insertOp (s := ⟨p.nextSeq, r.range, r.op⟩) hne).symm,
        hinserted.sorted, hinserted.ahead, hinserted.sdmmc, hinserted.crypt⟩
    obtain ⟨p', hp', hsound', hstalled⟩ := hsound.tryAdvance
    refine ⟨p', hp', hsound', fun _ hyes => ?_⟩
    have hstrands := hstalled.1 hyes
    simp only [strands, Pipeline.record, hroom.1, List.head?_nil, Option.any_none, Bool.and_false,
      Bool.false_and] at hstrands
    cases hstrands

end Pipeline

/-! ## 2. Completions -/

/-- The completion is the last one that the operation waits for. -/
def Operation.lastStep (s : Operation) : Bool :=
  match s.op with
  | .encReadSdmmc .. => false
  | .encReadCrypt _ offset _ => decide (s.range.bytes ≤ offset + (cryptSubOp s.range offset).len)
  | .encWriteCrypt .. => false
  | _ => true

/-- With the running operation, the last work leaves the channels, and only flushes and
transfers behind a flush move up. -/
def Pipeline.strandsOn (p : Pipeline) : Action → Bool
  | .request _ => false
  | .sdmmcDone => p.sdmmcRunning.any Operation.lastStep && { p with sdmmcRunning := none }.strands
  | .cryptDone => p.cryptRunning.any Operation.lastStep && { p with cryptRunning := none }.strands

theorem subrange_splice {buf data : List UInt8} (h : data.length ≤ buf.length)
    (hpos : 0 < data.length) : subrange (splice buf 0 data) 0 data.length = some data := by
  have hlength : (splice buf 0 data).length = buf.length :=
    length_splice (by rwa [Nat.zero_add])
  rw [subrange_of_le (by rwa [Nat.zero_add, hlength]) hpos, List.drop_zero, take_splice_zero h]

namespace Pipeline

/-- A finished operation leaves the pipeline. -/
theorem Sound.leave {es : List Event} (hnext : p.nextSeq = n)
    (hinFlight : InFlight E requests base n p.pending (p.log ++ es) flash) (hplaced : p.Placed) :
    ∃ p', (p.record es).tryAdvance = some p' ∧ Sound E requests base n flash p' ∧
      (p'.Stalled ↔ p.strands = true) :=
  Sound.tryAdvance (p := p.record es) ⟨hnext, hinFlight, hplaced.record es⟩

/-- An operation goes back to the queue for its next step. -/
theorem Sound.follow {es : List Event} (hnext : p.nextSeq = n)
    (hinFlight : InFlight E requests base n (s :: p.pending) (p.log ++ es) flash)
    (hplaced : p.Placed) (hlt : ∀ t ∈ p.inbox, s.seq < t.seq) (hflush : s.op.isFlush = false) :
    ∃ p', { p.record es with ops := insertOp s p.ops }.tryAdvance = some p' ∧
      Sound E requests base n flash p' ∧ ¬ p'.Stalled := by
  have hdistinct := hinFlight.distinct
  rw [List.map_cons, List.nodup_cons] at hdistinct
  have hne : ∀ t ∈ p.ops, t.seq ≠ s.seq := fun t ht heq => hdistinct.1 <| List.mem_map.2
    ⟨t, List.mem_append_right _ (List.mem_append_right _ (List.mem_append_left _ ht)), heq⟩
  have hsound : Sound E requests base n flash { p.record es with ops := insertOp s p.ops } :=
    ⟨hnext, hinFlight.perm (pending_insertOp hne).symm, (hplaced.record es).insert hne hlt⟩
  obtain ⟨p', hp', hsound, hstalled⟩ := hsound.tryAdvance
  refine ⟨p', hp', hsound, fun hyes => ?_⟩
  have hstrands := hstalled.1 hyes
  simp only [strands, Bool.and_eq_true, List.all_eq_true] at hstrands
  have := hstrands.1.1.2 s ((insertOp_perm hne).mem_iff.2 (.head _))
  rw [hflush] at this
  cases this

theorem onSdmmcDone_plainRead {dmaBuf : DmaBuf} {deferred : Deferred}
    (hop : s.op = .plainReadSdmmc dmaBuf deferred) (hpos : 0 < s.range.bytes)
    (hlen : s.range.bytes ≤ deferred.buf.length)
    (howned : ∀ buf, dmaBuf = .owned buf → s.range.bytes ≤ buf.length) :
    { p with sdmmcRunning := some (s.fillBuffer flash) }.onSdmmcDone 0 =
      ({ p with sdmmcRunning := none }.record
        [.respond s.seq (readFlash flash s.range), .released s.seq]).tryAdvance := by
  have hlength := length_readFlash flash s.range
  have hfilled : ∀ buf : List UInt8, s.range.bytes ≤ buf.length →
      subrange (splice buf 0 (readFlash flash s.range)) 0 s.range.bytes =
        some (readFlash flash s.range) := fun buf hbuf => by
    rw [← hlength] at hbuf hpos
    rw [← hlength]
    exact subrange_splice hbuf hpos
  cases dmaBuf with
  | owned buf =>
    have hcaller := subrange_of_le (by rwa [Nat.zero_add] : 0 + s.range.bytes ≤ _) hpos
    have hbounce := hfilled buf (howned buf rfl)
    simp only [Operation.fillBuffer, hop, Pipeline.onSdmmcDone, hcaller, hbounce]
    rfl
  | borrowed =>
    have hcaller := hfilled deferred.buf hlen
    simp only [Operation.fillBuffer, hop, Pipeline.onSdmmcDone, hcaller]
    rfl

theorem onSdmmcDone_encRead {ciphertext : List UInt8} {deferred : Deferred}
    (hop : s.op = .encReadSdmmc ciphertext deferred) :
    { p with sdmmcRunning := some (s.fillBuffer flash) }.onSdmmcDone 0 =
      { p with
        sdmmcRunning := none
        ops := insertOp ⟨s.seq, s.range,
          .encReadCrypt (splice ciphertext 0 (readFlash flash s.range)) 0 deferred⟩ p.ops
      }.tryAdvance := by
  simp only [Operation.fillBuffer, hop, Pipeline.onSdmmcDone]
  rfl

theorem onSdmmcDone_write (hop : s.op.isAnswered = true) :
    { p with sdmmcRunning := some (s.fillBuffer flash) }.onSdmmcDone 0 =
      ({ p with sdmmcRunning := none }.record [.released s.seq]).tryAdvance := by
  cases hs : s.op with
  | plainWriteSdmmc =>
    simp only [Operation.fillBuffer, hs, Pipeline.onSdmmcDone]
    rfl
  | encWriteSdmmc =>
    simp only [Operation.fillBuffer, hs, Pipeline.onSdmmcDone]
    rfl
  | _ =>
    rw [hs] at hop
    cases hop

theorem lastStep_of_isAnswered (hop : s.op.isAnswered = true) : s.lastStep = true := by
  unfold Operation.lastStep
  cases hs : s.op with
  | encReadSdmmc => exact absurd (hs ▸ hop) nofun
  | encReadCrypt => exact absurd (hs ▸ hop) nofun
  | encWriteCrypt => exact absurd (hs ▸ hop) nofun
  | _ => rfl

/-- The transfer of the running operation is done. -/
theorem Sound.onSdmmcDone (h : Sound E requests base n flash p) (hrun : p.sdmmcRunning = some s) :
    ∃ p', { p with sdmmcRunning := some (s.fillBuffer flash) }.onSdmmcDone 0 = some p' ∧
      Sound E requests base n (s.flashUpdate.apply flash) p' ∧
      (p'.Stalled ↔ (s.lastStep && { p with sdmmcRunning := none }.strands) = true) := by
  have hinFlight : InFlight E requests base n (s :: { p with sdmmcRunning := none }.pending)
      p.log flash := by
    have := h.inFlight
    rwa [pending, hrun] at this
  have hplaced := h.placed.without_sdmmc
  obtain ⟨hstep, hstarted⟩ := h.placed.sdmmc s hrun
  obtain ⟨r, hr, hrange, hphase⟩ := hinFlight.phase s (.head _)
  have hreads := hinFlight.reads (.head _) hstarted
  have hadmits := r.admits
  by_cases hanswered : s.op.isAnswered = true
  · have hwritten := hinFlight.written hanswered hstarted
    rw [onSdmmcDone_write hanswered, lastStep_of_isAnswered hanswered, Bool.true_and]
    exact Sound.leave h.next hwritten hplaced
  cases hphase with
  | plainRead hrop hop =>
    rw [hrop, ← hrange] at hadmits
    obtain ⟨⟨hpos, -⟩, hlen, howned⟩ := hadmits
    have hanswer := hinFlight.answer (by rw [hop]; rfl) hr
      (fun _ => by rw [Request.update, hrop]; rfl)
      (by rw [Request.answer, hrop, hreads, hrange] : readFlash flash s.range = _)
      (by rw [hrop]; intro h; cases h)
    have hlast : s.lastStep = true := by rw [Operation.lastStep, hop]
    have hflash : s.flashUpdate.apply flash = flash := by
      rw [Operation.flashUpdate, hop]
      rfl
    rw [onSdmmcDone_plainRead hop (Nat.mul_pos hpos (by decide)) hlen howned, hlast, Bool.true_and,
      hflash]
    exact Sound.leave h.next hanswer hplaced
  | @encRead ciphertext deferred hrop hop =>
    rw [hrop, ← hrange] at hadmits
    obtain ⟨⟨hpos, -⟩, hlen, hlen'⟩ := hadmits
    have hlast : s.lastStep = false := by rw [Operation.lastStep, hop]
    have hflash : s.flashUpdate.apply flash = flash := by
      rw [Operation.flashUpdate, hop]
      rfl
    rw [onSdmmcDone_encRead hop, hlast, hflash]
    have hlength := length_readFlash flash s.range
    rw [← hlength] at hlen'
    have hread : (splice ciphertext 0 (readFlash flash s.range)).take s.range.bytes =
        readFlash (serialFlash E requests base s.seq) s.range := by
      rw [← hreads, ← hlength]
      exact take_splice_zero hlen'
    have hfilled : s.range.bytes ≤ (splice ciphertext 0 (readFlash flash s.range)).length := by
      rw [length_splice (by rwa [Nat.zero_add]), ← hlength]
      exact hlen'
    obtain ⟨s', hs'⟩ : ∃ s' : Operation, s' = ⟨s.seq, s.range,
      .encReadCrypt (splice ciphertext 0 (readFlash flash s.range)) 0 deferred⟩ := ⟨_, rfl⟩
    have hphase : ∀ r', requests[s.seq]? = some r' →
        Phase E (serialFlash E requests base s.seq) r' s' := by
      intro r' hr'
      cases hr.symm.trans hr'
      rw [hs']
      exact .decrypting hrop rfl hread (.start hpos hfilled hlen)
    have hchanged := hinFlight.change (hs' ▸ rfl) (hs' ▸ rfl) hphase (by rw [hop, hs']; rfl)
    rw [← List.append_nil p.log] at hchanged
    have hlt : ∀ t ∈ p.inbox, s'.seq < t.seq := by
      rw [hs']
      exact h.placed.ahead s (by rw [hrun]; exact .head _)
    obtain ⟨p', hp', hsound, hstalled⟩ :=
      Sound.follow (p := { p with sdmmcRunning := none }) h.next hchanged hplaced hlt (hs' ▸ rfl)
    refine ⟨p', ?_, hsound, fun hyes => absurd hyes hstalled, (by intro h; cases h)⟩
    rw [← hp', ← hs', Pipeline.record, List.append_nil]
  | plainWrite _ hop => exact absurd (hop ▸ rfl) hanswered
  | encWrite _ hop => exact absurd (hop ▸ rfl) hanswered
  | decrypting _ hop => exact absurd (hop ▸ hstep) (by intro h; cases h)
  | encrypting _ hop => exact absurd (hop ▸ hstep) (by intro h; cases h)
  | flush _ hop => exact absurd (hop ▸ hstep) (by intro h; cases h)

theorem onDiskEncryptComplete_decrypt {ciphertext : List UInt8} {offset : Nat}
    {deferred : Deferred} (hop : s.op = .encReadCrypt ciphertext offset deferred) :
    { p with cryptRunning := some (s.crypted E) }.onDiskEncryptComplete =
      let offset' := offset + (cryptSubOp s.range offset).len
      let plaintext := cryptInto E .decrypt s.range ciphertext deferred.buf offset
      if offset' < s.range.bytes then
        { p with cryptRunning := none }.runCrypt
          ⟨s.seq, s.range, .encReadCrypt ciphertext offset' ⟨plaintext⟩⟩
      else (subrange plaintext 0 s.range.bytes).bind fun data =>
        ({ p with cryptRunning := none }.record
          [.respond s.seq data, .released s.seq]).tryAdvance := by
  simp only [Operation.crypted, hop, Pipeline.onDiskEncryptComplete]
  rfl

theorem onDiskEncryptComplete_encrypt {ciphertext : List UInt8} {offset : Nat}
    {deferred : Deferred} (hop : s.op = .encWriteCrypt ciphertext offset deferred) :
    { p with cryptRunning := some (s.crypted E) }.onDiskEncryptComplete =
      let offset' := offset + (cryptSubOp s.range offset).len
      let ciphertext' := cryptInto E .encrypt s.range deferred.buf ciphertext offset
      if offset' < s.range.bytes then
        { p with cryptRunning := none }.runCrypt
          ⟨s.seq, s.range, .encWriteCrypt ciphertext' offset' deferred⟩
      else
        { { p with cryptRunning := none }.record [.respond s.seq []] with
          ops := insertOp ⟨s.seq, s.range, .encWriteSdmmc ciphertext'⟩ p.ops }.tryAdvance := by
  simp only [Operation.crypted, hop, Pipeline.onDiskEncryptComplete]
  rfl

/-- The crypt channel goes on with the next sub-op. -/
theorem Sound.goOn (h : Sound E requests base n flash p) (hrun : p.cryptRunning = some s)
    (hchanged : InFlight E requests base n (s' :: { p with cryptRunning := none }.pending) p.log
      flash) (hseq : s'.seq = s.seq) (hstep : s'.op.isCryptStep = true) :
    ∃ p', { p with cryptRunning := none }.runCrypt s' = some p' ∧
      Sound E requests base n flash p' ∧ ¬ p'.Stalled := by
  obtain ⟨r, -, -, hphase⟩ := hchanged.phase s' (.head _)
  obtain ⟨tweak, j, dir, len, hp'⟩ := runCrypt_eq { p with cryptRunning := none } hphase hstep
  have hperm : (s' :: { p with cryptRunning := none }.pending).Perm
      { p with cryptRunning := some s' }.pending := List.perm_middle.symm
  have hplaced := h.placed.without_crypt.record [.diskEncrypt s'.seq tweak j dir len]
  have ahead : ∀ t ∈ p.sdmmcRunning.toList ++ [s'], ∀ u ∈ p.inbox, t.seq < u.seq := by
    intro t ht u hu
    rcases List.mem_append.1 ht with ht | ht
    · exact h.placed.ahead t (List.mem_append_left _ ht) u hu
    · rw [List.mem_singleton.1 ht, hseq]
      exact h.placed.ahead s (List.mem_append_right _ (by rw [hrun]; exact .head _)) u hu
  refine ⟨_, hp', ⟨h.next, (hchanged.crypt tweak j dir len).perm hperm, hplaced.sorted, ahead,
    hplaced.sdmmc, ?_⟩, fun hstalled => nomatch hstalled.2.1⟩
  rintro _ ⟨⟩
  exact hstep

/-- The sub-op of the running operation is done. -/
theorem Sound.onDiskEncryptComplete (h : Sound E requests base n flash p)
    (hrun : p.cryptRunning = some s) :
    ∃ p', { p with cryptRunning := some (s.crypted E) }.onDiskEncryptComplete = some p' ∧
      Sound E requests base n flash p' ∧
      (p'.Stalled ↔ (s.lastStep && { p with cryptRunning := none }.strands) = true) := by
  have hinFlight : InFlight E requests base n (s :: { p with cryptRunning := none }.pending)
      p.log flash := by
    refine h.inFlight.perm ?_
    rw [pending, hrun]
    exact List.perm_middle
  have hplaced := h.placed.without_crypt
  have hstep := h.placed.crypt s hrun
  obtain ⟨r, hr, hrange, hphase⟩ := hinFlight.phase s (.head _)
  cases hphase with
  | @decrypting ciphertext₀ ciphertext _ deferred offset hrop hop hread hcrypt =>
    obtain ⟨hdst, hmore, hdone⟩ := hcrypt.next
    rw [onDiskEncryptComplete_decrypt hop]
    dsimp only
    split
    · next hlt =>
      obtain ⟨s', hs'⟩ : ∃ s' : Operation, s' = ⟨s.seq, s.range, .encReadCrypt ciphertext
        (offset + (cryptSubOp s.range offset).len)
        ⟨cryptInto E .decrypt s.range ciphertext deferred.buf offset⟩⟩ := ⟨_, rfl⟩
      have hphase : ∀ r', requests[s.seq]? = some r' →
          Phase E (serialFlash E requests base s.seq) r' s' := by
        intro r' hr'
        cases hr.symm.trans hr'
        rw [hs']
        exact .decrypting hrop rfl hread (hmore hlt)
      have hchanged := hinFlight.change (hs' ▸ rfl) (hs' ▸ rfl) hphase (by rw [hop, hs']; rfl)
      obtain ⟨p', hp', hsound, hstalled⟩ := h.goOn hrun hchanged (hs' ▸ rfl) (hs' ▸ rfl)
      have hlast : s.lastStep = false := by
        rw [Operation.lastStep, hop]
        exact decide_eq_false (Nat.not_le.2 hlt)
      rw [← hs', hlast]
      exact ⟨p', hp', hsound, fun hyes => absurd hyes hstalled, (by intro h; cases h)⟩
    · next hge =>
      have hbytes := Nat.not_lt.1 hge
      have hplain : subrange (cryptInto E .decrypt s.range ciphertext deferred.buf offset) 0
          s.range.bytes = some (cryptFrom E .decrypt s.range ciphertext 0) := by
        rw [← hdone hbytes, subrange_of_le (by rwa [Nat.zero_add]) (Nat.zero_lt_of_lt hcrypt.lt),
          List.drop_zero]
      have hanswer : cryptFrom E .decrypt s.range ciphertext 0 =
          r.answer E (serialFlash E requests base s.seq) := by
        rw [Request.answer, hrop]
        dsimp only
        rw [← hrange]
        refine cryptFrom_congr ?_ 0 rfl
        rw [hread, List.take_of_length_le (Nat.le_of_eq (length_readFlash _ _))]
      have hlast : s.lastStep = true := by
        rw [Operation.lastStep, hop]
        exact decide_eq_true hbytes
      have hanswered := hinFlight.answer (by rw [hop]; rfl) hr
        (fun _ => by rw [Request.update, hrop]; rfl) hanswer (by rw [hrop]; intro h; cases h)
      rw [hplain, Option.bind_some, hlast, Bool.true_and]
      exact Sound.leave h.next hanswered hplaced
  | @encrypting ciphertext₀ ciphertext deferred offset₀ offset hrop hop hcrypt =>
    obtain ⟨hdst, hmore, hdone⟩ := hcrypt.next
    have hlast : s.lastStep = false := by rw [Operation.lastStep, hop]
    rw [onDiskEncryptComplete_encrypt hop, hlast]
    dsimp only
    split
    · next hlt =>
      obtain ⟨s', hs'⟩ : ∃ s' : Operation, s' = ⟨s.seq, s.range, .encWriteCrypt
        (cryptInto E .encrypt s.range deferred.buf ciphertext offset)
        (offset + (cryptSubOp s.range offset).len) deferred⟩ := ⟨_, rfl⟩
      have hphase : ∀ r', requests[s.seq]? = some r' →
          Phase E (serialFlash E requests base s.seq) r' s' := by
        intro r' hr'
        cases hr.symm.trans hr'
        rw [hs']
        exact .encrypting hrop rfl (hmore hlt)
      have hchanged := hinFlight.change (hs' ▸ rfl) (hs' ▸ rfl) hphase (by rw [hop, hs']; rfl)
      obtain ⟨p', hp', hsound, hstalled⟩ := h.goOn hrun hchanged (hs' ▸ rfl) (hs' ▸ rfl)
      rw [← hs']
      exact ⟨p', hp', hsound, fun hyes => absurd hyes hstalled, (by intro h; cases h)⟩
    · next hge =>
      obtain ⟨s', hs'⟩ : ∃ s' : Operation, s' = ⟨s.seq, s.range, .encWriteSdmmc
        (cryptInto E .encrypt s.range deferred.buf ciphertext offset)⟩ := ⟨_, rfl⟩
      have hphase : ∀ r', requests[s.seq]? = some r' →
          Phase E (serialFlash E requests base s.seq) r' s' ∧ r'.op ≠ .flush ∧
            ∀ flash, r'.answer E flash = [] := by
        intro r' hr'
        cases hr.symm.trans hr'
        refine ⟨?_, (by rw [hrop]; intro h; cases h), fun _ => by rw [Request.answer, hrop]⟩
        rw [hs']
        exact .encWrite hrop rfl hdst (hdone (Nat.not_lt.1 hge))
      have hchanged := hinFlight.answerEarly (hs' ▸ rfl) (hs' ▸ rfl) hphase (by rw [hop]; rfl)
        (hs' ▸ rfl)
      have hlt : ∀ t ∈ p.inbox, s'.seq < t.seq := by
        rw [hs']
        exact h.placed.ahead s (List.mem_append_right _ (by rw [hrun]; exact .head _))
      obtain ⟨p', hp', hsound, hstalled⟩ :=
        Sound.follow (p := { p with cryptRunning := none }) h.next hchanged hplaced hlt (hs' ▸ rfl)
      rw [← hs']
      exact ⟨p', hp', hsound, fun hyes => absurd hyes hstalled, (by intro h; cases h)⟩
  | plainRead _ hop => exact absurd (hop ▸ hstep) (by intro h; cases h)
  | encRead _ hop => exact absurd (hop ▸ hstep) (by intro h; cases h)
  | plainWrite _ hop => exact absurd (hop ▸ hstep) (by intro h; cases h)
  | encWrite _ hop => exact absurd (hop ▸ hstep) (by intro h; cases h)
  | flush _ hop => exact absurd (hop ▸ hstep) (by intro h; cases h)

end Pipeline

end Emmc
