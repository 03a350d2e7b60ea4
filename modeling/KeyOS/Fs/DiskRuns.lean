import KeyOS.Fs.DiskCache

/-!
# Runs of a disk

A run of calls, any access to the device failing, treats what is stored as plain memory, up to a
call that gives up a dirty block and cannot write it out. That call loses the block.
-/

namespace Fs

open Exec Prog

namespace Disk

variable {C : Type} {L : BoundedCache C CachedBlock} {m m' : Nat → Block} {pos len n : Nat}
  {p : PartitionInfo} {s s' : Disk C} {i j : Nat} {A : Missing → Prop}

/-! ## 1. Where an access goes -/

theorem place_bulk (h : s.place n = .bulk i len) :
    i = blockOf s.partitionInfo s.pos ∧ s.pos % BLOCK_SIZE = 0 ∧ len ≤ n ∧
      len / BLOCK_SIZE * BLOCK_SIZE = len := by
  unfold place at h
  split at h
  · cases h
  · dsimp only at h
    split at h
    next haligned =>
      cases h
      refine ⟨rfl, haligned.1, ?_, ?_⟩
      · exact Nat.le_trans (Nat.div_mul_le_self _ _) (Nat.min_le_left _ _)
      · rw [Nat.mul_div_cancel _ (by decide)]
    · cases h

theorem place_cached {offset : Nat} (h : s.place n = .cached i offset len) :
    i = blockOf s.partitionInfo s.pos ∧ offset = s.pos % BLOCK_SIZE ∧ offset + len ≤ BLOCK_SIZE ∧
      len ≤ n ∧ (offset ≠ 0 ∨ len ≠ BLOCK_SIZE) := by
  unfold place at h
  split at h
  · cases h
  · dsimp only at h
    split at h
    · cases h
    next hpart =>
      cases h
      have hmod : s.pos % BLOCK_SIZE < BLOCK_SIZE := Nat.mod_lt _ (by decide)
      refine ⟨rfl, rfl, by omega, by omega, ?_⟩
      by_cases hzero : s.pos % BLOCK_SIZE = 0
      · refine .inr fun hlen => hpart ⟨hzero, ?_⟩
        omega
      · exact .inl hzero

/-- The blocks of an access of whole blocks are in a row. -/
theorem blockOf_bulk (haligned : pos % BLOCK_SIZE = 0) {k c : Nat} (hk : k / BLOCK_SIZE < c)
    (hfits : blockOf p pos + c < 2 ^ 32) :
    blockOf p (pos + k) = blockOf p pos + k / BLOCK_SIZE ∧
      (pos + k) % BLOCK_SIZE = k % BLOCK_SIZE := by
  have hdiv : (pos + k) / BLOCK_SIZE = pos / BLOCK_SIZE + k / BLOCK_SIZE := by
    unfold BLOCK_SIZE at haligned ⊢
    omega
  constructor
  · have hsum : blockOf p (pos + k) = (blockOf p pos + k / BLOCK_SIZE) % 2 ^ 32 := by
      unfold blockOf
      rw [hdiv, Nat.add_mod_mod, Nat.add_mod_mod, Nat.mod_add_mod, Nat.add_assoc]
    rw [hsum, Nat.mod_eq_of_lt (by omega)]
  · rw [Nat.add_mod, haligned, Nat.zero_add, Nat.mod_mod]

theorem blockOf_cached (p : PartitionInfo) (pos : Nat) {k : Nat} (hk : pos % BLOCK_SIZE + k < BLOCK_SIZE) :
    blockOf p (pos + k) = blockOf p pos ∧ (pos + k) % BLOCK_SIZE = pos % BLOCK_SIZE + k := by
  unfold blockOf
  unfold BLOCK_SIZE at hk ⊢
  have hdiv : (pos + k) / 512 = pos / 512 := by omega
  exact ⟨by rw [hdiv], by omega⟩

def Call.place (call : Call) (s : Disk C) : Place :=
  match call with
  | .read bufLen => s.place bufLen
  | .write buf => s.place buf.length
  | _ => .outside

/-- The end of the range of blocks is a `u32`. -/
def Fits (s : Disk C) (call : Call) : Prop :=
  ∀ i len, call.place s = .bulk i len → i + len / BLOCK_SIZE < 2 ^ 32

/-- The call gives up a dirty block that cannot be written out. -/
def GivesUp (L : BoundedCache C CachedBlock) (s : Disk C) (call : Call) (j : Nat) : Prop :=
  ∃ i offset len block, call.place s = .cached i offset len ∧ Evicts L s i j block

/-- The block that is given up held something, outside the bytes that the call asked for, that the
device does not. -/
def Loses (L : BoundedCache C CachedBlock) (s : Disk C) (t : Step) : Prop :=
  ∃ j, GivesUp L (s.withFaults t.faults) t.call j ∧ ∃ o < BLOCK_SIZE,
    ¬ Touches s.partitionInfo s.pos t.call.len j o ∧ s.blockDevice.blocks j o ≠ content L s j o

theorem GivesUp.unique {call : Call} {k : Nat} (hj : GivesUp L s call j) (hk : GivesUp L s call k) :
    j = k := by
  obtain ⟨_, _, _, _, hplace, hevicts⟩ := hj
  obtain ⟨_, _, _, _, hplace', hevicts'⟩ := hk
  cases hplace.symm.trans hplace'
  cases hevicts.victim.symm.trans hevicts'.victim
  rfl

/-! ## 2. The calls -/

/-- `m'` is `m` with bytes written at a position. -/
def Written (p : PartitionInfo) (pos len : Nat) (buf : List UInt8) (m m' : Nat → Block) : Prop :=
  (∀ k < len, m' (blockOf p (pos + k)) ((pos + k) % BLOCK_SIZE) = buf.getD k 0) ∧
    ∀ i o, o < BLOCK_SIZE → ¬ Touches p pos len i o → m' i o = m i o

/-- What a call that succeeds answers, and what is stored then -/
def Answered (L : BoundedCache C CachedBlock) (m : Nat → Block) (pos : Nat) (p : PartitionInfo)
    (call : Call) (s : Disk C) : Answer → Prop
  | .position _ => ∃ q, Stores L m q p s
  | .bytes buf => (∃ q, Stores L m q p s) ∧ ∀ k < buf.length,
      buf.getD k 0 = m (blockOf p (pos + k)) ((pos + k) % BLOCK_SIZE)
  | .written len => ∃ buf m', call = .write buf ∧ (∃ q, Stores L m' q p s) ∧
      Written p pos len buf m m'
  | .flushed => Stores L m pos p s ∧ ∀ i, Synced m s i

theorem Stores.advanced (h : Stores L m pos p s) (q : Nat) : Stores L m q p { s with pos := q } :=
  ⟨fun j => Held.kept (h.held j) rfl rfl, rfl, h.partition_eq⟩

theorem seek_triple (sought : SeekFrom) :
    Triple (Stores L m pos p) (seek sought) (fun _ s => ∃ q, Stores L m q p s)
      (fun _ => Stores L m pos p) A := by
  have hmove : ∀ q : Nat, Triple (Stores L m pos p)
      (do
        Prog.modify fun s : Disk C => { s with pos := q }
        Pure.pure q : DiskM C Nat)
      (fun _ s => ∃ q, Stores L m q p s) (fun _ => Stores L m pos p) A := fun q =>
    Triple.bind (Triple.modify (Q := fun _ s => ∃ q, Stores L m q p s)
      fun s hs => ⟨q, hs.advanced q⟩) fun _ => Triple.pure fun _ => id
  refine Triple.get_bind fun s hs => ?_
  have hpre : ∀ t, t = s → Stores L m pos p t := fun t ht => ht ▸ hs
  cases sought with
  | start offset => exact (hmove offset).pre hpre
  | fromEnd offset =>
    refine Triple.bind (Triple.okOr (Q := fun _ => Stores L m pos p) (fun _ _ => hpre)
      fun _ => hpre) hmove
  | current offset =>
    refine Triple.bind (Triple.okOr (Q := fun _ => Stores L m pos p) (fun _ _ => hpre)
      fun _ => hpre) hmove

/-- The position moves on, past bytes of which something is known. -/
theorem advance_triple {R : Prop} (len : Nat) :
    Triple (fun s => Stores L m pos p s ∧ R) (advance len)
      (fun _ s => (∃ q, Stores L m q p s) ∧ R) (fun _ => Stores L m' pos p) A :=
  Triple.modify fun s hs => ⟨⟨s.pos + len, hs.1.advanced _⟩, hs.2⟩

theorem getD_map_range (f : Nat → UInt8) {k : Nat} (hk : k < len) :
    ((List.range len).map f).getD k 0 = f k := by
  simp [List.getD, hk]

/-- The state a call starts in, for a call that does not give up a block -/
structure Starts (L : BoundedCache C CachedBlock) (m : Nat → Block) (pos : Nat) (p : PartitionInfo)
    (call : Call) (s : Disk C) : Prop where
  stores : Stores L m pos p s
  fits : Fits s call
  keeps : ∀ j, ¬ GivesUp L s call j

theorem read_triple (bufLen : Nat) :
    Triple (Starts L m pos p (.read bufLen)) (read L bufLen)
      (fun buf s => (∃ q, Stores L m q p s) ∧ ∀ k < buf.length,
        buf.getD k 0 = m (blockOf p (pos + k)) ((pos + k) % BLOCK_SIZE))
      (fun _ => Stores L m pos p) A := by
  refine Triple.get_bind fun s hs => ?_
  obtain ⟨hstores, hfits, hkeeps⟩ := hs
  obtain ⟨-, rfl, rfl⟩ := id hstores
  split
  next =>
    refine Triple.pure fun t ht => ?_
    subst ht
    exact ⟨⟨_, hstores⟩, fun k hk => absurd hk (Nat.not_lt_zero k)⟩
  next i len hplace =>
    obtain ⟨rfl, haligned, -, hwhole⟩ := place_bulk hplace
    have hend := hfits _ len hplace
    refine Triple.bind ((readBlocks_triple hend).pre
      fun t ht => ht ▸ hstores) fun buf => ?_
    refine Triple.bind (advance_triple len) fun _ => Triple.pure fun t ht => ⟨ht.1, fun k hk => ?_⟩
    rw [List.length_map, List.length_range] at hk
    have hblock : k / BLOCK_SIZE < len / BLOCK_SIZE :=
      Nat.div_lt_of_lt_mul (by rw [Nat.mul_comm, hwhole]; exact hk)
    obtain ⟨hdiv, hmod⟩ := blockOf_bulk haligned hblock hend
    rw [getD_map_range _ hk, hdiv, hmod]
    exact ht.2 k (hwhole.symm ▸ hk)
  next i offset len hplace =>
    obtain ⟨rfl, rfl, hwithin, -, -⟩ := place_cached hplace
    refine Triple.bind ((cachedBlock_triple (blockOf s.partitionInfo s.pos)).pre fun t ht => ?_) fun block => ?_
    · subst ht
      exact ⟨hstores, fun j block h => hkeeps j ⟨_, _, _, block, hplace, h⟩⟩
    · have hdata : ∀ t, Stores L m s.pos s.partitionInfo t ∧
          L.get t.blockCache (blockOf s.partitionInfo s.pos) = some block →
          Stores L m s.pos s.partitionInfo t ∧
            ∀ o < BLOCK_SIZE, block.data o = m (blockOf s.partitionInfo s.pos) o :=
        fun t ht => ⟨ht.1, fun o ho => (ht.1.held _).data_eq ht.2 ho⟩
      refine Triple.bind ((advance_triple len).pre hdata) fun _ =>
        Triple.pure fun t ht => ⟨ht.1, fun k hk => ?_⟩
      rw [List.length_map, List.length_range] at hk
      have hoffset : s.pos % BLOCK_SIZE + k < BLOCK_SIZE := by omega
      obtain ⟨hdiv, hmod⟩ := blockOf_cached s.partitionInfo s.pos hoffset
      rw [getD_map_range _ hk, hdiv, hmod]
      exact ht.2 _ hoffset

theorem overwrittenWith_written {buf : List UInt8} (haligned : pos % BLOCK_SIZE = 0)
    (hwhole : len / BLOCK_SIZE * BLOCK_SIZE = len)
    (hend : blockOf p pos + len / BLOCK_SIZE < 2 ^ 32) :
    Written p pos len buf m
      (overwrittenWith m (blockOf p pos) (len / BLOCK_SIZE) fun k => buf.getD k 0) := by
  have hsplit : ∀ k, k / BLOCK_SIZE * BLOCK_SIZE + k % BLOCK_SIZE = k := fun k => by
    rw [Nat.mul_comm]
    exact Nat.div_add_mod k _
  constructor
  · intro k hk
    have hblock : k / BLOCK_SIZE < len / BLOCK_SIZE :=
      Nat.div_lt_of_lt_mul (by rw [Nat.mul_comm, hwhole]; exact hk)
    obtain ⟨hdiv, hmod⟩ := blockOf_bulk haligned hblock hend
    have hrange : blockOf p pos ≤ blockOf p pos + k / BLOCK_SIZE ∧
        blockOf p pos + k / BLOCK_SIZE < blockOf p pos + len / BLOCK_SIZE :=
      ⟨Nat.le_add_right _ _, Nat.add_lt_add_left hblock _⟩
    rw [hdiv, hmod, overwrittenWith, if_pos hrange, Nat.add_sub_cancel_left, hsplit]
  · intro i o ho hout
    refine if_neg fun hrange => hout ⟨(i - blockOf p pos) * BLOCK_SIZE + o, ?_, ?_⟩
    · have hlt : i - blockOf p pos + 1 ≤ len / BLOCK_SIZE := by omega
      have hmul := Nat.mul_le_mul_right BLOCK_SIZE hlt
      rw [hwhole, Nat.add_mul, Nat.one_mul] at hmul
      omega
    · have hdivo : ((i - blockOf p pos) * BLOCK_SIZE + o) / BLOCK_SIZE = i - blockOf p pos := by
        rw [Nat.mul_comm, Nat.mul_add_div (by decide), Nat.div_eq_of_lt ho, Nat.add_zero]
      have hmodo : ((i - blockOf p pos) * BLOCK_SIZE + o) % BLOCK_SIZE = o := by
        rw [Nat.mul_comm, Nat.mul_add_mod, Nat.mod_eq_of_lt ho]
      have hblock : ((i - blockOf p pos) * BLOCK_SIZE + o) / BLOCK_SIZE < len / BLOCK_SIZE := by
        rw [hdivo]
        omega
      obtain ⟨hdiv, hmod⟩ := blockOf_bulk haligned hblock hend
      rw [hdiv, hmod, hdivo, hmodo]
      exact ⟨by omega, rfl⟩

/-- What is stored once bytes of one block are assigned -/
def assignedWith (m : Nat → Block) (i offset len : Nat) (buf : List UInt8) : Nat → Block := fun j o =>
  if j = i ∧ offset ≤ o ∧ o < offset + len then buf.getD (o - offset) 0 else m j o

theorem assignedWith_written {buf : List UInt8} (hwithin : pos % BLOCK_SIZE + len ≤ BLOCK_SIZE) :
    Written p pos len buf m (assignedWith m (blockOf p pos) (pos % BLOCK_SIZE) len buf) := by
  constructor
  · intro k hk
    obtain ⟨hdiv, hmod⟩ := blockOf_cached p pos (k := k) (by omega)
    rw [hdiv, hmod, assignedWith, if_pos ⟨rfl, by omega, by omega⟩, Nat.add_sub_cancel_left]
  · intro i o ho hout
    refine if_neg fun hrange => hout ⟨o - pos % BLOCK_SIZE, by omega, ?_⟩
    obtain ⟨hdiv, hmod⟩ := blockOf_cached p pos (k := o - pos % BLOCK_SIZE) (by omega)
    rw [hdiv, hmod]
    exact ⟨hrange.1.symm, by omega⟩

theorem write_triple (buf : List UInt8) :
    Triple (Starts L m pos p (.write buf)) (write L buf)
      (fun len s => ∃ m', (∃ q, Stores L m' q p s) ∧ Written p pos len buf m m')
      (fun _ => Stores L m pos p) A := by
  refine Triple.get_bind fun s hs => ?_
  obtain ⟨hstores, hfits, hkeeps⟩ := hs
  obtain ⟨-, rfl, rfl⟩ := id hstores
  split
  next =>
    refine Triple.pure fun t ht => ?_
    subst ht
    exact ⟨m, ⟨_, hstores⟩, fun k hk => absurd hk (Nat.not_lt_zero k), fun _ _ _ _ => rfl⟩
  next i len hplace =>
    obtain ⟨rfl, haligned, -, hwhole⟩ := place_bulk hplace
    have hend := hfits _ len hplace
    refine Triple.bind ((writeBlocks_triple hend).pre fun t ht => ht ▸ hstores) fun _ => ?_
    refine Triple.bind ((advance_triple (R := True) len).pre fun t ht => ⟨ht, trivial⟩) fun _ =>
      Triple.pure fun t ht => ⟨_, ht.1, overwrittenWith_written haligned hwhole hend⟩
  next i offset len hplace =>
    obtain ⟨rfl, rfl, hwithin, -, hpart⟩ := place_cached hplace
    rw [decide_eq_true hpart]
    refine Triple.bind ((cachedBlock_triple (blockOf s.partitionInfo s.pos)).pre fun t ht => ?_) fun block => ?_
    · subst ht
      exact ⟨hstores, fun j block h => hkeeps j ⟨_, _, _, block, hplace, h⟩⟩
    · have hassign : Triple (fun t => Stores L m s.pos s.partitionInfo t ∧
            L.get t.blockCache (blockOf s.partitionInfo s.pos) = some block)
          (assign L (blockOf s.partitionInfo s.pos)
            { data := fun o =>
                if s.pos % BLOCK_SIZE ≤ o ∧ o < s.pos % BLOCK_SIZE + len then
                  buf.getD (o - s.pos % BLOCK_SIZE) 0
                else block.data o
              dirty := true })
          (fun _ t => Stores L (assignedWith m (blockOf s.partitionInfo s.pos)
            (s.pos % BLOCK_SIZE) len buf) s.pos s.partitionInfo t ∧ True)
          (fun _ => Stores L m s.pos s.partitionInfo) A := by
        refine Triple.modify fun t ht => ⟨ht.1.entry (fun j => L.get_replace ht.2 j)
          (fun j hj o _ => if_neg fun h => hj h.1) (fun o ho => ?_) (by simp), trivial⟩
        unfold assignedWith
        dsimp only
        by_cases hrange : s.pos % BLOCK_SIZE ≤ o ∧ o < s.pos % BLOCK_SIZE + len
        · rw [if_pos hrange, if_pos ⟨rfl, hrange⟩]
        · rw [if_neg hrange, if_neg fun h => hrange h.2]
          exact (ht.1.held _).data_eq ht.2 ho
      refine Triple.bind hassign fun _ => ?_
      exact Triple.bind (advance_triple len) fun _ =>
        Triple.pure fun t ht => ⟨_, ht.1, assignedWith_written hwithin⟩

theorem flush_triple :
    Triple (Stores L m pos p) (flush L) (fun _ s => Stores L m pos p s ∧ ∀ i, Synced m s i)
      (fun _ => Stores L m pos p) A := by
  refine Triple.get_bind fun s hs => ?_
  have hall : ∀ j, L.get s.blockCache j = none ∨ j ∈ L.keys s.blockCache := fun j => by
    cases hget : L.get s.blockCache j with
    | none => exact .inl rfl
    | some block => exact .inr (L.mem_keys (by rw [hget]; rfl))
  refine Triple.bind ((forEach_synced (fun j => L.get s.blockCache j = none)
    fun S i => flushBlock_triple S i).pre fun t ht => ?_) fun _ => ?_
  · subst ht
    exact ⟨hs, fun j hj => (hs.held j).of_none hj⟩
  · refine (access_triple (P := fun t => Stores L m pos p t ∧ ∀ j, L.get s.blockCache j = none ∨
      j ∈ L.keys s.blockCache → Synced m t j) fun t ht => ⟨ht.1.accessed, ht.2⟩).conseq
      (fun _ => id) (fun _ t ht => ⟨ht.1, fun j => ht.2 j (hall j)⟩) (fun _ _ ht => ht.1) fun _ => id

theorem exec_triple (call : Call) :
    Triple (Starts L m pos p call) (exec L call) (fun a s => Answered L m pos p call s a)
      (fun _ => Stores L m pos p) A := by
  cases call with
  | seek sought =>
    exact Triple.bind ((seek_triple sought).pre fun _ hs => hs.stores) fun _ =>
      Triple.pure fun _ => id
  | read bufLen => exact Triple.bind (read_triple bufLen) fun _ => Triple.pure fun _ => id
  | write buf =>
    exact Triple.bind (write_triple buf) fun _ => Triple.pure fun _ hs =>
      ⟨buf, hs.choose, rfl, hs.choose_spec⟩
  | flush =>
    exact Triple.bind (flush_triple.pre fun _ hs => hs.stores) fun _ => Triple.pure fun _ => id

/-- A call that gives up a dirty block fails, and the block is only what the device has of it. -/
theorem exec_givesUp {call : Call} (hs : Stores L m pos p s) (h : GivesUp L s call j) :
    ∃ s', exec L call s = (.err .device, s') ∧
      Stores L (fun k => if k = j then s.blockDevice.blocks j else m k) pos p s' := by
  obtain ⟨i, offset, len, block, hplace, hevicts⟩ := h
  obtain ⟨s', hrun, hs'⟩ := cachedBlock_evicts hevicts hs
  refine ⟨s', ?_, hs'⟩
  cases call with
  | seek sought => cases hplace
  | read bufLen =>
    have hread : read L bufLen s = (.err .device, s') := by
      unfold read
      rw [Prog.bind_ok _ (Prog.get_run s), show s.place bufLen = _ from hplace]
      exact Prog.bind_err _ hrun
    exact Prog.bind_err _ hread
  | write buf =>
    have hwrite : write L buf s = (.err .device, s') := by
      unfold write
      rw [Prog.bind_ok _ (Prog.get_run s), show s.place buf.length = _ from hplace]
      dsimp only
      rw [decide_eq_true (place_cached hplace).2.2.2.2]
      exact Prog.bind_err _ hrun
    exact Prog.bind_err _ hwrite
  | flush => cases hplace

/-! ## 3. Steps -/

/-- The event of a step -/
def event (L : BoundedCache C CachedBlock) (s : Disk C) (t : Step) : Event C :=
  ⟨s, t, (step L t s).1, (step L t s).2⟩

/-- What a step leaves is read off what it stores. -/
theorem keptOutside_iff {t : Step} (hs : Stores L (fun k => if k = j then s.blockDevice.blocks j
    else content L s k) pos p (step L t s).2) :
    KeptOutside L (event L s t) ↔ ∀ o < BLOCK_SIZE,
      ¬ Touches s.partitionInfo s.pos t.call.len j o →
        s.blockDevice.blocks j o = content L s j o := by
  constructor
  · intro h o ho hout
    have hafter := (hs.content_eq j ho).symm.trans (h j o ho hout)
    rwa [if_pos rfl] at hafter
  · intro h i o ho hout
    refine (hs.content_eq i ho).trans ?_
    split
    next heq =>
      subst heq
      exact h o ho hout
    next => rfl

theorem Answered.faithful {t : Step} {a : Answer} {s' : Disk C}
    (h : Answered L (content L s) s.pos s.partitionInfo t.call s' a) :
    Faithful L ⟨s, t, .ok a, s'⟩ ∧ Consistent L s' := by
  cases a with
  | position q =>
    obtain ⟨q, hs⟩ := h
    exact ⟨fun i o ho => hs.content_eq i ho, hs.consistent⟩
  | bytes buf =>
    obtain ⟨⟨q, hs⟩, hread⟩ := h
    exact ⟨⟨fun i o ho => hs.content_eq i ho, hread⟩, hs.consistent⟩
  | written len =>
    obtain ⟨buf, m', hcall, ⟨q, hs⟩, hwritten, hframe⟩ := h
    refine ⟨⟨buf, hcall, fun k hk => ?_, fun i o ho hout => ?_⟩, hs.consistent⟩
    · exact (hs.content_eq _ (Nat.mod_lt _ (by decide))).trans (hwritten k hk)
    · exact (hs.content_eq i ho).trans (hframe i o ho hout)
  | flushed =>
    obtain ⟨hs, hsynced⟩ := h
    exact ⟨⟨fun i o ho => hs.content_eq i ho, hsynced⟩, hs.consistent⟩

/-- One step is faithful unless it loses a block. Either way no clean block is out of date. -/
theorem step_spec (hs : Consistent L s) (t : Step) (hfits : Fits s t.call) :
    (Faithful L (event L s t) ↔ ¬ Loses L s t) ∧ Consistent L (step L t s).2 := by
  have hstart : Stores L (content L s) s.pos s.partitionInfo (s.withFaults t.faults) :=
    hs.stores.withFaults t.faults
  by_cases hgives : ∃ j, GivesUp L (s.withFaults t.faults) t.call j
  · obtain ⟨j, hj⟩ := hgives
    obtain ⟨s', hrun, hs'⟩ := exec_givesUp hstart hj
    have hstep : step L t s = (.err .device, s') := hrun
    have hafter : Stores L (fun k => if k = j then s.blockDevice.blocks j else content L s k) s.pos
        s.partitionInfo (step L t s).2 := by
      rw [hstep]
      exact hs'
    refine ⟨?_, hafter.consistent⟩
    have hfaithful : Faithful L (event L s t) ↔ KeptOutside L (event L s t) := by
      unfold Faithful
      rw [show (event L s t).outcome = .err .device from congrArg Prod.fst hstep]
    rw [hfaithful, keptOutside_iff hafter]
    constructor
    · rintro h ⟨k, hk, o, ho, hout, hne⟩
      obtain rfl : k = j := hk.unique hj
      exact hne (h o ho hout)
    · intro h o ho hout
      by_contra hne
      exact h ⟨j, hj, o, ho, hout, hne⟩
  · have htriple := exec_triple (A := fun _ => False) t.call (s.withFaults t.faults)
      ⟨hstart, hfits, fun j hj => hgives ⟨j, hj⟩⟩
    have hkeeps : ¬ Loses L s t := fun ⟨j, hj, _⟩ => hgives ⟨j, hj⟩
    unfold event step
    revert htriple
    rcases exec L t.call (s.withFaults t.faults) with ⟨o, s'⟩
    cases o with
    | ok a =>
      intro ha
      exact ⟨⟨fun _ => hkeeps, fun _ => (Answered.faithful ha).1⟩, (Answered.faithful ha).2⟩
    | err e =>
      intro he
      exact ⟨⟨fun _ => hkeeps, fun _ i o ho _ => he.content_eq i ho⟩, he.consistent⟩
    | panic q => exact False.elim

/-! ## 4. Runs -/

theorem consistent_new (L : BoundedCache C CachedBlock) (d : BlockDevice) (p : PartitionInfo) :
    Consistent L (newWithPartitionInfo L d p) := by
  intro j
  have hnone : L.get (newWithPartitionInfo L d p).blockCache j = none := L.get_empty j
  refine Synced.held (fun o _ => ?_) hnone
  rw [content, hnone]

/-- The disk after a run -/
def final (L : BoundedCache C CachedBlock) (s : Disk C) (ts : List Step) : Disk C :=
  ts.foldl (fun s t => (step L t s).2) s

theorem run_append (L : BoundedCache C CachedBlock) (s : Disk C) (ts : List Step) (t : Step) :
    run L s (ts ++ [t]) = run L s ts ++ [event L (final L s ts) t] := by
  induction ts generalizing s with
  | nil => rfl
  | cons t' ts ih =>
    rw [List.cons_append, run, run, ih]
    rfl

theorem run_spec (hs : Consistent L s) (ts : List Step)
    (hfits : ∀ e ∈ run L s ts, Fits e.before e.step.call) :
    ∀ e ∈ run L s ts, Faithful L e ↔ ¬ Loses L e.before e.step := by
  induction ts generalizing s with
  | nil => exact fun e he => absurd he List.not_mem_nil
  | cons t ts ih =>
    have hstep := step_spec hs t (hfits _ List.mem_cons_self)
    intro e he
    rcases List.mem_cons.1 he with rfl | he
    · exact hstep.1
    · exact ih hstep.2 (fun e he => hfits e (List.mem_cons_of_mem _ he)) e he

/-- Every call of a run reads and writes what is stored, and none loses any of it, if and only if
no call gives up a dirty block that it cannot write out. -/
theorem run_faithful_iff (L : BoundedCache C CachedBlock) (d : BlockDevice) (p : PartitionInfo)
    (ts : List Step)
    (hfits : ∀ e ∈ run L (newWithPartitionInfo L d p) ts, Fits e.before e.step.call) :
    (∀ e ∈ run L (newWithPartitionInfo L d p) ts, Faithful L e) ↔
      ∀ e ∈ run L (newWithPartitionInfo L d p) ts, ¬ Loses L e.before e.step := by
  have hspec := run_spec (consistent_new L d p) ts hfits
  exact ⟨fun h e he => (hspec e he).1 (h e he), fun h e he => (hspec e he).2 (h e he)⟩

/-- The cache of the file server -/
def lruCache : BoundedCache (BoundedCache.Recent CachedBlock) CachedBlock :=
  BoundedCache.Recent.cache BLOCK_CACHE_SIZE CachedBlock

/-- A disk of a thousand empty blocks -/
def emptyDisk : Disk (BoundedCache.Recent CachedBlock) :=
  newWithPartitionInfo lruCache ⟨fun _ _ => 0, []⟩ ⟨0, 512000⟩

theorem run_faithful_iff_write :
    (∀ e ∈ run lruCache emptyDisk [⟨.write [7], [true]⟩], Faithful lruCache e) ↔
      ∀ e ∈ run lruCache emptyDisk [⟨.write [7], [true]⟩],
        ¬ Loses lruCache e.before e.step := by
  refine run_faithful_iff lruCache _ _ _ fun e he i len hplace => ?_
  obtain rfl := List.mem_singleton.1 he
  cases hplace

/-- One byte is written, and one byte read from each of the next seven blocks. -/
def fillCache : List Step :=
  ⟨.write [7], []⟩ :: (List.range 7).flatMap fun k =>
    [⟨.seek (.start ((k + 1) * BLOCK_SIZE)), []⟩, ⟨.read 1, []⟩]

/-- The byte that was written is lost when the next block is read and the device fails to take the
first one: a read of another block fails, and the byte is zero again. -/
theorem dirty_block_lost :
    ¬ ∀ e ∈ run lruCache emptyDisk
        (fillCache ++ [⟨.seek (.start (8 * BLOCK_SIZE)), []⟩] ++ [⟨.read 1, [false, true]⟩]),
      Faithful lruCache e := by
  intro h
  have hlast := h _ (by rw [run_append]; exact List.mem_append_right _ (List.mem_singleton_self _))
  have houtcome : (event lruCache (final lruCache emptyDisk
      (fillCache ++ [⟨.seek (.start (8 * BLOCK_SIZE)), []⟩])) ⟨.read 1, [false, true]⟩).outcome =
      .err .device := by decide +kernel
  unfold Faithful at hlast
  rw [houtcome] at hlast
  refine absurd (hlast 0 0 (by decide) ?_) (by decide +kernel)
  rintro ⟨k, hk, hblock, -⟩
  obtain rfl : k = 0 := Nat.lt_one_iff.1 hk
  revert hblock
  decide +kernel

end Disk

end Fs
