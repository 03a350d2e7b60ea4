import KeyOS.Fs.Disk

/-!
# What the cache of a disk keeps

Each part of a call leaves what is stored as it was, or changes the bytes of the call only, whether
it succeeds or fails. One failure is different: where a dirty block was given up for another and
cannot be written out, it is in neither place.
-/

namespace Fs

open Exec Prog

namespace Disk

variable {C : Type} (L : BoundedCache C CachedBlock)

/-! ## 1. A disk that stores given bytes -/

/-- Block `j` holds `m`, be it in the cache or on the device. A clean block is in both places. -/
def Held (m : Nat → Block) (s : Disk C) (j : Nat) : Prop :=
  ∀ o < BLOCK_SIZE, match L.get s.blockCache j with
    | some block => block.data o = m j o ∧ (block.dirty = false → s.blockDevice.blocks j o = m j o)
    | none => s.blockDevice.blocks j o = m j o

structure Stores (m : Nat → Block) (pos : Nat) (p : PartitionInfo) (s : Disk C) : Prop where
  held : ∀ j, Held L m s j
  pos_eq : s.pos = pos
  partition_eq : s.partitionInfo = p

/-- The device has block `j` as it is stored. -/
def Synced (m : Nat → Block) (s : Disk C) (j : Nat) : Prop :=
  ∀ o < BLOCK_SIZE, s.blockDevice.blocks j o = m j o

/-- No clean block differs from the device. -/
def Consistent (s : Disk C) : Prop := ∀ j, Held L (content L s) s j

variable {L} {m m' : Nat → Block} {pos len : Nat} {p : PartitionInfo} {s s' : Disk C} {i j : Nat}
  {A : Missing → Prop}

theorem Held.content_eq (h : Held L m s j) {o : Nat} (ho : o < BLOCK_SIZE) :
    content L s j o = m j o := by
  have hj := h o ho
  unfold content
  revert hj
  cases L.get s.blockCache j with
  | none => exact id
  | some block =>
    intro hj
    dsimp only at hj ⊢
    split
    · exact hj.1
    next hclean => exact hj.2 (Bool.eq_false_iff.2 hclean)

theorem Stores.content_eq (h : Stores L m pos p s) (i : Nat) {o : Nat} (ho : o < BLOCK_SIZE) :
    content L s i o = m i o := (h.held i).content_eq ho

theorem Held.congr (h : Held L m s j) (hm : ∀ o < BLOCK_SIZE, m' j o = m j o) : Held L m' s j := by
  intro o ho
  rw [hm o ho]
  exact h o ho

theorem Stores.consistent (h : Stores L m pos p s) : Consistent L s := fun j =>
  (h.held j).congr fun _ ho => h.content_eq j ho

theorem Consistent.stores (h : Consistent L s) :
    Stores L (content L s) s.pos s.partitionInfo s := ⟨h, rfl, rfl⟩

theorem Held.of_none (h : Held L m s j) (hnone : L.get s.blockCache j = none) : Synced m s j := by
  intro o ho
  have hj := h o ho
  rwa [hnone] at hj

theorem Synced.held (h : Synced m s j) (hnone : L.get s.blockCache j = none) : Held L m s j := by
  intro o ho
  rw [hnone]
  exact h o ho

theorem Held.data_eq {block : CachedBlock} (h : Held L m s j)
    (hsome : L.get s.blockCache j = some block) {o : Nat} (ho : o < BLOCK_SIZE) :
    block.data o = m j o := by
  have hj := h o ho
  rw [hsome] at hj
  exact hj.1

theorem held_of_some {block : CachedBlock} (hsome : L.get s.blockCache j = some block)
    (hdata : ∀ o < BLOCK_SIZE, block.data o = m j o)
    (hclean : block.dirty = false → Synced m s j) : Held L m s j := by
  intro o ho
  rw [hsome]
  exact ⟨hdata o ho, fun h => hclean h o ho⟩

/-- A block that neither the cache nor the device has changed is held as before. -/
theorem Held.kept (h : Held L m s j) (hcache : L.get s'.blockCache j = L.get s.blockCache j)
    (hdevice : s'.blockDevice.blocks j = s.blockDevice.blocks j) : Held L m s' j := by
  intro o ho
  have hj := h o ho
  rw [hcache, hdevice]
  exact hj

/-! ## 2. The device -/

theorem Stores.accessed (h : Stores L m pos p s) :
    Stores L m pos p { s with blockDevice := s.blockDevice.accessed } :=
  ⟨fun j => (h.held j).kept rfl rfl, h.pos_eq, h.partition_eq⟩

theorem Stores.withFaults (h : Stores L m pos p s) (faults : List Bool) :
    Stores L m pos p (s.withFaults faults) :=
  ⟨fun j => (h.held j).kept rfl rfl, h.pos_eq, h.partition_eq⟩

/-- An access changes only which accesses fail next. -/
theorem access_triple {P : Disk C → Prop}
    (hP : ∀ s, P s → P { s with blockDevice := s.blockDevice.accessed }) :
    Triple P access (fun _ => P) (fun _ => P) A := by
  intro s hs
  unfold access
  split
  next heq =>
    cases (Prod.mk.inj heq).2
    exact hP s hs
  next heq =>
    cases (Prod.mk.inj heq).2
    exact hP s hs
  next heq =>
    have hpanic := (Prod.mk.inj heq).1
    split at hpanic
    · cases hpanic
    · cases hpanic

theorem deviceRead_triple {P : Disk C → Prop} (blockIdx : Nat)
    (hP : ∀ s, P s → P { s with blockDevice := s.blockDevice.accessed }) :
    Triple P (deviceRead blockIdx) (fun buf s => P s ∧ buf = s.blockDevice.bytesFrom blockIdx)
      (fun _ => P) A :=
  Triple.bind (access_triple hP) fun _ => Triple.gets fun _ hs => ⟨hs, rfl⟩

theorem deviceWrite_triple {P Q : Disk C → Prop} (blockIdx count : Nat) (buf : Block)
    (hP : ∀ s, P s → P { s with blockDevice := s.blockDevice.accessed })
    (hQ : ∀ s, P s →
      Q { s with blockDevice := s.blockDevice.overwritten blockIdx count buf }) :
    Triple P (deviceWrite blockIdx count buf) (fun _ => Q) (fun _ => P) A :=
  Triple.bind (access_triple hP) fun _ => Triple.modify hQ

theorem overwritten_one {d : BlockDevice} {buf : Block} (i j o : Nat) :
    (d.overwritten i 1 buf).blocks j o = if j = i then buf o else d.blocks j o := by
  by_cases h : j = i
  · subst h
    simp [BlockDevice.overwritten]
  · have hout : ¬ (i ≤ j ∧ j < i + 1) := by omega
    rw [BlockDevice.overwritten, if_neg h]
    dsimp only
    rw [if_neg hout]

/-! ## 3. A dirty block is written out -/

/-- Writing a block out keeps what is stored, before its flag is cleared and after. -/
theorem Stores.writtenOut {block : CachedBlock} (h : Stores L m pos p s)
    (hsome : L.get s.blockCache i = some block) :
    Stores L m pos p
      { s with blockDevice := s.blockDevice.overwritten i 1 block.data } := by
  refine ⟨fun j => ?_, h.pos_eq, h.partition_eq⟩
  by_cases hj : j = i
  · subst hj
    refine held_of_some hsome (fun o ho => (h.held j).data_eq hsome ho) fun _ o ho => ?_
    dsimp only
    rw [overwritten_one, if_pos rfl]
    exact (h.held j).data_eq hsome ho
  · refine (h.held j).kept rfl ?_
    funext o
    dsimp only
    rw [overwritten_one, if_neg hj]

/-- An entry of the cache is replaced, for one that holds the same. -/
theorem Stores.entry {c' : C} {block : CachedBlock} (h : Stores L m pos p s)
    (hget : ∀ j, L.get c' j = if j = i then some block else L.get s.blockCache j)
    (hother : ∀ j ≠ i, ∀ o < BLOCK_SIZE, m' j o = m j o)
    (hdata : ∀ o < BLOCK_SIZE, block.data o = m' i o)
    (hclean : block.dirty = false → Synced m' s i) :
    Stores L m' pos p { s with blockCache := c' } := by
  refine ⟨fun j => ?_, h.pos_eq, h.partition_eq⟩
  by_cases hj : j = i
  · subst hj
    have hsome : L.get c' j = some block := by rw [hget, if_pos rfl]
    exact held_of_some hsome hdata fun hb o ho => hclean hb o ho
  · have hcache : L.get c' j = L.get s.blockCache j := by rw [hget, if_neg hj]
    exact Held.congr (Held.kept (h.held j) hcache rfl) (hother j hj)

theorem writeBack_triple (block : CachedBlock) (S : Nat → Prop) :
    Triple
      (fun s => Stores L m pos p s ∧ (∀ j, S j → Synced m s j) ∧
        L.get s.blockCache i = some block)
      (do
        deviceWrite i 1 block.data
        assign L i { block with dirty := false })
      (fun _ s => Stores L m pos p s ∧ ∀ j, S j ∨ j = i → Synced m s j)
      (fun _ => Stores L m pos p) A := by
  have hwrite : Triple
      (fun s => Stores L m pos p s ∧ (∀ j, S j → Synced m s j) ∧
        L.get s.blockCache i = some block)
      (deviceWrite i 1 block.data)
      (fun _ s => Stores L m pos p s ∧ (∀ j, S j ∨ j = i → Synced m s j) ∧
        L.get s.blockCache i = some block)
      (fun _ s => Stores L m pos p s ∧ (∀ j, S j → Synced m s j) ∧
        L.get s.blockCache i = some block) A := by
    refine deviceWrite_triple _ _ _ (fun s hs => ⟨hs.1.accessed, hs.2.1, hs.2.2⟩) ?_
    rintro s ⟨hs, hsynced, hsome⟩
    refine ⟨hs.writtenOut hsome, fun j hj o ho => ?_, hsome⟩
    dsimp only
    rw [overwritten_one]
    split
    next heq => exact heq ▸ (hs.held i).data_eq hsome ho
    next hne => exact hj.elim (fun hS => hsynced j hS o ho) fun heq => absurd heq hne
  refine Triple.bind (hwrite.conseq (fun _ => id) (fun _ _ => id) (fun _ _ h => h.1) fun _ => id)
    fun _ => Triple.modify ?_
  rintro s ⟨hs, hsynced, hsome⟩
  refine ⟨hs.entry (fun j => L.get_replace hsome j) (fun _ _ _ _ => rfl)
    (fun o ho => (hs.held i).data_eq hsome ho) fun _ => hsynced i (.inr rfl), hsynced⟩

/-- A block that is not dirty is on the device too. -/
theorem Held.synced {block : CachedBlock} (h : Held L m s j)
    (hsome : L.get s.blockCache j = some block) (hclean : ¬ block.dirty = true) : Synced m s j := by
  intro o ho
  have hj := h o ho
  rw [hsome] at hj
  exact hj.2 (Bool.eq_false_iff.2 hclean)

theorem flushBlock_triple (S : Nat → Prop) (i : Nat) :
    Triple (fun s => Stores L m pos p s ∧ ∀ j, S j → Synced m s j) (flushBlock L i)
      (fun _ s => Stores L m pos p s ∧ ∀ j, S j ∨ j = i → Synced m s j)
      (fun _ => Stores L m pos p) A := by
  refine Triple.get_bind fun s hs => ?_
  split
  next hnone =>
    refine Triple.pure fun t ht => ?_
    subst ht
    refine ⟨hs.1, fun j hj => hj.elim (hs.2 j) fun heq => ?_⟩
    exact heq ▸ (hs.1.held i).of_none hnone
  next block hsome =>
    refine Triple.onlyIf (fun hdirty => ?_) fun hclean t ht => ?_
    · refine (writeBack_triple block S).pre fun t ht => ?_
      subst ht
      exact ⟨hs.1, hs.2, hsome⟩
    · subst ht
      refine ⟨hs.1, fun j hj => hj.elim (hs.2 j) fun heq => ?_⟩
      exact heq ▸ (hs.1.held i).synced hsome hclean

theorem getMut_triple (i : Nat) (block : CachedBlock) {P : Disk C → Prop}
    (hP : ∀ s, P s → L.get s.blockCache i = some block →
      P { s with blockCache := L.touch s.blockCache i block }) :
    Triple (fun s => P s ∧ L.get s.blockCache i = some block) (getMut L i)
      (fun b s => b = block ∧ P s ∧ L.get s.blockCache i = some block) (fun _ _ => False) A := by
  rintro s ⟨hs, hsome⟩
  have hrun : getMut L i s =
      (.ok block, { s with blockCache := L.touch s.blockCache i block }) := by
    unfold getMut
    rw [Prog.bind_ok _ (Prog.get_run s), hsome]
    rfl
  rw [hrun]
  refine ⟨rfl, hP s hs hsome, ?_⟩
  dsimp only
  rw [L.get_touch hsome, if_pos rfl]

theorem Stores.touched {block : CachedBlock} (h : Stores L m pos p s)
    (hsome : L.get s.blockCache i = some block) :
    Stores L m pos p { s with blockCache := L.touch s.blockCache i block } :=
  h.entry (fun j => L.get_touch hsome j) (fun _ _ _ _ => rfl)
    (fun _ ho => (h.held i).data_eq hsome ho)
    fun hclean => (h.held i).synced hsome fun hdirty => by simp [hclean] at hdirty

theorem writeOut_triple (S : Nat → Prop) (i : Nat) :
    Triple (fun s => Stores L m pos p s ∧ ∀ j, S j → Synced m s j) (writeOut L i)
      (fun _ s => Stores L m pos p s ∧ ∀ j, S j ∨ j = i → Synced m s j)
      (fun _ => Stores L m pos p) A := by
  refine Triple.get_bind fun s hs => ?_
  split
  next hnone =>
    refine Triple.pure fun t ht => ?_
    subst ht
    refine ⟨hs.1, fun j hj => hj.elim (hs.2 j) fun heq => ?_⟩
    exact heq ▸ (hs.1.held i).of_none hnone
  next block hsome =>
    have htouch := getMut_triple (A := A) (L := L) i block
      (P := fun t => Stores L m pos p t ∧ ∀ j, S j → Synced m t j)
      fun t ht hsome => ⟨ht.1.touched hsome, ht.2⟩
    refine Triple.bind (htouch.conseq (fun t ht => ?_) (fun _ _ => id) (fun _ _ => False.elim)
      fun _ => id) fun b => ?_
    · subst ht
      exact ⟨hs, hsome⟩
    · refine Triple.onlyIf (fun hdirty => ?_) fun hclean t ht => ?_
      · exact (writeBack_triple block S).pre fun t ht => ⟨ht.2.1.1, ht.2.1.2, ht.2.2⟩
      · refine ⟨ht.2.1.1, fun j hj => hj.elim (ht.2.1.2 j) fun heq => ?_⟩
        exact heq ▸ (ht.2.1.1.held i).synced ht.2.2 hclean

/-! ## 4. Whole blocks -/

/-- A loop over blocks that brings each of them to the device. -/
theorem forEach_synced {l : List Nat} {f : Nat → DiskM C Unit} (S : Nat → Prop)
    (hf : ∀ (S : Nat → Prop) i, Triple (fun s => Stores L m pos p s ∧ ∀ j, S j → Synced m s j) (f i)
      (fun _ s => Stores L m pos p s ∧ ∀ j, S j ∨ j = i → Synced m s j)
      (fun _ => Stores L m pos p) A) :
    Triple (fun s => Stores L m pos p s ∧ ∀ j, S j → Synced m s j) (Prog.forEach l f)
      (fun _ s => Stores L m pos p s ∧ ∀ j, S j ∨ j ∈ l → Synced m s j)
      (fun _ => Stores L m pos p) A := by
  have hrest := Triple.forEach_rest (l := l) (f := f) (E := fun _ => Stores L m pos p) (A := A)
    (J := fun rest s => Stores L m pos p s ∧ ∀ j, S j ∨ j ∈ l ∧ j ∉ rest → Synced m s j)
    fun i rest => by
      refine (hf (fun j => S j ∨ j ∈ l ∧ j ∉ i :: rest) i).post fun _ s hs => ⟨hs.1, fun j hj => ?_⟩
      by_cases hji : j = i
      · exact hs.2 j (.inr hji)
      · refine hs.2 j (.inl (hj.imp id fun hmem => ⟨hmem.1, ?_⟩))
        simpa [hji] using hmem.2
  refine hrest.conseq (fun s hs => ⟨hs.1, fun j hj => ?_⟩) (fun _ s hs => ⟨hs.1, fun j hj => ?_⟩)
    (fun _ _ => id) fun _ => id
  · exact hs.2 j (hj.elim id fun hmem => absurd hmem.1 hmem.2)
  · exact hs.2 j (hj.imp id fun hmem => ⟨hmem, by simp⟩)

theorem mem_blockRange {count : Nat} (h : i + count < 2 ^ 32) :
    j ∈ blockRange i count ↔ i ≤ j ∧ j < i + count := by
  have hlen : (i + count) % 2 ^ 32 - i = count := by
    rw [Nat.mod_eq_of_lt h, Nat.add_sub_cancel_left]
  rw [blockRange, hlen, List.mem_range'_1]

theorem readBlocks_triple (h : i + len / BLOCK_SIZE < 2 ^ 32) :
    Triple (Stores L m pos p) (readBlocks L i len)
      (fun buf s => Stores L m pos p s ∧ ∀ k < len / BLOCK_SIZE * BLOCK_SIZE,
        buf k = m (i + k / BLOCK_SIZE) (k % BLOCK_SIZE))
      (fun _ => Stores L m pos p) A := by
  refine Triple.bind ((forEach_synced (fun _ => False) fun S i => writeOut_triple S i).pre
    fun s hs => ⟨hs, fun _ => False.elim⟩) fun _ => ?_
  refine (deviceRead_triple i fun s hs => ⟨hs.1.accessed, hs.2⟩).conseq (fun _ => id)
    (fun buf s hs => ⟨hs.1.1, fun k hk => ?_⟩) (fun _ _ hs => hs.1) fun _ => id
  have hblock : k / BLOCK_SIZE < len / BLOCK_SIZE :=
    Nat.div_lt_of_lt_mul (Nat.mul_comm _ BLOCK_SIZE ▸ hk)
  rw [hs.2]
  refine hs.1.2 _ (.inr ?_) _ (Nat.mod_lt _ (by decide))
  rw [mem_blockRange h]
  exact ⟨Nat.le_add_right _ _, Nat.add_lt_add_left hblock _⟩

/-- What is stored once some blocks are overwritten -/
def overwrittenWith (m : Nat → Block) (blockIdx count : Nat) (buf : Block) : Nat → Block :=
  fun i o =>
    if blockIdx ≤ i ∧ i < blockIdx + count then buf ((i - blockIdx) * BLOCK_SIZE + o) else m i o

/-- Blocks that the device holds, some of which are still to be dropped from the cache -/
structure Dropping (L : BoundedCache C CachedBlock) (m : Nat → Block) (pos : Nat)
    (p : PartitionInfo) (rest : List Nat) (s : Disk C) : Prop where
  held : ∀ j, j ∈ rest ∨ Held L m s j
  synced : ∀ j ∈ rest, Synced m s j
  pos_eq : s.pos = pos
  partition_eq : s.partitionInfo = p

theorem Dropping.pop {rest : List Nat} (h : Dropping L m pos p (i :: rest) s) :
    Dropping L m pos p rest { s with blockCache := L.pop s.blockCache i } := by
  refine ⟨fun j => ?_, fun j hj => h.synced j (List.mem_cons_of_mem _ hj), h.pos_eq,
    h.partition_eq⟩
  by_cases hj : j = i
  · subst hj
    have hsynced : Synced m { s with blockCache := L.pop s.blockCache j } j :=
      h.synced j List.mem_cons_self
    refine .inr (hsynced.held ?_)
    dsimp only
    rw [L.get_pop, if_pos rfl]
  · refine (h.held j).imp (fun hmem => (List.mem_cons.1 hmem).resolve_left hj) fun hheld => ?_
    have hcache : L.get (L.pop s.blockCache i) j = L.get s.blockCache j := by
      rw [L.get_pop, if_neg hj]
    exact Held.kept hheld hcache rfl

theorem writeBlocks_triple {buf : Block} (h : i + len / BLOCK_SIZE < 2 ^ 32) :
    Triple (Stores L m pos p) (writeBlocks L i len buf)
      (fun _ => Stores L (overwrittenWith m i (len / BLOCK_SIZE) buf) pos p)
      (fun _ => Stores L m pos p) A := by
  have hwrite : Triple (Stores L m pos p) (deviceWrite i (len / BLOCK_SIZE) buf)
      (fun _ => Dropping L (overwrittenWith m i (len / BLOCK_SIZE) buf) pos p
        (blockRange i (len / BLOCK_SIZE)))
      (fun _ => Stores L m pos p) A := by
    refine deviceWrite_triple _ _ _ (fun s hs => hs.accessed) fun s hs => ?_
    refine ⟨fun j => ?_, fun j hj o ho => ?_, hs.pos_eq, hs.partition_eq⟩
    · by_cases hj : i ≤ j ∧ j < i + len / BLOCK_SIZE
      · exact .inl ((mem_blockRange h).2 hj)
      · have hdevice : (s.blockDevice.overwritten i (len / BLOCK_SIZE) buf).blocks j =
            s.blockDevice.blocks j := funext fun o => if_neg hj
        exact .inr (Held.congr (Held.kept (hs.held j) rfl hdevice) fun o _ => if_neg hj)
    · have hmem := (mem_blockRange h).1 hj
      exact (if_pos hmem).trans (if_pos hmem).symm
  refine Triple.bind hwrite fun _ => ?_
  have hdrop := Triple.forEach_rest (l := blockRange i (len / BLOCK_SIZE))
    (f := fun dropIdx => Prog.modify fun s : Disk C =>
      { s with blockCache := L.pop s.blockCache dropIdx })
    (E := fun _ : IoError => Stores L m pos p) (A := A)
    (J := Dropping L (overwrittenWith m i (len / BLOCK_SIZE) buf) pos p)
    fun k rest => Triple.modify fun s hs => hs.pop
  exact hdrop.post fun _ s hs =>
    ⟨fun j => (hs.held j).resolve_left (List.not_mem_nil), hs.pos_eq, hs.partition_eq⟩

/-! ## 5. A block in the cache -/

theorem access_ok (h : s.blockDevice.failing = false) :
    access s = (.ok (), { s with blockDevice := s.blockDevice.accessed }) := by
  simp [access, h]

theorem access_err (h : s.blockDevice.failing = true) :
    access s = (.err .device, { s with blockDevice := s.blockDevice.accessed }) := by
  simp [access, h]

/-- What a block is in the cache when it has just been read -/
def fetched (s : Disk C) (i : Nat) : CachedBlock :=
  { data := s.blockDevice.bytesFrom i, dirty := false }

/-- The disk with a block read and added to the cache -/
def added (L : BoundedCache C CachedBlock) (s : Disk C) (i : Nat) : Disk C :=
  { s with
    blockDevice := s.blockDevice.accessed
    blockCache := (L.push s.blockCache i (fetched s i)).1 }

/-- For block `i` the dirty block `j` is given up, and cannot be written out. -/
structure Evicts (L : BoundedCache C CachedBlock) (s : Disk C) (i j : Nat) (block : CachedBlock) :
    Prop where
  missing : L.get s.blockCache i = none
  read : s.blockDevice.failing = false
  victim : (L.push s.blockCache i (fetched s i)).2 = some (j, block)
  dirty : block.dirty = true
  failing : s.blockDevice.accessed.failing = true

theorem bytesFrom_eq (d : BlockDevice) (i : Nat) {o : Nat} (ho : o < BLOCK_SIZE) :
    d.bytesFrom i o = d.blocks i o := by
  rw [BlockDevice.bytesFrom, Nat.div_eq_of_lt ho, Nat.mod_eq_of_lt ho, Nat.add_zero]

/-- The block that is added is held, and so is every other that is not given up. -/
theorem Stores.added_held (h : Stores L m pos p s) (hnone : L.get s.blockCache i = none)
    (hj : ∀ block, (L.push s.blockCache i (fetched s i)).2 ≠ some (j, block)) :
    Held L m (added L s i) j := by
  have hsynced : Synced m (added L s i) i := fun o ho => (h.held i).of_none hnone o ho
  have hget : L.get (added L s i).blockCache j =
      if j = i then some (fetched s i) else L.get s.blockCache j := by
    cases hpush : (L.push s.blockCache i (fetched s i)).2 with
    | none => exact L.get_push_none hnone hpush j
    | some victim =>
      refine ((L.get_push_some hnone hpush).2 j).trans ?_
      have hne : j ≠ victim.1 := fun heq => hj victim.2 (by rw [hpush, heq])
      rw [if_neg hne]
  by_cases hji : j = i
  · subst hji
    rw [if_pos rfl] at hget
    refine held_of_some hget (fun o ho => ?_) fun _ => hsynced
    exact (bytesFrom_eq _ _ ho).trans (hsynced o ho)
  · rw [if_neg hji] at hget
    exact Held.kept (h.held j) hget rfl

theorem fetch_run (hread : s.blockDevice.failing = false) :
    fetch L i true s =
      (match (L.push s.blockCache i (fetched s i)).2 with
        | some (prevIdx, prevBlock) =>
          Prog.onlyIf (prevBlock.dirty = true) (deviceWrite prevIdx 1 prevBlock.data)
        | none => Pure.pure () : DiskM C Unit) (added L s i) := by
  have hdata : deviceRead i s =
      (.ok (s.blockDevice.bytesFrom i), { s with blockDevice := s.blockDevice.accessed }) := by
    unfold deviceRead
    rw [Prog.bind_ok _ (access_ok hread)]
    rfl
  unfold fetch
  rw [if_pos rfl, Prog.bind_ok _ hdata]
  rfl

theorem fetch_err (hread : s.blockDevice.failing = true) :
    fetch L i true s = (.err .device, { s with blockDevice := s.blockDevice.accessed }) := by
  unfold fetch deviceRead
  rw [if_pos rfl]
  refine Prog.bind_err _ ?_
  exact Prog.bind_err _ (access_err hread)

theorem get_added (hnone : L.get s.blockCache i = none) :
    L.get (added L s i).blockCache i = some (fetched s i) := by
  cases hpush : (L.push s.blockCache i (fetched s i)).2 with
  | none => exact (L.get_push_none hnone hpush i).trans (if_pos rfl)
  | some victim => exact ((L.get_push_some hnone hpush).2 i).trans (if_pos rfl)

theorem fetch_triple (i : Nat) :
    Triple
      (fun s => Stores L m pos p s ∧ L.get s.blockCache i = none ∧ ∀ j block, ¬ Evicts L s i j block)
      (fetch L i true)
      (fun _ s => Stores L m pos p s ∧ ∃ block, L.get s.blockCache i = some block)
      (fun _ => Stores L m pos p) A := by
  rintro s ⟨hs, hnone, hno⟩
  cases hread : s.blockDevice.failing with
  | true =>
    rw [fetch_err hread]
    exact hs.accessed
  | false =>
    have hpos : (added L s i).pos = pos := hs.pos_eq
    have hpart : (added L s i).partitionInfo = p := hs.partition_eq
    have hadded := get_added (L := L) hnone
    rw [fetch_run hread]
    cases hpush : (L.push s.blockCache i (fetched s i)).2 with
    | none => exact ⟨⟨fun j => hs.added_held hnone (by simp [hpush]), hpos, hpart⟩, _, hadded⟩
    | some victim =>
      obtain ⟨j, block⟩ := victim
      obtain ⟨hsome, hget⟩ := L.get_push_some hnone hpush
      have hji : j ≠ i := by
        rintro rfl
        rw [hnone] at hsome
        cases hsome
      have hvictim : L.get (added L s i).blockCache j = none := by
        refine (hget j).trans ?_
        rw [if_neg hji, if_pos rfl]
      have hother : ∀ k ≠ j, Held L m (added L s i) k := fun k hk =>
        hs.added_held hnone fun block' heq => by
          rw [hpush] at heq
          cases heq
          exact hk rfl
      dsimp only
      by_cases hdirty : block.dirty = true
      · have hwrite : (added L s i).blockDevice.failing = false :=
          Bool.eq_false_iff.2 fun hfail => hno j block ⟨hnone, hread, hpush, hdirty, hfail⟩
        rw [Prog.onlyIf_true_run hdirty]
        unfold deviceWrite
        rw [Prog.bind_ok _ (access_ok hwrite)]
        refine ⟨⟨fun k => ?_, hpos, hpart⟩, _, hadded⟩
        by_cases hk : k = j
        · subst hk
          refine Synced.held (fun o ho => ?_) hvictim
          exact (overwritten_one k k o).trans ((if_pos rfl).trans ((hs.held k).data_eq hsome ho))
        · refine Held.kept (hother k hk) rfl ?_
          funext o
          exact (overwritten_one j k o).trans (if_neg hk)
      · rw [Prog.onlyIf_false_run hdirty]
        refine ⟨⟨fun k => ?_, hpos, hpart⟩, _, hadded⟩
        by_cases hk : k = j
        · subst hk
          have hsynced : Synced m s k := (hs.held k).synced hsome hdirty
          exact Synced.held (s := added L s i) hsynced hvictim
        · exact hother k hk

theorem cachedBlock_triple (i : Nat) :
    Triple (fun s => Stores L m pos p s ∧ ∀ j block, ¬ Evicts L s i j block) (cachedBlock L i true)
      (fun block s => Stores L m pos p s ∧ L.get s.blockCache i = some block)
      (fun _ => Stores L m pos p) A := by
  refine Triple.get_bind fun s hs => ?_
  have hfetch : Triple (· = s)
      (Prog.onlyIf (L.get s.blockCache i = none) (fetch L i true))
      (fun _ s => Stores L m pos p s ∧ ∃ block, L.get s.blockCache i = some block)
      (fun _ => Stores L m pos p) A := by
    refine Triple.onlyIf (fun hnone => ?_) fun hcached t ht => ?_
    · refine (fetch_triple i).pre fun t ht => ?_
      subst ht
      exact ⟨hs.1, hnone, hs.2⟩
    · subst ht
      exact ⟨hs.1, Option.ne_none_iff_exists'.1 hcached⟩
  refine Triple.bind hfetch fun _ => ?_
  rintro t ⟨ht, block, hsome⟩
  have hget := getMut_triple (A := A) (L := L) i block (P := Stores L m pos p)
    fun t ht hsome => ht.touched hsome
  refine hget.conseq (fun _ => id) ?_ (fun _ _ => False.elim) (fun _ => id) t ⟨ht, hsome⟩
  rintro b t ⟨rfl, ht, hsome⟩
  exact ⟨ht, hsome⟩

/-- What is left when a dirty block is given up and cannot be written out -/
theorem cachedBlock_evicts {block : CachedBlock} (h : Evicts L s i j block)
    (hs : Stores L m pos p s) :
    ∃ s', cachedBlock L i true s = (.err .device, s') ∧
      Stores L (fun k => if k = j then s.blockDevice.blocks j else m k) pos p s' := by
  obtain ⟨hsome, hget⟩ := L.get_push_some h.missing h.victim
  have hfetch : fetch L i true s = (.err .device,
      { added L s i with blockDevice := (added L s i).blockDevice.accessed }) := by
    rw [fetch_run h.read, h.victim]
    dsimp only
    rw [Prog.onlyIf_true_run h.dirty]
    exact Prog.bind_err _ (access_err h.failing)
  refine ⟨{ added L s i with blockDevice := (added L s i).blockDevice.accessed }, ?_,
    ⟨fun k => ?_, hs.pos_eq, hs.partition_eq⟩⟩
  · unfold cachedBlock
    rw [Prog.bind_ok _ (Prog.get_run s)]
    refine Prog.bind_err _ ?_
    rw [Prog.onlyIf_true_run h.missing]
    exact hfetch
  · by_cases hk : k = j
    · subst hk
      have hji : k ≠ i := by
        rintro rfl
        rw [h.missing] at hsome
        cases hsome
      have hvictim : L.get (added L s i).blockCache k = none := by
        refine (hget k).trans ?_
        rw [if_neg hji, if_pos rfl]
      refine Synced.held (fun o _ => ?_) hvictim
      rw [if_pos rfl]
      rfl
    · have hheld : Held L m (added L s i) k := hs.added_held h.missing fun block' heq => by
        rw [h.victim] at heq
        cases heq
        exact hk rfl
      refine Held.congr (Held.kept hheld rfl rfl) fun o _ => ?_
      rw [if_neg hk]

end Disk

end Fs
