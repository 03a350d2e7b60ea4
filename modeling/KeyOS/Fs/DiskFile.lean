import KeyOS.Fs.DiskRuns
import KeyOS.Lib.Slices

/-!
# A disk as a file

As long as no access to the device fails, a disk is a file of the length of its partition: the cache
cannot be told from the device, and a flush leaves the file on the device.
-/

namespace Fs

open Exec Prog Slices

/-! ## 1. Files -/

/-- A file of a fixed length, open at a position -/
structure FlatFile where
  bytes : List UInt8
  pos : Nat

namespace FlatFile

def target (f : FlatFile) : Disk.SeekFrom → Option Nat
  | .start offset => some offset
  | .fromEnd offset => Disk.checkedAddSigned f.bytes.length offset
  | .current offset => Disk.checkedAddSigned f.pos offset

/-- How many of the bytes asked for are moved: none beyond the end, and some before it -/
structure Moves (f : FlatFile) (asked len : Nat) : Prop where
  le_asked : len ≤ asked
  le_left : len ≤ f.bytes.length - f.pos
  pos : 0 < asked → f.pos < f.bytes.length → 0 < len

inductive Step : FlatFile → Disk.Call → Outcome Missing IoError Disk.Answer → FlatFile → Prop
  | seek {f : FlatFile} {sought : Disk.SeekFrom} {pos : Nat} (h : f.target sought = some pos) :
    Step f (.seek sought) (.ok (.position pos)) { f with pos := pos }
  | refused {f : FlatFile} {sought : Disk.SeekFrom} (h : f.target sought = none) :
    Step f (.seek sought) (.err .invalidData) f
  | read {f : FlatFile} {bufLen len : Nat} (h : f.Moves bufLen len) :
    Step f (.read bufLen) (.ok (.bytes (slice f.bytes f.pos len))) { f with pos := f.pos + len }
  | write {f : FlatFile} {buf : List UInt8} {len : Nat} (h : f.Moves buf.length len) :
    Step f (.write buf) (.ok (.written len))
      ⟨splice f.bytes f.pos (buf.take len), f.pos + len⟩
  | flush {f : FlatFile} : Step f .flush (.ok .flushed) f

end FlatFile

namespace Disk

variable {C : Type} {L : BoundedCache C CachedBlock} {m m' : Nat → Block} {q n : Nat}
  {p : PartitionInfo} {s s' : Disk C} {a : Nat}

/-- What is stored, as a file -/
def file (L : BoundedCache C CachedBlock) (s : Disk C) : FlatFile where
  bytes := (List.range s.partitionInfo.lenBytes).map fun a =>
    content L s (blockOf s.partitionInfo a) (a % BLOCK_SIZE)
  pos := s.pos

/-- What the device has of the partition -/
def deviceBytes (s : Disk C) : List UInt8 :=
  (List.range s.partitionInfo.lenBytes).map fun a =>
    s.blockDevice.blocks (blockOf s.partitionInfo a) (a % BLOCK_SIZE)

theorem length_file : (file L s).bytes.length = s.partitionInfo.lenBytes := by
  simp [file]

theorem Stores.file_bytes (h : Stores L m q p s) :
    (file L s).bytes = (List.range p.lenBytes).map fun a => m (blockOf p a) (a % BLOCK_SIZE) := by
  obtain rfl := h.partition_eq
  exact List.map_congr_left fun a _ => h.content_eq _ (Nat.mod_lt _ (by decide))

/-! ## 2. Without faults -/

/-- No access fails. -/
structure Calm (q : Nat) (s : Disk C) : Prop where
  faults : ∀ b ∈ s.blockDevice.faults, b = false
  pos_eq : s.pos = q

abbrev KeepsCalm (q : Nat) {α : Type} (x : DiskM C α) : Prop :=
  Triple (Calm q) x (fun _ => Calm q) (fun _ _ => False) fun _ => True

theorem Calm.failing (h : Calm q s) : s.blockDevice.failing = false := by
  have hfaults := h.faults
  unfold BlockDevice.failing
  cases hs : s.blockDevice.faults with
  | nil => rfl
  | cons b rest => exact hfaults b (by simp [hs])

theorem access_calm : KeepsCalm q (access : DiskM C Unit) := by
  intro s hs
  rw [access_ok hs.failing]
  exact ⟨fun b hb => hs.faults b (List.mem_of_mem_drop hb), hs.pos_eq⟩

/-- Edits of the cache, and of the blocks of the device -/
theorem modify_calm {f : Disk C → Disk C} (hfaults : ∀ s, (f s).blockDevice.faults = s.blockDevice.faults)
    (hpos : ∀ s, (f s).pos = s.pos) : KeepsCalm q (Prog.modify f : DiskM C Unit) :=
  Triple.modify fun s hs => ⟨hfaults s ▸ hs.faults, (hpos s).trans hs.pos_eq⟩

theorem deviceRead_calm (i : Nat) : KeepsCalm q (deviceRead i : DiskM C Block) :=
  Triple.bind access_calm fun _ => Triple.gets fun _ => id

theorem deviceWrite_calm (i count : Nat) (buf : Block) :
    KeepsCalm q (deviceWrite i count buf : DiskM C Unit) :=
  Triple.bind access_calm fun _ => modify_calm (fun _ => rfl) fun _ => rfl

theorem getMut_calm (i : Nat) : KeepsCalm q (getMut L i) := by
  refine Triple.get_bind fun s hs => ?_
  refine Triple.bind (Q := fun _ => Calm q) (Triple.expect (fun _ _ t ht => ht ▸ hs)
    fun _ => trivial) fun block => ?_
  exact Triple.bind (modify_calm (fun _ => rfl) fun _ => rfl) fun _ => Triple.pure fun _ => id

theorem fetch_calm (i : Nat) (doRead : Bool) : KeepsCalm q (fetch L i doRead) := by
  have hpush (data : Block) : KeepsCalm q (push L i { data, dirty := false }) :=
    fun s hs => ⟨hs.faults, hs.pos_eq⟩
  cases doRead
  case' true => refine Triple.bind (deviceRead_calm i) fun data => Triple.bind (hpush data) ?_
  case' false => refine Triple.bind (Triple.pure fun _ => id) fun data => Triple.bind (hpush data) ?_
  all_goals
    intro evicted
    split
    · exact Triple.onlyIf (fun _ => deviceWrite_calm _ _ _) fun _ _ => id
    · exact Triple.pure fun _ => id

theorem cachedBlock_calm (i : Nat) (doRead : Bool) : KeepsCalm q (cachedBlock L i doRead) := by
  refine Triple.get_bind fun s hs => ?_
  refine Triple.bind (Q := fun _ => Calm q) ?_ fun _ => getMut_calm i
  exact (Triple.onlyIf (fun _ => fetch_calm i doRead) fun _ _ => id).pre fun t ht => ht ▸ hs

/-- A dirty block is written out. -/
theorem writeBack_calm (i : Nat) (block : CachedBlock) :
    KeepsCalm q (Prog.onlyIf (block.dirty = true) (do
      deviceWrite i 1 block.data
      assign L i { block with dirty := false })) :=
  Triple.onlyIf (fun _ => Triple.bind (deviceWrite_calm i 1 _) fun _ =>
    modify_calm (fun _ => rfl) fun _ => rfl) fun _ _ => id

theorem writeOut_calm (i : Nat) : KeepsCalm q (writeOut L i) := by
  refine Triple.get_bind fun s hs => ?_
  split
  · exact Triple.pure fun t ht => ht ▸ hs
  · next block _ =>
    exact Triple.bind ((getMut_calm i).pre fun t ht => ht ▸ hs) fun _ => writeBack_calm i block

theorem readBlocks_calm (i len : Nat) : KeepsCalm q (readBlocks L i len) :=
  Triple.bind (Triple.forEach fun i _ => writeOut_calm i) fun _ => deviceRead_calm i

theorem writeBlocks_calm (i len : Nat) (buf : Block) : KeepsCalm q (writeBlocks L i len buf) :=
  Triple.bind (deviceWrite_calm i _ buf) fun _ =>
    Triple.forEach fun _ _ => modify_calm (fun _ => rfl) fun _ => rfl

theorem flush_calm : KeepsCalm q (flush L) := by
  refine Triple.get_bind fun s hs => ?_
  refine Triple.bind (Q := fun _ => Calm q) ((Triple.forEach fun i _ => ?_).pre
    fun t ht => ht ▸ hs) fun _ => access_calm
  refine Triple.get_bind fun t ht => ?_
  split
  · exact Triple.pure fun u hu => hu ▸ ht
  · next block _ => exact (writeBack_calm i block).pre fun u hu => hu ▸ ht

/-! ## 3. Calls -/

def Place.len : Place → Nat
  | .outside => 0
  | .bulk _ len | .cached _ _ len => len

theorem advance_calm (len : Nat) :
    Triple (Calm q) (advance len : DiskM C Unit) (fun _ => Calm (q + len)) (fun _ _ => False)
      fun _ => True :=
  Triple.modify fun _ hs => ⟨hs.faults, congrArg (· + len) hs.pos_eq⟩

theorem read_calm (hs : Calm q s) (n : Nat) :
    Triple (· = s) (read L n)
      (fun buf t => buf.length = (s.place n).len ∧ Calm (q + (s.place n).len) t)
      (fun _ _ => False) fun _ => True := by
  refine Triple.get_bind fun u hu => ?_
  subst hu
  split
  · next hplace =>
    rw [hplace]
    exact Triple.pure fun t ht => ht ▸ ⟨rfl, hs⟩
  · next i len hplace =>
    rw [hplace]
    refine Triple.bind ((readBlocks_calm i len).pre fun t ht => ht ▸ hs) fun buf => ?_
    exact Triple.bind (advance_calm len) fun _ => Triple.pure fun t ht =>
      ⟨(List.length_map _).trans List.length_range, ht⟩
  · next i offset len hplace =>
    rw [hplace]
    refine Triple.bind ((cachedBlock_calm i true).pre fun t ht => ht ▸ hs) fun block => ?_
    exact Triple.bind (advance_calm len) fun _ => Triple.pure fun t ht =>
      ⟨(List.length_map _).trans List.length_range, ht⟩

theorem write_calm (hs : Calm q s) (buf : List UInt8) :
    Triple (· = s) (write L buf)
      (fun len t => len = (s.place buf.length).len ∧ Calm (q + (s.place buf.length).len) t)
      (fun _ _ => False) fun _ => True := by
  refine Triple.get_bind fun u hu => ?_
  subst hu
  split
  · next hplace =>
    rw [hplace]
    exact Triple.pure fun t ht => ht ▸ ⟨rfl, hs⟩
  · next i len hplace =>
    rw [hplace]
    refine Triple.bind ((writeBlocks_calm i len _).pre fun t ht => ht ▸ hs) fun _ => ?_
    exact Triple.bind (advance_calm len) fun _ => Triple.pure fun t ht => ⟨rfl, ht⟩
  · next i offset len hplace =>
    rw [hplace]
    refine Triple.bind ((cachedBlock_calm i _).pre fun t ht => ht ▸ hs) fun block => ?_
    refine Triple.bind (modify_calm (fun _ => rfl) fun _ => rfl) fun _ => ?_
    exact Triple.bind (advance_calm len) fun _ => Triple.pure fun t ht => ⟨rfl, ht⟩

/-- What a call does that neither fails nor panics -/
theorem runs_of {α : Type} {x : DiskM C α} {P : Disk C → Prop} {Q Q' : α → Disk C → Prop}
    {E : IoError → Disk C → Prop} (h : Triple P x Q E fun _ => False)
    (h' : Triple (· = s) x Q' (fun _ _ => False) fun _ => True) (hs : P s) :
    ∃ a s', x s = (.ok a, s') ∧ Q a s' ∧ Q' a s' :=
  ((h.and h').conseq (fun _ => id) (fun _ _ => id) (fun _ _ h => h.2) fun _ => id).runs ⟨hs, rfl⟩

theorem place_moves (s : Disk C) (n : Nat) :
    (s.place n).len ≤ n ∧ (s.place n).len ≤ s.partitionInfo.lenBytes - s.pos ∧
      (0 < n → s.pos < s.partitionInfo.lenBytes → 0 < (s.place n).len) := by
  have hmod : s.pos % BLOCK_SIZE < BLOCK_SIZE := Nat.mod_lt _ (by decide)
  unfold place
  dsimp only
  split
  · exact ⟨Nat.zero_le _, Nat.zero_le _, fun _ hlt => by omega⟩
  · split
    · next hbulk =>
      have hle := Nat.div_mul_le_self (min n (min (s.partitionInfo.lenBytes - s.pos) (2 ^ 32 - 1)))
        BLOCK_SIZE
      have hpos := Nat.mul_pos (Nat.div_pos hbulk.2 (by decide)) (show 0 < BLOCK_SIZE by decide)
      exact ⟨hle.trans (by omega), hle.trans (by omega), fun _ _ => hpos⟩
    · exact ⟨by dsimp only [Place.len]; omega, by dsimp only [Place.len]; omega,
        fun _ _ => by dsimp only [Place.len]; omega⟩

theorem file_moves (s : Disk C) (n : Nat) : (file L s).Moves n (s.place n).len := by
  obtain ⟨hasked, hleft, hpos⟩ := place_moves s n
  exact ⟨hasked, length_file.symm ▸ hleft, length_file.symm ▸ hpos⟩

/-- The partition ends where the numbers of blocks do. -/
def Within (p : PartitionInfo) : Prop := p.start + p.lenBytes / BLOCK_SIZE < 2 ^ 32

theorem Within.blockOf_eq (h : Within p) (ha : a ≤ p.lenBytes) :
    blockOf p a = p.start + a / BLOCK_SIZE := by
  have hle := Nat.div_le_div_right (c := BLOCK_SIZE) ha
  unfold Within at h
  rw [blockOf, Nat.mod_eq_of_lt (show a / BLOCK_SIZE < 2 ^ 32 by omega), Nat.mod_eq_of_lt (by omega)]

theorem Within.fits (h : Within s.partitionInfo) (call : Call) : Fits s call := by
  have hbulk (n i len : Nat) (hplace : s.place n = .bulk i len) : i + len / BLOCK_SIZE < 2 ^ 32 := by
    obtain ⟨rfl, haligned, -, hwhole⟩ := place_bulk hplace
    have hmoves := (place_moves s n).2.1
    rw [hplace, Place.len] at hmoves
    by_cases hle : s.pos ≤ s.partitionInfo.lenBytes
    · rw [h.blockOf_eq hle]
      unfold Within at h
      unfold BLOCK_SIZE at *
      omega
    · unfold place at hplace
      rw [if_pos (by omega)] at hplace
      cases hplace
  intro i len hplace
  cases call with
  | seek sought => cases hplace
  | flush => cases hplace
  | read n => exact hbulk n i len hplace
  | write buf => exact hbulk buf.length i len hplace

theorem Calm.starts (h : Calm q s) (hs : Stores L m q p s) (hp : Within p) (call : Call) :
    Starts L m q p call s := by
  refine ⟨hs, Within.fits (hs.partition_eq.symm ▸ hp) call, ?_⟩
  rintro j ⟨i, offset, len, block, -, hevicts⟩
  have hcalm : Calm s.pos { s with blockDevice := s.blockDevice.accessed } :=
    ⟨fun b hb => h.faults b (List.mem_of_mem_drop hb), rfl⟩
  have hfailing := hcalm.failing
  dsimp only at hfailing
  rw [hevicts.failing] at hfailing
  cases hfailing

/-! ## 4. Steps -/

theorem getElem?_file (ha : a < s.partitionInfo.lenBytes) :
    (file L s).bytes[a]? = some (content L s (blockOf s.partitionInfo a) (a % BLOCK_SIZE)) := by
  simp [file, ha]

/-- What a read answers is a slice of the file. -/
theorem read_slice {buf : List UInt8} (hlen : s.pos + buf.length ≤ s.partitionInfo.lenBytes)
    (hbuf : ∀ k < buf.length, buf.getD k 0 =
      content L s (blockOf s.partitionInfo (s.pos + k)) ((s.pos + k) % BLOCK_SIZE)) :
    buf = slice (file L s).bytes s.pos buf.length := by
  have hlength : (slice (file L s).bytes s.pos buf.length).length = buf.length :=
    length_slice (length_file.symm ▸ hlen)
  refine List.ext_getElem hlength.symm fun k hk _ => ?_
  refine Option.some_inj.1 ?_
  rw [← List.getElem?_eq_getElem, ← List.getElem?_eq_getElem, slice, List.getElem?_take_of_lt hk,
    List.getElem?_drop, getElem?_file (by omega), ← hbuf k hk, List.getElem?_eq_getElem hk,
    List.getD_eq_getElem]

/-- What a write leaves is the file with a slice replaced. -/
theorem write_splice {buf : List UInt8} {len : Nat} (hp : Within s.partitionInfo)
    (hbuf : len ≤ buf.length) (hlen : s.pos + len ≤ s.partitionInfo.lenBytes)
    (hs' : Stores L m' q s.partitionInfo s')
    (hwritten : Written s.partitionInfo s.pos len buf (content L s) m') :
    (file L s').bytes = splice (file L s).bytes s.pos (buf.take len) := by
  have htake : (buf.take len).length = len := List.length_take_of_le hbuf
  have hpos : s.pos ≤ (file L s).bytes.length := length_file.symm ▸ Nat.le_of_add_right_le hlen
  have hfits : s.pos + (buf.take len).length ≤ (file L s).bytes.length := by
    rw [htake, length_file]
    exact hlen
  rw [hs'.file_bytes]
  refine List.ext_getElem? fun a => ?_
  by_cases ha : a < s.partitionInfo.lenBytes
  · rw [List.getElem?_map, List.getElem?_range ha, Option.map_some]
    by_cases hin : s.pos ≤ a ∧ a < s.pos + len
    · obtain ⟨k, rfl⟩ := Nat.exists_eq_add_of_le hin.1
      have hk : k < len := Nat.lt_of_add_lt_add_left hin.2
      have hread := @slice_splice _ _ (buf.take len) s.pos hpos
      rw [hwritten.1 k hk, ← List.getElem?_drop, ← List.getElem?_take_of_lt (htake.symm ▸ hk),
        ← slice, hread, List.getElem?_take_of_lt hk, List.getD_eq_getElem _ _ (hk.trans_le hbuf),
        List.getElem?_eq_getElem]
    · rw [getElem?_splice_apart hpos (by omega), getElem?_file ha]
      refine congrArg some (hwritten.2 _ _ (Nat.mod_lt _ (by decide)) ?_)
      rintro ⟨k, hk, hblock, hoffset⟩
      rw [hp.blockOf_eq (by omega), hp.blockOf_eq ha.le] at hblock
      unfold BLOCK_SIZE at hblock hoffset
      omega
  · have hnone : s.partitionInfo.lenBytes ≤ a := Nat.not_lt.1 ha
    rw [List.getElem?_eq_none (by simpa using hnone), List.getElem?_eq_none]
    rw [length_splice hfits, length_file]
    exact hnone

theorem seek_run (sought : SeekFrom) (s : Disk C) :
    exec L (.seek sought) s = match (file L s).target sought with
      | some q => (.ok (.position q), { s with pos := q })
      | none => (.err .invalidData, s) := by
  have hchecked (x : Option Nat) : ((do
      let newPos ← Prog.okOr .invalidData x
      Prog.modify fun s : Disk C => { s with pos := newPos }
      Pure.pure newPos) >>= fun q => Pure.pure (.position q) : DiskM C Answer) s = match x with
        | some q => (.ok (.position q), { s with pos := q })
        | none => (.err .invalidData, s) := by
    cases x with
    | none => rfl
    | some q => rfl
  cases sought with
  | start offset => rfl
  | fromEnd offset =>
    unfold FlatFile.target
    rw [length_file]
    exact hchecked _
  | current offset => exact hchecked _

/-- Where what is stored has not changed, the file differs in its position only. -/
theorem Stores.file_eq (h : Stores L (content L s) q s.partitionInfo s') :
    file L s' = { file L s with pos := q } := by
  have hbytes : (file L s').bytes = (file L s).bytes := h.file_bytes
  have hpos : (file L s').pos = q := h.pos_eq
  show file L s' = ⟨(file L s).bytes, q⟩
  rw [← hbytes, ← hpos]

theorem exec_file (hs : Consistent L s) (hp : Within s.partitionInfo) (hcalm : Calm s.pos s)
    (call : Call) :
    (file L s).Step call (exec L call s).1 (file L (exec L call s).2) ∧
      (call = .flush → deviceBytes (exec L call s).2 = (file L (exec L call s).2).bytes) ∧
      Consistent L (exec L call s).2 ∧ (exec L call s).2.partitionInfo = s.partitionInfo := by
  have hstart := hcalm.starts hs.stores hp
  have hlen (n : Nat) : s.pos ≤ s.partitionInfo.lenBytes →
      s.pos + (s.place n).len ≤ s.partitionInfo.lenBytes := fun hle => by
    have := (place_moves s n).2.1
    omega
  have hnone (n : Nat) : ¬ s.pos ≤ s.partitionInfo.lenBytes → (s.place n).len = 0 := fun hlt => by
    have := (place_moves s n).2.1
    omega
  cases call with
  | seek sought =>
    rw [seek_run]
    cases htarget : (file L s).target sought with
    | none => exact ⟨.refused htarget, fun h => (by cases h), hs, rfl⟩
    | some q =>
      have hmoved := hs.stores.advanced q
      exact ⟨hmoved.file_eq ▸ .seek htarget, fun h => (by cases h), hmoved.consistent, rfl⟩
  | read n =>
    obtain ⟨buf, s', hrun, ⟨⟨q, hs'⟩, hbuf⟩, hlength, hcalm'⟩ :=
      runs_of (read_triple n) (read_calm hcalm n) (hstart _)
    obtain rfl : s.pos + (s.place n).len = q := hcalm'.pos_eq.symm.trans hs'.pos_eq
    rw [show exec L (.read n) s = (.ok (.bytes buf), s') from Prog.bind_ok _ hrun]
    refine ⟨?_, fun h => (by cases h), hs'.consistent, hs'.partition_eq⟩
    have hslice : buf = slice (file L s).bytes s.pos (s.place n).len := by
      by_cases hle : s.pos ≤ s.partitionInfo.lenBytes
      · rw [← hlength]
        exact read_slice (hlength.symm ▸ hlen n hle) hbuf
      · rw [hnone n hle, slice_zero]
        exact List.eq_nil_of_length_eq_zero (hlength.trans (hnone n hle))
    rw [hslice, hs'.file_eq]
    exact .read (file_moves s n)
  | write buf =>
    obtain ⟨len, s', hrun, ⟨m', ⟨q, hs'⟩, hwritten⟩, rfl, hcalm'⟩ :=
      runs_of (write_triple buf) (write_calm hcalm buf) (hstart _)
    obtain rfl : s.pos + (s.place buf.length).len = q := hcalm'.pos_eq.symm.trans hs'.pos_eq
    rw [show exec L (.write buf) s = (.ok (.written (s.place buf.length).len), s') from
      Prog.bind_ok _ hrun]
    refine ⟨?_, fun h => (by cases h), hs'.consistent, hs'.partition_eq⟩
    have hsplice : (file L s').bytes =
        splice (file L s).bytes s.pos (buf.take (s.place buf.length).len) := by
      by_cases hle : s.pos ≤ s.partitionInfo.lenBytes
      · exact write_splice hp (place_moves s buf.length).1 (hlen _ hle) hs' hwritten
      · have hout : ∀ i o, o < BLOCK_SIZE → m' i o = content L s i o := fun i o ho => by
          refine hwritten.2 i o ho ?_
          rintro ⟨k, hk, -⟩
          rw [hnone _ hle] at hk
          exact Nat.not_lt_zero k hk
        rw [hnone _ hle, List.take_zero, splice_nil, hs'.file_bytes]
        exact List.map_congr_left fun a _ => hout _ _ (Nat.mod_lt _ (by decide))
    have hfile : file L s' = ⟨splice (file L s).bytes s.pos (buf.take (s.place buf.length).len),
        s.pos + (s.place buf.length).len⟩ := by
      have hpos : (file L s').pos = s.pos + (s.place buf.length).len := hs'.pos_eq
      rw [← hsplice, ← hpos]
    rw [hfile]
    exact .write (file_moves s buf.length)
  | flush =>
    have hflush : Triple (· = s) (flush L) (fun _ => Calm s.pos) (fun _ _ => False) fun _ => True :=
      flush_calm.pre fun t ht => ht ▸ hcalm
    obtain ⟨_, s', hrun, ⟨hs', hsynced⟩, -⟩ := runs_of flush_triple hflush hs.stores
    rw [show exec L .flush s = (.ok .flushed, s') from Prog.bind_ok _ hrun]
    refine ⟨?_, fun _ => ?_, hs'.consistent, hs'.partition_eq⟩
    · rw [hs'.file_eq]
      exact .flush
    · rw [hs'.file_bytes, deviceBytes, hs'.partition_eq]
      exact List.map_congr_left fun a _ => hsynced _ _ (Nat.mod_lt _ (by decide))

/-! ## 5. Runs -/

/-- The event is a step of the file, and a flush brings the file to the device. -/
def FileEvent (L : BoundedCache C CachedBlock) (e : Event C) : Prop :=
  (file L e.before).Step e.step.call e.outcome (file L e.after) ∧
    (e.step.call = .flush → deviceBytes e.after = (file L e.after).bytes)

theorem run_file_from (hs : Consistent L s) (hp : Within s.partitionInfo) (ts : List Step)
    (hfaults : ∀ t ∈ ts, ∀ b ∈ t.faults, b = false) : ∀ e ∈ run L s ts, FileEvent L e := by
  induction ts generalizing s with
  | nil => exact fun e he => absurd he List.not_mem_nil
  | cons t ts ih =>
    have hconsistent : Consistent L (s.withFaults t.faults) :=
      (hs.stores.withFaults t.faults).consistent
    have hcalm : Calm s.pos (s.withFaults t.faults) := ⟨hfaults t List.mem_cons_self, rfl⟩
    obtain ⟨hstep, hflush, hnext, hpartition⟩ := exec_file hconsistent hp hcalm t.call
    intro e he
    rcases List.mem_cons.1 he with rfl | he
    · exact ⟨hstep, hflush⟩
    · exact ih hnext (hpartition.symm ▸ hp) (fun t ht => hfaults t (List.mem_cons_of_mem _ ht)) e he

/-- Whatever the cache, the device and the calls, a disk without faults is a file. -/
theorem run_file (L : BoundedCache C CachedBlock) (d : BlockDevice) (p : PartitionInfo)
    (ts : List Step) (hp : Within p) (hfaults : ∀ t ∈ ts, ∀ b ∈ t.faults, b = false) :
    file L (newWithPartitionInfo L d p) = ⟨deviceBytes (newWithPartitionInfo L d p), 0⟩ ∧
      ∀ e ∈ run L (newWithPartitionInfo L d p) ts, FileEvent L e := by
  refine ⟨?_, run_file_from (consistent_new L d p) hp ts hfaults⟩
  have hbytes : (file L (newWithPartitionInfo L d p)).bytes =
      deviceBytes (newWithPartitionInfo L d p) := by
    refine List.map_congr_left fun a _ => ?_
    have hnone : L.get (newWithPartitionInfo L d p).blockCache
        (blockOf (newWithPartitionInfo L d p).partitionInfo a) = none := L.get_empty _
    rw [content, hnone]
  rw [← hbytes]
  rfl

/-- A byte is written across two blocks, and read back after a flush. -/
theorem run_file_write :
    file lruCache emptyDisk = ⟨deviceBytes emptyDisk, 0⟩ ∧
      ∀ e ∈ run lruCache emptyDisk [⟨.seek (.start 511), []⟩, ⟨.write [7, 8], [false]⟩, ⟨.flush, []⟩],
        FileEvent lruCache e :=
  run_file lruCache _ _ _ (show 0 + 512000 / BLOCK_SIZE < 2 ^ 32 by decide) (by decide)

end Disk

end Fs
