import KeyOS.Lib.Exec

/-!
# Files of a FAT volume

A file is a chain of clusters, a size that is at most what they hold, and a cursor. Which clusters
they are does not matter here, only how many: a cluster is its place in the chain. Every access to
the device may fail, and a write may write less than it is given.
-/

namespace Fs

open Exec

/-! ## 1. The file -/

def MAX_FILE_SIZE : Nat := 2 ^ 32 - 1

/-- `fatfs::File`. The first cluster is there as soon as the chain has one. -/
structure File where
  clusterSize : Nat
  clusters : Nat
  /-- At the end of a cluster this is the cluster before the cursor. -/
  currentCluster : Option Nat
  offset : Nat
  /-- The size in the directory entry, which directories do not have -/
  size : Option Nat
  /-- The bytes of the clusters, one after the other -/
  data : Nat → UInt8

inductive DiskWrite where
  | fails
  | writes (atMost : Nat)
  | writesAll

/-- What the device does during one operation -/
structure Reply where
  /-- The volume is marked as dirty. -/
  marked : Bool
  /-- The chain of clusters is followed, or cut. -/
  chain : Bool
  /-- A cluster is found and added to the chain. -/
  alloc : Bool
  disk : DiskWrite

def plainReply : Reply := { marked := true, chain := true, alloc := true, disk := .writesAll }

/-- An open file, and what the device will do. Beyond the list it does not fail. -/
structure Volume where
  file : File
  replies : List Reply

inductive FileError where
  | io
  | noSpace
  | negativeOffset
  | writeZero
  deriving DecidableEq, Repr

inductive FilePanic where
  | noCluster
  | sizeUnknown
  deriving DecidableEq, Repr

abbrev FileM := Prog Volume FilePanic FileError

namespace File

/-! ## 2. Operations -/

def reply : FileM Reply := fun v =>
  (.ok (v.replies.headD plainReply), { v with replies := v.replies.tail })

def check (ok : Bool) (e : FileError) : FileM Unit := Prog.onlyIf (ok = false) (Prog.throw e)

def modifyFile (f : File → File) : FileM Unit := Prog.modify fun v => { v with file := f v.file }

def clustersFromBytes (f : File) (bytes : Nat) : Nat := (bytes + f.clusterSize - 1) / f.clusterSize

/-- The cluster that a write at the end of a cluster goes to -/
def nextCluster (f : File) : Option Nat :=
  let next := match f.currentCluster with
    | none => 0
    | some n => n + 1
  if next < f.clusters then some next else none

/-- `alloc_cluster`, at the end of the chain -/
def allocCluster (ok : Bool) : FileM Nat := do
  check ok .noSpace
  let v ← Prog.get
  modifyFile fun f => { f with clusters := f.clusters + 1 }
  pure v.file.clusters

def clusterForWrite (r : Reply) : FileM Nat := do
  let v ← Prog.get
  if v.file.offset % v.file.clusterSize = 0 then do
    check r.chain .io
    match v.file.nextCluster with
    | some n => pure n
    | none => allocCluster r.alloc
  else Prog.expect .noCluster v.file.currentCluster

/-- The file once bytes are written at the cursor, which is in a cluster -/
def written (f : File) (cluster : Nat) (bytes : List UInt8) : File :=
  let start := cluster * f.clusterSize + f.offset % f.clusterSize
  let offset := f.offset + bytes.length
  { f with
    offset
    currentCluster := some cluster
    size := f.size.map fun s => if s < offset then offset else s
    data := fun i => if start ≤ i ∧ i < start + bytes.length then bytes.getD (i - start) 0 else f.data i }

def diskWrite (reply : DiskWrite) (len : Nat) : FileM Nat :=
  match reply with
  | .fails => Prog.throw .io
  | .writes atMost => pure (min atMost len)
  | .writesAll => pure len

def write (buf : List UInt8) : FileM Nat := do
  let v ← Prog.get
  let bytesLeftInCluster := v.file.clusterSize - v.file.offset % v.file.clusterSize
  let writeSize := min (min buf.length bytesLeftInCluster) (MAX_FILE_SIZE - v.file.offset)
  if writeSize = 0 then pure 0
  else do
    let r ← reply
    check r.marked .io
    let cluster ← clusterForWrite r
    let writtenBytes ← diskWrite r.disk writeSize
    if writtenBytes = 0 then pure 0
    else do
      modifyFile fun f => f.written cluster (buf.take writtenBytes)
      pure writtenBytes

/-- `write_all` of the standard library, with room for as many rounds as there are bytes -/
def writeAllIn : Nat → List UInt8 → FileM Unit
  | _, [] => pure ()
  | 0, _ :: _ => Prog.throw .writeZero
  | fuel + 1, buf => do
    let n ← write buf
    if n = 0 then Prog.throw .writeZero else writeAllIn fuel (buf.drop n)

def writeAll (buf : List UInt8) : FileM Unit := writeAllIn buf.length buf

inductive SeekFrom where
  | start (offset : Nat)
  | fromEnd (offset : Int)
  | current (offset : Int)

/-- The cursor moves to a position that is not beyond the end. -/
def moveTo (newPos : Nat) : FileM Nat := do
  let v ← Prog.get
  let f := v.file
  if newPos = f.offset then pure f.offset
  else if newPos = 0 then do
    modifyFile fun f => { f with offset := 0, currentCluster := none }
    pure 0
  else if f.clustersFromBytes newPos = f.clustersFromBytes f.offset then do
    modifyFile fun f => { f with offset := newPos }
    pure newPos
  else if f.clusters = 0 then do
    modifyFile fun f => { f with offset := 0, currentCluster := none }
    pure 0
  else do
    let r ← reply
    check r.chain .io
    -- a chain that is too short is followed to its end
    let clusterCount := min (f.clustersFromBytes newPos) f.clusters
    let newPos := if f.clusters < f.clustersFromBytes newPos then f.clusters * f.clusterSize else newPos
    modifyFile fun f => { f with offset := newPos, currentCluster := some (clusterCount - 1) }
    pure newPos

/-- A `u64` as an `i64` -/
def asSigned (x : Nat) : Int := if x < 2 ^ 63 then x else (x : Int) - 2 ^ 64

def seek (pos : SeekFrom) : FileM Nat := do
  let v ← Prog.get
  let newPos : Int ← match pos with
    | .current x => pure (v.file.offset + x)
    | .start x => pure (asSigned x)
    | .fromEnd x => do
      let size ← Prog.expect .sizeUnknown v.file.size
      pure (size + x)
  Prog.onlyIf (newPos < 0) (Prog.throw .negativeOffset)
  let newPos := match v.file.size with
    | some s => if (s : Int) < newPos then (s : Int) else newPos
    | none => newPos
  moveTo (newPos.toNat % 2 ^ 32)

def streamPosition : FileM Nat := seek (.current 0)

def truncate : FileM Unit := do
  modifyFile fun f => { f with size := f.size.map fun _ => f.offset }
  let r ← reply
  let v ← Prog.get
  if 0 < v.file.offset then do
    let cluster ← Prog.expect .noCluster v.file.currentCluster
    check r.chain .io
    modifyFile fun f => { f with clusters := cluster + 1 }
  else if 0 < v.file.clusters then do
    check r.chain .io
    modifyFile fun f => { f with clusters := 0 }
  else pure ()

/-! ## 3. What a file holds -/

/-- The place in the chain of the byte before the cursor -/
def clusterBefore (f : File) (offset : Nat) : Option Nat :=
  if offset = 0 then none else some ((offset - 1) / f.clusterSize)

/-- A file of some size, with enough clusters for it and its cursor in one of them -/
structure Sized (f : File) (n : Nat) : Prop where
  cluster_pos : 0 < f.clusterSize
  size_eq : f.size = some n
  size_le : n ≤ MAX_FILE_SIZE
  chain : n ≤ f.clusters * f.clusterSize
  offset_le : f.offset ≤ n
  current : f.currentCluster = f.clusterBefore f.offset

/-- The bytes of a file of some size -/
def content (f : File) (n : Nat) : List UInt8 := (List.range n).map f.data

variable {f f' : File} {n p : Nat} {plain : Prop}

theorem Sized.content_length (_ : f.Sized n) : (f.content n).length = n := by
  simp [content]

/-- The cluster after that of the byte before the cursor is the cluster of the cursor. -/
theorem clusterBefore_div {c offset : Nat} (h0 : 0 < offset) :
    (offset - 1) / c + (if offset % c = 0 then 1 else 0) = offset / c := by
  obtain ⟨k, rfl⟩ := Nat.exists_eq_succ_of_ne_zero (Nat.ne_of_gt h0)
  rw [Nat.succ_div, Nat.succ_sub_one]
  simp only [Nat.dvd_iff_mod_eq_zero, Nat.succ_eq_add_one]

/-- The cursor of a file that is moved to a position in it -/
def moved (f : File) (p : Nat) : File := { f with offset := p, currentCluster := f.clusterBefore p }

theorem Sized.moved (hf : f.Sized n) (hp : p ≤ n) : (f.moved p).Sized n where
  cluster_pos := hf.cluster_pos
  size_eq := hf.size_eq
  size_le := hf.size_le
  chain := hf.chain
  offset_le := hp
  current := rfl

theorem Sized.moved_offset (hf : f.Sized n) : f.moved f.offset = f := by
  unfold File.moved
  rw [← hf.current]

@[simp] theorem moved_moved (p q : Nat) : (f.moved p).moved q = f.moved q := rfl

@[simp] theorem moved_at (p : Nat) : (f.moved p).offset = p := rfl

@[simp] theorem moved_content (p m : Nat) : (f.moved p).content m = f.content m := rfl

/-- The file, with more clusters perhaps, once bytes are written at the cursor -/
structure Wrote (f : File) (n : Nat) (bytes : List UInt8) (f' : File) : Prop where
  sized : f'.Sized (max n (f.offset + bytes.length))
  offset_eq : f'.offset = f.offset + bytes.length
  data_eq (i : Nat) : f'.data i =
    if f.offset ≤ i ∧ i < f.offset + bytes.length then bytes.getD (i - f.offset) 0 else f.data i

theorem Wrote.nothing (hf : f.Sized n) (h : f' = f) : Wrote f n [] f' := by
  subst h
  refine ⟨by simpa [Nat.max_eq_left hf.offset_le] using hf, rfl, fun i => ?_⟩
  rw [if_neg]
  rintro ⟨hle, hlt⟩
  exact absurd hlt (by simpa using hle)

theorem Wrote.trans {f'' : File} {a b : List UInt8} (ha : Wrote f n a f')
    (hb : Wrote f' (max n (f.offset + a.length)) b f'') : Wrote f n (a ++ b) f'' := by
  have hsize : max (max n (f.offset + a.length)) (f'.offset + b.length) =
      max n (f.offset + (a ++ b).length) := by
    rw [ha.offset_eq, List.length_append]
    omega
  refine ⟨hsize ▸ hb.sized, ?_, fun i => ?_⟩
  · rw [hb.offset_eq, ha.offset_eq, List.length_append, Nat.add_assoc]
  · rw [hb.data_eq, ha.data_eq, ha.offset_eq, List.length_append]
    by_cases hlt : i < f.offset + a.length
    · -- in what was written first, or before it
      rw [if_neg (fun h => absurd h.1 (Nat.not_le.2 hlt))]
      by_cases hle : f.offset ≤ i
      · rw [if_pos ⟨hle, hlt⟩, if_pos ⟨hle, by omega⟩, List.getD_append _ _ _ _ (by omega)]
      · rw [if_neg (fun h => hle h.1), if_neg (fun h => hle h.1)]
    · by_cases hend : i < f.offset + a.length + b.length
      · rw [if_pos ⟨Nat.not_lt.1 hlt, hend⟩, if_pos ⟨by omega, by omega⟩,
          List.getD_append_right _ _ _ _ (by omega)]
        congr 1
        omega
      · rw [if_neg (fun h => hend h.2), if_neg (fun h => hlt h.2),
          if_neg (fun h => hend (by omega))]

/-- The content after a write at the end -/
theorem Wrote.content {bytes : List UInt8} (h : Wrote f n bytes f') (hend : f.offset = n) :
    f'.content (n + bytes.length) = f.content n ++ bytes := by
  refine List.ext_getElem (by simp [File.content]) fun i hi hi' => ?_
  simp only [File.content, List.getElem_map, List.getElem_range, h.data_eq, hend]
  by_cases hlt : i < n
  · rw [if_neg (fun h => absurd h.1 (Nat.not_le.2 hlt)), List.getElem_append_left (by simpa using hlt)]
    simp
  · have hib : i - n < bytes.length := by
      simp only [File.content, List.length_map, List.length_range] at hi
      omega
    rw [if_pos ⟨Nat.not_lt.1 hlt, by omega⟩, List.getElem_append_right (by simpa using hlt)]
    simp [hib]

/-- What is before the cursor stays. -/
theorem Wrote.content_before {bytes : List UInt8} (h : Wrote f n bytes f') {m : Nat}
    (hm : m ≤ f.offset) : f'.content m = f.content m := by
  refine List.map_congr_left fun i hi => ?_
  rw [h.data_eq, if_neg]
  exact fun hge => absurd (List.mem_range.1 hi) (by omega)

/-! ## 4. What the operations do -/

open Prog (Triple)

/-- The file, on a device that does not fail where `plain` holds -/
structure Ready (plain : Prop) (f : File) (v : Volume) : Prop where
  file_eq : v.file = f
  replies_eq : plain → v.replies = []

theorem reply_spec {E : FileError → Volume → Prop} {A : FilePanic → Prop} :
    Triple (Ready plain f) reply (fun r v => (plain → r = plainReply) ∧ Ready plain f v) E A := by
  rintro v ⟨hfile, hplain⟩
  refine ⟨fun hp => ?_, hfile, fun hp => ?_⟩
  · rw [hplain hp]
    rfl
  · simp only [hplain hp, List.tail_nil]

theorem check_spec {P : Volume → Prop} {ok : Bool} {e : FileError} {A : FilePanic → Prop}
    {E : FileError → Volume → Prop} (h : ok = false → ∀ v, P v → E e v) :
    Triple P (check ok e) (fun _ => P) E A :=
  Triple.onlyIf (fun hc => Triple.throw (h hc)) fun _ _ => id

/-- Without room in the chain the cluster of the cursor is the one after the last. -/
theorem Sized.nextCluster (hf : f.Sized n) (h0 : f.offset % f.clusterSize = 0) :
    f.nextCluster = (if f.offset / f.clusterSize < f.clusters then
      some (f.offset / f.clusterSize) else none) ∧ f.offset / f.clusterSize ≤ f.clusters := by
  refine ⟨?_, Nat.div_le_of_le_mul ?_⟩
  · unfold File.nextCluster
    rw [hf.current, clusterBefore]
    by_cases hz : f.offset = 0
    · simp [hz]
    · have hdiv := clusterBefore_div (c := f.clusterSize) (Nat.pos_of_ne_zero hz)
      rw [if_pos h0] at hdiv
      simp only [if_neg hz, hdiv]
  · rw [Nat.mul_comm]
    exact Nat.le_trans hf.offset_le hf.chain

theorem Sized.more (hf : f.Sized n) {k : Nat} (hk : f.clusters ≤ k) :
    Sized { f with clusters := k } n :=
  { hf with chain := Nat.le_trans hf.chain (Nat.mul_le_mul_right _ hk) }

theorem clusterForWrite_spec (hf : f.Sized n) {r : Reply} (hr : plain → r = plainReply) :
    Triple (Ready plain f) (clusterForWrite r)
      (fun c v => c = f.offset / f.clusterSize ∧
        ∃ k, c < k ∧ f.clusters ≤ k ∧ Ready plain { f with clusters := k } v)
      (fun _ v => ¬ plain ∧ v.file = f) fun _ => False := by
  refine Triple.get_bind fun v hv => ?_
  rw [hv.file_eq]
  refine Triple.ite (fun h0 => ?_) fun h0 => ?_
  · obtain ⟨hnext, hle⟩ := hf.nextCluster h0
    refine Triple.bind (check_spec (P := (· = v)) fun hc => ?_) fun _ => ?_
    · rintro _ rfl
      exact ⟨fun hp => (by rw [hr hp] at hc; cases hc), hv.file_eq⟩
    rw [hnext]
    by_cases hlt : f.offset / f.clusterSize < f.clusters
    · rw [if_pos hlt]
      rintro _ rfl
      exact ⟨rfl, f.clusters, hlt, Nat.le_refl _, hv⟩
    · rw [if_neg hlt]
      refine Triple.bind (check_spec (P := (· = v)) fun hc => ?_) fun _ => ?_
      · rintro _ rfl
        exact ⟨fun hp => (by rw [hr hp] at hc; cases hc), hv.file_eq⟩
      rintro _ rfl
      have heq : f.clusters = f.offset / f.clusterSize := Nat.le_antisymm (Nat.not_lt.1 hlt) hle
      refine ⟨by rw [hv.file_eq, heq], f.clusters + 1, ?_, Nat.le_succ _, ?_⟩
      · rw [hv.file_eq]
        exact Nat.lt_succ_self _
      · exact ⟨congrArg (fun f : File => { f with clusters := f.clusters + 1 }) hv.file_eq,
          hv.replies_eq⟩
  · have hpos : 0 < f.offset := Nat.pos_of_ne_zero fun hz => h0 (by rw [hz, Nat.zero_mod])
    have hdiv := clusterBefore_div (c := f.clusterSize) hpos
    rw [if_neg h0, Nat.add_zero] at hdiv
    have hcurrent : f.currentCluster = some (f.offset / f.clusterSize) := by
      rw [hf.current, clusterBefore, if_neg (Nat.ne_of_gt hpos), hdiv]
    refine Triple.expect (fun c hc => ?_) fun hnone => by rw [hcurrent] at hnone; cases hnone
    obtain rfl : _ = c := Option.some.inj (hcurrent.symm.trans hc)
    rintro _ rfl
    refine ⟨rfl, f.clusters, ?_, Nat.le_refl _, hv⟩
    -- the cursor is inside of a cluster, so not at the end of the chain
    rw [Nat.div_lt_iff_lt_mul hf.cluster_pos]
    refine Nat.lt_of_le_of_ne (Nat.le_trans hf.offset_le hf.chain) fun he => h0 ?_
    rw [he, Nat.mul_mod_left]

/-- A write that stays in the cluster of the cursor -/
theorem Sized.written (hf : f.Sized n) (hroom : f.offset / f.clusterSize < f.clusters)
    (bytes : List UInt8) (h0 : 0 < bytes.length)
    (hcluster : bytes.length ≤ f.clusterSize - f.offset % f.clusterSize)
    (hmax : f.offset + bytes.length ≤ MAX_FILE_SIZE) :
    Wrote f n bytes (f.written (f.offset / f.clusterSize) bytes) := by
  have hdiv := Nat.div_add_mod' f.offset f.clusterSize
  have hmod := Nat.mod_lt f.offset hf.cluster_pos
  refine ⟨⟨hf.cluster_pos, ?_, Nat.max_le.2 ⟨hf.size_le, hmax⟩, ?_, Nat.le_max_right _ _, ?_⟩, rfl, ?_⟩
  · simp only [File.written, hf.size_eq, Option.map_some]
    split
    · next hlt => rw [Nat.max_eq_right (Nat.le_of_lt hlt)]
    · next hge => rw [Nat.max_eq_left (Nat.not_lt.1 hge)]
  · refine Nat.max_le.2 ⟨hf.chain, ?_⟩
    calc f.offset + bytes.length
        ≤ (f.offset / f.clusterSize + 1) * f.clusterSize := by rw [Nat.add_mul, Nat.one_mul]; omega
      _ ≤ f.clusters * f.clusterSize := Nat.mul_le_mul_right _ hroom
  · show some (f.offset / f.clusterSize) = _
    rw [clusterBefore, if_neg (by simp only [File.written]; omega)]
    refine congrArg some (Eq.symm (Nat.div_eq_of_lt_le ?_ ?_))
    · simp only [File.written]
      omega
    · simp only [File.written, Nat.add_mul, Nat.one_mul]
      omega
  · intro i
    simp only [File.written, hdiv]

theorem write_spec (hf : f.Sized n) (buf : List UInt8) :
    Triple (Ready plain f) (write buf)
      (fun w v => w ≤ buf.length ∧ Wrote f n (buf.take w) v.file ∧ (plain → v.replies = []) ∧
        (plain → 0 < buf.length → f.offset < MAX_FILE_SIZE → 0 < w))
      (fun _ v => ¬ plain ∧ Wrote f n [] v.file) fun _ => False := by
  refine Triple.get_bind fun v hv => ?_
  rw [hv.file_eq]
  have hleft : 0 < f.clusterSize - f.offset % f.clusterSize :=
    Nat.sub_pos_of_lt (Nat.mod_lt _ hf.cluster_pos)
  refine Triple.ite (fun h0 => ?_) fun h0 => ?_
  · rintro _ rfl
    refine ⟨Nat.zero_le _, ?_, hv.replies_eq, fun _ hb hm => ?_⟩
    · exact Wrote.nothing hf hv.file_eq
    · omega
  refine Triple.bind (reply_spec.pre fun _ hs => hs ▸ hv) fun r => ?_
  refine Triple.assume fun hr => ?_
  refine Triple.bind (check_spec (P := Ready plain f) fun hc s hs => ?_) fun _ => ?_
  · exact ⟨fun hp => (by rw [hr hp] at hc; cases hc), Wrote.nothing hf hs.file_eq⟩
  refine Triple.bind ((clusterForWrite_spec hf hr).conseq (fun _ => id) (fun _ _ => id)
    (fun _ s hs => ⟨hs.1, Wrote.nothing hf hs.2⟩) fun _ => id) fun cluster => ?_
  refine Triple.assume fun hcluster => ?_
  rintro s ⟨k, hroom, hk, hs⟩
  subst hcluster
  have hmore : Wrote f n [] { f with clusters := k } :=
    ⟨by simpa [Nat.max_eq_left hf.offset_le] using hf.more hk, rfl,
      (Wrote.nothing hf rfl).data_eq⟩
  generalize hsize : min (min buf.length _) _ = writeSize at h0
  -- what the device takes of it
  have hdisk : Triple (Ready plain { f with clusters := k }) (diskWrite r.disk writeSize)
      (fun w s => (w ≤ writeSize ∧ (plain → w = writeSize)) ∧ Ready plain { f with clusters := k } s)
      (fun _ s => ¬ plain ∧ Wrote f n [] s.file) fun _ => False := by
    cases hd : r.disk with
    | fails =>
      exact Triple.throw fun s hs => ⟨fun hp => (by rw [hr hp] at hd; cases hd), hs.file_eq ▸ hmore⟩
    | writes atMost =>
      exact Triple.pure fun s hs => ⟨⟨Nat.min_le_right _ _, fun hp => (by rw [hr hp] at hd; cases hd)⟩,
        hs⟩
    | writesAll => exact Triple.pure fun s hs => ⟨⟨Nat.le_refl _, fun _ => rfl⟩, hs⟩
  refine Triple.bind hdisk (fun w => Triple.assume fun ⟨hle, hall⟩ => ?_) s hs
  refine Triple.ite (fun hw => ?_) fun hw => ?_
  · refine Triple.pure fun s hs => ⟨Nat.zero_le _, hs.file_eq ▸ hmore, hs.replies_eq, fun hp => ?_⟩
    exact absurd ((hall hp).symm.trans hw) h0
  · have hlen : (buf.take w).length = w := by rw [List.length_take]; omega
    have hwritten := (hf.more hk).written hroom (buf.take w) (by omega)
      (by simp only [hlen]; omega) (by simp only [hlen]; omega)
    refine Triple.bind (Triple.modify (Q := fun _ s =>
      Wrote f n (buf.take w) s.file ∧ (plain → s.replies = [])) fun s hs => ⟨?_, hs.replies_eq⟩)
      fun _ => Triple.pure fun s hs => ⟨by omega, hs.1, hs.2, fun _ _ _ => Nat.pos_of_ne_zero hw⟩
    rw [hs.file_eq]
    exact ⟨hwritten.sized, hwritten.offset_eq, hwritten.data_eq⟩

/-- All bytes are written, or some of them before an error. -/
theorem writeAllIn_spec (fuel : Nat) (hf : f.Sized n) (buf : List UInt8)
    (hfuel : buf.length ≤ fuel) :
    Triple (Ready plain f) (writeAllIn fuel buf)
      (fun _ v => Wrote f n buf v.file ∧ (plain → v.replies = []))
      (fun _ v => (plain → MAX_FILE_SIZE < f.offset + buf.length) ∧
        ∃ k ≤ buf.length, Wrote f n (buf.take k) v.file) fun _ => False := by
  induction fuel generalizing buf f n with
  | zero =>
    obtain rfl : buf = [] := List.length_eq_zero_iff.1 (Nat.le_zero.1 hfuel)
    exact Triple.pure fun v hv => ⟨Wrote.nothing hf hv.file_eq, hv.replies_eq⟩
  | succ fuel ih =>
    cases buf with
    | nil => exact Triple.pure fun v hv => ⟨Wrote.nothing hf hv.file_eq, hv.replies_eq⟩
    | cons b buf =>
      refine Triple.bind ((write_spec hf (b :: buf)).conseq (fun _ => id) (fun _ _ => id)
        (fun e v hv => ⟨fun hp => absurd hp hv.1, 0, Nat.zero_le _, hv.2⟩) fun _ => id) fun w => ?_
      refine Triple.ite (fun hw => ?_) fun hw => ?_
      · refine Triple.throw fun v ⟨_, hv, _, hpos⟩ => ⟨fun hp => ?_, w, by omega, hv⟩
        rw [List.length_cons]
        have := fun hlt => hpos hp (Nat.succ_pos _) hlt
        omega
      · rintro v ⟨hle, hv, hplain, -⟩
        have hlen : ((b :: buf).take w).length = w := by
          rw [List.length_take, Nat.min_eq_left hle]
        have hdrop : ((b :: buf).drop w).length ≤ fuel := by
          rw [List.length_drop]
          omega
        refine (ih (f := v.file) hv.sized ((b :: buf).drop w) hdrop).conseq (fun _ => id) ?_ ?_
          (fun _ => id) v ⟨rfl, hplain⟩
        · rintro _ v' ⟨hv', hplain'⟩
          exact ⟨by simpa only [List.take_append_drop] using hv.trans hv', hplain'⟩
        · rintro e v' ⟨hmax, k, hk, hv'⟩
          have hsum : (b :: buf).take w ++ ((b :: buf).drop w).take k = (b :: buf).take (w + k) :=
            List.take_add.symm
          rw [List.length_drop] at hk hmax
          refine ⟨fun hp => ?_, w + k, by omega, hsum ▸ hv.trans hv'⟩
          have := hmax hp
          rw [hv.offset_eq, hlen] at this
          omega

theorem clustersFromBytes_eq (hc : 0 < f.clusterSize) (bytes : Nat) :
    f.clustersFromBytes bytes = if bytes = 0 then 0 else (bytes - 1) / f.clusterSize + 1 := by
  unfold clustersFromBytes
  split
  · next h0 =>
    rw [h0]
    exact Nat.div_eq_of_lt (by omega)
  · rw [← Nat.add_div_right _ hc]
    congr 1
    omega

theorem moveTo_spec (hf : f.Sized n) (hp : p ≤ n) :
    Triple (Ready plain f) (moveTo p) (fun q v => q = p ∧ Ready plain (f.moved p) v)
      (fun _ v => ¬ plain ∧ v.file = f) fun _ => False := by
  have hcount := clustersFromBytes_eq hf.cluster_pos
  refine Triple.get_bind fun v hv => ?_
  simp only [hv.file_eq]
  refine Triple.ite (fun heq => ?_) fun hne => ?_
  · subst heq
    rintro _ rfl
    exact ⟨rfl, hv.file_eq.trans hf.moved_offset.symm, hv.replies_eq⟩
  refine Triple.ite (fun h0 => ?_) fun h0 => ?_
  · rintro _ rfl
    exact ⟨h0.symm, by simp [h0, hv.file_eq, File.moved, clusterBefore], hv.replies_eq⟩
  refine Triple.ite (fun hsame => ?_) fun _ => ?_
  · -- in the cluster of the cursor already
    have hcurrent : f.currentCluster = f.clusterBefore p := by
      rw [hcount, hcount, if_neg h0] at hsame
      split at hsame
      · cases hsame
      · next ho => rw [hf.current, clusterBefore, clusterBefore, if_neg h0, if_neg ho, Nat.succ.inj hsame]
    rintro _ rfl
    refine ⟨rfl, ?_, hv.replies_eq⟩
    simp only [hv.file_eq, File.moved, ← hcurrent]
  have hlast : f.clustersFromBytes p = (p - 1) / f.clusterSize + 1 := by rw [hcount, if_neg h0]
  have hle : f.clustersFromBytes p ≤ f.clusters := by
    rw [hlast, Nat.succ_le_iff, Nat.div_lt_iff_lt_mul hf.cluster_pos]
    exact Nat.lt_of_lt_of_le (by omega) (Nat.le_trans hp hf.chain)
  refine Triple.ite (fun hz => ?_) fun _ => ?_
  · rw [hz, hlast] at hle
    exact absurd hle (Nat.not_succ_le_zero _)
  refine Triple.bind (reply_spec.pre fun _ hs => hs ▸ hv) fun r => Triple.assume fun hr => ?_
  refine Triple.bind (check_spec (P := Ready plain f) fun hc s hs => ?_) fun _ => ?_
  · exact ⟨fun hplain => (by rw [hr hplain] at hc; cases hc), hs.file_eq⟩
  rw [Nat.min_eq_left hle, if_neg (Nat.not_lt.2 hle), hlast, Nat.succ_sub_one]
  refine Triple.bind (Triple.modify (Q := fun _ => Ready plain (f.moved p)) fun s hs => ?_) fun _ =>
    Triple.pure fun s hs => ⟨rfl, hs⟩
  exact ⟨by simp [hs.file_eq, File.moved, clusterBefore, h0], hs.replies_eq⟩

/-- Where a seek goes in a file of some size, before it is cut down to the size -/
def SeekFrom.target (f : File) (n : Nat) : SeekFrom → Int
  | .current x => f.offset + x
  | .start x => asSigned x
  | .fromEnd x => n + x

theorem seek_spec (hf : f.Sized n) (pos : SeekFrom) (hpos : pos.target f n = p) :
    Triple (Ready plain f) (seek pos)
      (fun q v => q = min p n ∧ Ready plain (f.moved (min p n)) v)
      (fun _ v => ¬ plain ∧ v.file = f) fun _ => False := by
  refine Triple.get_bind fun v hv => ?_
  simp only [hv.file_eq, hf.size_eq]
  have hgo (newPos : Int) (h : newPos = p) : Triple (· = v)
      (Prog.onlyIf (newPos < 0) (Prog.throw .negativeOffset) >>= fun _ =>
        moveTo ((if (n : Int) < newPos then (n : Int) else newPos).toNat % 2 ^ 32))
      (fun q v => q = min p n ∧ Ready plain (f.moved (min p n)) v)
      (fun _ v => ¬ plain ∧ v.file = f) fun _ => False := by
    subst h
    refine Triple.bind (Triple.onlyIf (Q := fun _ => (· = v)) (fun hneg => by omega) fun _ _ => id)
      fun _ => ?_
    have hcut : (if (n : Int) < p then (n : Int) else p).toNat % 2 ^ 32 = min p n := by
      have := hf.size_le
      unfold MAX_FILE_SIZE at this
      split <;> omega
    rw [hcut]
    exact (moveTo_spec hf (Nat.min_le_right p n)).pre fun _ hs => hs ▸ hv
  cases pos with
  | start x => exact hgo _ hpos
  | fromEnd x => exact hgo _ hpos
  | current x => exact hgo _ hpos

/-- The file is cut at the cursor, also where its clusters are not freed. -/
theorem truncate_spec (hf : f.Sized n) :
    Triple (Ready plain f) truncate
      (fun _ v => Wrote (f.moved f.offset) f.offset [] v.file ∧ (plain → v.replies = []))
      (fun _ _ => ¬ plain) fun _ => False := by
  let cut : File := { f with size := some f.offset }
  have hcut : cut.Sized f.offset :=
    ⟨hf.cluster_pos, rfl, Nat.le_trans hf.offset_le hf.size_le, Nat.le_trans hf.offset_le hf.chain,
      Nat.le_refl _, hf.current⟩
  -- with any number of clusters that is enough
  have hwrote (k : Nat) (hk : f.offset ≤ k * f.clusterSize) :
      Wrote (f.moved f.offset) f.offset [] { cut with clusters := k } := by
    refine ⟨?_, rfl, fun i => ?_⟩
    · have : Sized { cut with clusters := k } f.offset := { hcut with chain := hk }
      simpa using this
    · rw [if_neg]
      · rfl
      · rintro ⟨hle, hlt⟩
        exact absurd hlt (by simpa using hle)
  refine Triple.bind (Triple.modify (Q := fun _ => Ready plain cut) fun v hv => ?_) fun _ => ?_
  · refine ⟨?_, hv.replies_eq⟩
    simp only [hv.file_eq, hf.size_eq, Option.map_some]
    rfl
  refine Triple.bind reply_spec fun r => Triple.assume fun hr => ?_
  have hfails (hc : r.chain = false) : ¬ plain := fun hp => by
    rw [hr hp] at hc
    cases hc
  refine Triple.get_bind fun v hv => ?_
  simp only [hv.file_eq]
  refine Triple.ite (fun hpos => ?_) fun h0 => ?_
  · have hcurrent : cut.currentCluster = some ((f.offset - 1) / f.clusterSize) := by
      show f.currentCluster = _
      rw [hf.current, clusterBefore, if_neg (Nat.ne_of_gt hpos)]
    refine Triple.bind (Triple.expect (Q := fun c s => c = (f.offset - 1) / f.clusterSize ∧ s = v)
      (fun c hc s hs => ⟨?_, hs⟩) fun hnone => ?_) fun cluster => Triple.assume fun hcluster => ?_
    · exact Option.some.inj (hc.symm.trans hcurrent)
    · rw [hcurrent] at hnone
      cases hnone
    refine Triple.bind (check_spec (P := (· = v)) fun hc _ _ => hfails hc) fun _ => ?_
    rintro _ rfl
    refine ⟨?_, hv.replies_eq⟩
    simp only [hv.file_eq, hcluster]
    refine hwrote _ ?_
    rw [Nat.add_mul, Nat.one_mul]
    have hdiv := Nat.div_add_mod' (f.offset - 1) f.clusterSize
    have hmod := Nat.mod_lt (f.offset - 1) hf.cluster_pos
    have hoffset : 0 < f.offset := hpos
    omega
  · have hzero : f.offset = 0 := Nat.eq_zero_of_not_pos h0
    refine Triple.ite (fun _ => ?_) fun _ => ?_
    · refine Triple.bind (check_spec (P := (· = v)) fun hc _ _ => hfails hc) fun _ => ?_
      rintro _ rfl
      refine ⟨?_, hv.replies_eq⟩
      simp only [hv.file_eq]
      exact hwrote 0 (by omega)
    · rintro _ rfl
      refine ⟨?_, hv.replies_eq⟩
      rw [hv.file_eq]
      exact hwrote f.clusters (by omega)

end File

end Fs
