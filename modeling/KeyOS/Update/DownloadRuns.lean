import KeyOS.Update.Downloader

/-!
# Reassembly

While a download is in progress, a log of the chunks stored so far accounts for every
patch: its chunks are numbered in order from 0, the counter of the patch is their number,
and its file is their concatenation. Each event keeps such a log or extends it by its chunk.
-/

namespace Update

open Exec

namespace Downloader

/-! ## 1. The log of a download -/

/-- The chunks of `log` that belong to the patch at `i`. -/
def ofPatch (i : Nat) (log : List FirmwareChunk) : List FirmwareChunk :=
  log.filter fun c => c.patchIndex.toNat == i

def bytesOf (chunks : List FirmwareChunk) : Bytes := chunks.flatMap FirmwareChunk.data

def indicesOf (chunks : List FirmwareChunk) : List Nat := chunks.map fun c => c.chunkIndex.toNat

/-- The chunks stored for the patch at `i` account for its state and its file. -/
structure PatchStored (files : Files) (i : Nat) (p : PatchState) (chunks : List FirmwareChunk) :
    Prop where
  path : p.filePath = .patch i
  indices : indicesOf chunks = List.range p.chunksReceived.toNat
  totals : ∀ c ∈ chunks, p.totalChunks = some c.totalChunks
  content : files (.patch i) = some (bytesOf chunks)
  position : p.position = (bytesOf chunks).length

/-- `log` accounts for the download `dl`. -/
structure Assembled (files : Files) (dl : Download) (log : List FirmwareChunk) : Prop where
  count : dl.patches.length = dl.metadata.patchCount.toNat
  known : ∀ c ∈ log, c.patchIndex.toNat < dl.patches.length
  stored : log.length = (dl.patches.map fun p => p.chunksReceived.toNat).sum
  patches : ∀ i p, dl.patches[i]? = some p → PatchStored files i p (ofPatch i log)

/-- A download of `m` is in progress, and `log` accounts for it. -/
def Progress (m : FirmwareUpdateAvailable) (log : List FirmwareChunk) (d : Downloader) : Prop :=
  ∃ dl, d.state = .inProgress dl ∧ dl.metadata = m ∧ Assembled d.files dl log

/-- Each file is the concatenation of the chunks 0, 1, … of its patch, as `log` has them. -/
structure Reassembled (files : Files) (result : UpdateFiles) (log : List FirmwareChunk) :
    Prop where
  paths : result.paths = (List.range result.metadata.patchCount.toNat).map .patch
  patches : ∀ i < result.metadata.patchCount.toNat, ∃ total : UInt16,
    (∀ c ∈ ofPatch i log, c.totalChunks = total) ∧
    indicesOf (ofPatch i log) = List.range total.toNat ∧
    files (.patch i) = some (bytesOf (ofPatch i log))

theorem ofPatch_append (i : Nat) (log : List FirmwareChunk) (c : FirmwareChunk) :
    ofPatch i (log ++ [c]) =
      if c.patchIndex.toNat = i then ofPatch i log ++ [c] else ofPatch i log := by
  rw [ofPatch, List.filter_append, List.filter_cons, List.filter_nil]
  by_cases h : c.patchIndex.toNat = i
  · rw [if_pos h, if_pos (beq_iff_eq.mpr h)]
    rfl
  · rw [if_neg h, if_neg (fun hb => h (beq_iff_eq.mp hb)), List.append_nil]
    rfl

/-! ## 2. Positions and counters -/

theorem expectedChunkPosition_some {patches : List PatchState} {i : Nat} {n : UInt16}
    (h : expectedChunkPosition patches = some (i, n)) :
    ∃ p, patches[i]? = some p ∧ p.isComplete = false ∧ p.chunksReceived = n := by
  rw [expectedChunkPosition, Option.map_eq_some_iff] at h
  obtain ⟨⟨p, j⟩, hfind, heq⟩ := h
  cases heq
  have hmem := List.mem_of_find?_eq_some hfind
  have hpred := List.find?_some hfind
  refine ⟨p, ?_, by simpa using hpred, rfl⟩
  rw [List.mem_zipIdx_iff_getElem?] at hmem
  exact hmem

theorem expectedChunkPosition_none {patches : List PatchState}
    (h : expectedChunkPosition patches = none) : ∀ p ∈ patches, p.isComplete = true := by
  intro p hp
  rw [expectedChunkPosition, Option.map_eq_none_iff, List.find?_eq_none] at h
  obtain ⟨i, hi⟩ := List.mem_iff_getElem?.mp hp
  have := h (p, i) (List.mem_zipIdx_iff_getElem?.mpr hi)
  simpa using this

theorem sum_set {α : Type} {f : α → Nat} {l : List α} {i : Nat} {a b : α}
    (h : l[i]? = some a) : ((l.set i b).map f).sum + f a = (l.map f).sum + f b := by
  induction l generalizing i with
  | nil => cases h
  | cons x l ih =>
    cases i with
    | zero =>
      cases h
      simp only [List.set_cons_zero, List.map_cons, List.sum_cons]
      omega
    | succ i =>
      have := ih (i := i) h
      simp only [List.set_cons_succ, List.map_cons, List.sum_cons]
      omega

theorem sum_le {α : Type} {f : α → Nat} {b : Nat} (hf : ∀ a, f a ≤ b) (l : List α) :
    (l.map f).sum ≤ l.length * b := by
  induction l with
  | nil => exact Nat.zero_le _
  | cons x l ih =>
    have := hf x
    simp only [List.map_cons, List.sum_cons, List.length_cons, Nat.succ_mul]
    omega

/-- The sum of the counters does not wrap: there are fewer than 256 patches. -/
theorem chunkOffset_toNat {patches : List PatchState} (h : patches.length < 256) :
    (chunkOffset patches).toNat = (patches.map fun p => p.chunksReceived.toNat).sum := by
  induction patches with
  | nil => rfl
  | cons p patches ih =>
    have hlt : patches.length < 256 := Nat.lt_of_succ_lt h
    have hsum := sum_le (f := fun p : PatchState => p.chunksReceived.toNat) (b := 65535)
      (fun p => Nat.le_of_lt_succ p.chunksReceived.toNat_lt) patches
    have hp := p.chunksReceived.toNat_lt
    have hstep : (chunkOffset (p :: patches)).toNat =
        (p.chunksReceived.toNat + (chunkOffset patches).toNat) % 2 ^ 64 := by
      show (p.chunksReceived.toUInt64 + chunkOffset patches).toNat = _
      rw [UInt64.toNat_add, UInt16.toNat_toUInt64]
    rw [hstep, ih hlt, List.map_cons, List.sum_cons]
    omega

theorem received_succ {n : UInt16} (total : UInt16) (h : n < total) :
    (n + 1).toNat = n.toNat + 1 := by
  have hlt := UInt16.lt_iff_toNat_lt.mp h
  have := total.toNat_lt
  rw [UInt16.toNat_add]
  show (n.toNat + 1) % 2 ^ 16 = n.toNat + 1
  omega

theorem overwrite_end (content data : Bytes) :
    overwrite content content.length data = content ++ data := by
  rw [overwrite, List.take_length, List.drop_eq_nil_of_le (Nat.le_add_right _ _), List.append_nil]

/-! ## 3. One event -/

/-- The state of a patch after one more chunk. -/
def nextPatch (p : PatchState) (c : FirmwareChunk) : PatchState :=
  { p with
    totalChunks := some c.totalChunks
    position := p.position + c.data.length
    chunksReceived := p.chunksReceived + 1 }

theorem PatchStored.next {files : Files} {i : Nat} {p : PatchState} {chunks : List FirmwareChunk}
    {c : FirmwareChunk} (h : PatchStored files i p chunks)
    (hchunk : c.chunkIndex = p.chunksReceived) (hlt : c.chunkIndex < c.totalChunks) (htotal : p.totalChunks.any (· != c.totalChunks) = false) :
    PatchStored (Function.update files (.patch i) (some (bytesOf chunks ++ c.data))) i
      (nextPatch p c) (chunks ++ [c]) where
  path := h.path
  indices := by
    rw [indicesOf, List.map_append, ← indicesOf, h.indices]
    show _ ++ [c.chunkIndex.toNat] = List.range (p.chunksReceived + 1).toNat
    rw [hchunk] at hlt ⊢
    rw [received_succ _ hlt, List.range_succ]
  totals := by
    intro c' hc'
    rcases List.mem_append.mp hc' with hc' | hc'
    · have hp := h.totals c' hc'
      rw [hp, Option.any_some, bne_eq_false_iff_eq] at htotal
      exact congrArg some htotal.symm
    · rw [List.mem_singleton.mp hc']
      rfl
  content := by
    rw [Function.update_self, bytesOf, bytesOf, List.flatMap_append, List.flatMap_singleton]
  position := by
    show p.position + c.data.length = _
    rw [h.position, bytesOf, bytesOf, List.flatMap_append, List.flatMap_singleton,
      List.length_append]

/-- The step of reassembly: the next chunk of the patch at `i`. -/
theorem Assembled.store {files : Files} {dl : Download} {log : List FirmwareChunk} {i now : Nat}
    {p : PatchState} {c : FirmwareChunk} (h : Assembled files dl log)
    (hp : dl.patches[i]? = some p) (hpatch : c.patchIndex.toNat = i)
    (hchunk : c.chunkIndex = p.chunksReceived) (hlt : c.chunkIndex < c.totalChunks)
    (htotal : p.totalChunks.any (· != c.totalChunks) = false) :
    Assembled (Function.update files (.patch i) (some (bytesOf (ofPatch i log) ++ c.data)))
      { dl with patches := dl.patches.set i (nextPatch p c), lastProgressAt := now, resync := none }
      (log ++ [c]) where
  count := by
    show (dl.patches.set i (nextPatch p c)).length = _
    rw [List.length_set]
    exact h.count
  known := by
    intro c' hc'
    show _ < (dl.patches.set i (nextPatch p c)).length
    rw [List.length_set]
    rcases List.mem_append.mp hc' with hc' | hc'
    · exact h.known c' hc'
    · rw [List.mem_singleton.mp hc', hpatch]
      exact (List.getElem?_eq_some_iff.mp hp).1
  stored := by
    have hset := sum_set (f := fun p : PatchState => p.chunksReceived.toNat) (b := nextPatch p c) hp
    have hnext : (nextPatch p c).chunksReceived.toNat = p.chunksReceived.toNat + 1 :=
      received_succ c.totalChunks (hchunk ▸ hlt)
    rw [hnext] at hset
    rw [List.length_append, List.length_singleton, h.stored]
    show _ = ((dl.patches.set i (nextPatch p c)).map fun p => p.chunksReceived.toNat).sum
    omega
  patches := by
    intro j q hq
    rw [ofPatch_append]
    by_cases hj : i = j
    · subst hj
      rw [List.getElem?_set_self (List.getElem?_eq_some_iff.mp hp).1] at hq
      cases hq
      rw [if_pos hpatch]
      exact (h.patches i p hp).next hchunk hlt htotal
    · rw [List.getElem?_set_ne hj] at hq
      rw [if_neg (fun h => hj (hpatch.symm.trans h))]
      have hold := h.patches j q hq
      refine ⟨hold.path, hold.indices, hold.totals, ?_, hold.position⟩
      rw [Function.update_of_ne (fun h => hj (ReleasePath.patch.inj h).symm)]
      exact hold.content

/-- When every patch is complete the files are reassembled. -/
theorem Assembled.complete {files : Files} {dl : Download} {log : List FirmwareChunk}
    (h : Assembled files dl log) (hcomplete : ∀ p ∈ dl.patches, p.isComplete = true) :
    Reassembled files { metadata := dl.metadata, paths := dl.patches.map PatchState.filePath }
      log where
  paths := by
    refine List.ext_getElem ?_ fun i hi _ => ?_
    · rw [List.length_map, List.length_map, List.length_range]
      exact h.count
    · rw [List.length_map] at hi
      rw [List.getElem_map, List.getElem_map, List.getElem_range]
      exact (h.patches i _ (List.getElem?_eq_getElem hi)).path
  patches := by
    intro i hi
    have hi' : i < dl.patches.length := h.count ▸ hi
    have hp := List.getElem?_eq_getElem hi'
    have hstored := h.patches i _ hp
    have htotal : dl.patches[i].totalChunks = some dl.patches[i].chunksReceived :=
      beq_iff_eq.mp (hcomplete _ (List.getElem_mem hi'))
    refine ⟨dl.patches[i].chunksReceived, fun c hc => ?_, hstored.indices, hstored.content⟩
    exact Option.some.inj ((hstored.totals c hc).symm.trans htotal)

/-- What the event of the chunk `c` does to the download that `log` accounts for. -/
inductive Handled (m : FirmwareUpdateAvailable) (log : List FirmwareChunk) (c : FirmwareChunk)
    (d : Downloader) : EventOutcome → Prop where
  | ignored (h : Progress m log d) : Handled m log c d .none
  | stored (h : Progress m (log ++ [c]) d) : Handled m log c d .none
  | retry (offset : UInt64) (h : Progress m log d) (hoffset : offset.toNat = log.length) :
      Handled m log c d (.retry offset)
  | done (result : UpdateFiles) (hm : result.metadata = m) (hidle : d.state = .idle)
      (h : Reassembled d.files result (log ++ [c])) : Handled m log c d (.done result)

section Event

variable {m : FirmwareUpdateAvailable} {log : List FirmwareChunk} {replies : FsReplies}
  {now : Nat} {c : FirmwareChunk} {dl : Download}

/-- The download `dl` is in progress, and `log` accounts for it. -/
def ProgressOf (dl : Download) (log : List FirmwareChunk) (d : Downloader) : Prop :=
  d.state = .inProgress dl ∧ Assembled d.files dl log

theorem failOn_spec {α : Type} {g : α → DownloadError} {e : Option α} {P : Downloader → Prop} :
    Prog.Triple P (failOn g e) (fun _ => P) (fun _ _ => True) fun _ => True := by
  cases e with
  | none => exact Prog.Triple.pure fun _ => id
  | some e => exact Prog.Triple.throw fun _ _ => trivial

theorem throwIf_spec {p : Prop} [Decidable p] {e : DownloadError} {P : Downloader → Prop} :
    Prog.Triple P (Prog.onlyIf p (Prog.throw e : DownloadM Unit)) (fun _ d => ¬ p ∧ P d)
      (fun _ _ => True) fun _ => True :=
  Prog.Triple.onlyIf (fun _ => Prog.Triple.throw fun _ _ => trivial) fun h _ hd => ⟨h, hd⟩

theorem requestResume_spec :
    Prog.Triple (ProgressOf dl log) (requestResume now dl)
      (fun outcome d => Handled dl.metadata log c d outcome) (fun _ _ => True)
      fun _ => True := by
  have hretry : Prog.Triple (ProgressOf dl log)
      (do Prog.modify fun d => { d with state := .inProgress { dl with resync := some now } }
          pure (.retry (chunkOffset dl.patches)) : DownloadM EventOutcome)
      (fun outcome d => Handled dl.metadata log c d outcome) (fun _ _ => True)
      fun _ => True := by
    rintro d ⟨-, h⟩
    refine .retry _ ⟨{ dl with resync := some now }, rfl, rfl, ?_⟩ ?_
    · exact ⟨h.count, h.known, h.stored, h.patches⟩
    · have hcount : dl.patches.length < 256 := h.count ▸ dl.metadata.patchCount.toNat_lt
      rw [chunkOffset_toNat hcount, h.stored]
  have hignored : Prog.Triple (ProgressOf dl log) (pure .none : DownloadM EventOutcome)
      (fun outcome d => Handled dl.metadata log c d outcome) (fun _ _ => True) fun _ => True :=
    Prog.Triple.pure fun d h => .ignored ⟨dl, h.1, rfl, h.2⟩
  unfold requestResume
  cases dl.resync with
  | none => exact hretry
  | some at_ => exact Prog.Triple.ite (fun _ => hignored) fun _ => hretry

theorem handleComplete_spec {result : List FirmwareChunk}
    (hcomplete : ∀ p ∈ dl.patches, p.isComplete = true) :
    Prog.Triple (ProgressOf dl result) (handleComplete dl)
      (fun outcome d => ∃ files, outcome = .done files ∧ files.metadata = dl.metadata ∧
        d.state = .idle ∧ Reassembled d.files files result) (fun _ _ => True) fun _ => True := by
  refine Prog.Triple.bind (Q := fun _ => ProgressOf dl result) ?_ fun _ => ?_
  · refine Prog.Triple.forEach fun p _ => ?_
    refine Prog.Triple.bind (Prog.Triple.okOr (fun _ _ _ => id) fun _ _ _ => trivial) fun _ => ?_
    exact throwIf_spec.post fun _ _ h => h.2
  · rintro d ⟨-, h⟩
    exact ⟨_, rfl, rfl, rfl, h.complete hcomplete⟩

theorem writeAll_spec {i : Nat} {p : PatchState} (data : Bytes) (hp : p.filePath = .patch i)
    {content : Bytes} (hposition : p.position = content.length) {P : Files → Prop}
    (hP : ∀ files, P files → files (.patch i) = some content) :
    Prog.Triple (fun d => P d.files) (writeAll replies p data)
      (fun _ d => ∃ files, P files ∧
        d.files = Function.update files (.patch i) (some (content ++ data)))
      (fun _ _ => True) fun _ => True := by
  unfold writeAll
  dsimp only
  cases replies.writeAll with
  | none =>
    refine Prog.Triple.modify fun d hd => ⟨d.files, hd, ?_⟩
    show Function.update d.files p.filePath _ = _
    rw [hp, hP _ hd, Option.map_some, hposition, overwrite_end]
  | some failure =>
    refine Prog.Triple.bind (Q := fun _ _ => True) (Prog.Triple.modify fun _ _ => trivial) ?_
    exact fun _ => Prog.Triple.throw fun _ _ => trivial

theorem storeChunk_spec {i : Nat} {p : PatchState} (hp : dl.patches[i]? = some p)
    (hpatch : c.patchIndex.toNat = i) (hchunk : c.chunkIndex = p.chunksReceived)
    (hlt : c.chunkIndex < c.totalChunks) :
    Prog.Triple (ProgressOf dl log) (storeChunk replies now c dl i p)
      (fun outcome d => Handled dl.metadata log c d outcome) (fun _ _ => True)
      fun _ => True := by
  let dl' : Download :=
    { dl with
      patches := dl.patches.set i (nextPatch p c)
      lastProgressAt := now
      resync := none }
  have hend : Prog.Triple (ProgressOf dl' (log ++ [c]))
      (if (expectedChunkPosition dl'.patches).isNone then handleComplete dl' else pure .none)
      (fun outcome d => Handled dl.metadata log c d outcome) (fun _ _ => True)
      fun _ => True := by
    refine Prog.Triple.ite (fun hnone => ?_) fun _ => ?_
    · have hcomplete := expectedChunkPosition_none (Option.isNone_iff_eq_none.mp hnone)
      refine (handleComplete_spec hcomplete).post fun outcome d hd => ?_
      obtain ⟨files, rfl, hm, hidle, h⟩ := hd
      exact .done files hm hidle h
    · exact Prog.Triple.pure fun d h => .stored ⟨dl', h.1, rfl, h.2⟩
  refine Prog.Triple.bind throwIf_spec fun _ => Prog.Triple.assume fun htotal => ?_
  rw [Bool.not_eq_true] at htotal
  refine Prog.Triple.bind (Q := fun _ d => Assembled d.files dl' (log ++ [c])) ?_ fun _ => ?_
  · rintro d ⟨-, h⟩
    have hstored := h.patches i p hp
    refine (writeAll_spec c.data (P := fun files => files = d.files) hstored.path
      hstored.position fun files hfiles => hfiles ▸ hstored.content).post ?_ d rfl
    rintro _ d' ⟨files, rfl, hfiles⟩
    rw [hfiles]
    exact h.store hp hpatch hchunk hlt htotal
  refine Prog.Triple.bind (Q := fun _ d => Assembled d.files dl' (log ++ [c])) ?_ fun _ => ?_
  · exact Prog.Triple.onlyIf (fun _ => failOn_spec) fun _ _ => id
  refine Prog.Triple.bind (Q := fun _ => ProgressOf dl' (log ++ [c])) ?_ fun _ => hend
  exact Prog.Triple.modify fun d h => ⟨rfl, h⟩

theorem handleChunk_spec :
    Prog.Triple (Progress m log) (handleChunk replies now c)
      (fun outcome d => Handled m log c d outcome) (fun _ _ => True) fun _ => True := by
  refine Prog.Triple.get_bind fun d ⟨dl, hstate, hm, h⟩ => ?_
  subst hm
  rw [hstate]
  refine Prog.Triple.pre (P := ProgressOf dl log) ?_ fun _ hd => hd ▸ ⟨hstate, h⟩
  refine Prog.Triple.ite (fun _ => Prog.Triple.throw fun _ _ => trivial) fun _ => ?_
  refine Prog.Triple.ite (fun _ => Prog.Triple.throw fun _ _ => trivial) fun hle => ?_
  refine Prog.Triple.bind
    (Q := fun position d => expectedChunkPosition dl.patches = some position ∧ ProgressOf dl log d)
    (Prog.Triple.okOr (fun _ hx _ h => ⟨hx, h⟩) fun _ _ _ => trivial) ?_
  rintro ⟨index, expected⟩
  refine Prog.Triple.assume fun hposition => ?_
  obtain ⟨p, hp, -, hreceived⟩ := expectedChunkPosition_some hposition
  refine Prog.Triple.ite (fun _ => ?_) fun _ => ?_
  · exact Prog.Triple.pure fun d h => .ignored ⟨dl, h.1, rfl, h.2⟩
  refine Prog.Triple.ite (fun _ => requestResume_spec) fun hturn => ?_
  rw [not_or, not_not, not_not] at hturn
  refine Prog.Triple.bind (Q := fun patch d => patch = p ∧ ProgressOf dl log d) ?_ fun patch =>
    Prog.Triple.assume fun hpatch => ?_
  · rw [hp]
    exact Prog.Triple.pure fun _ h => ⟨rfl, h⟩
  · subst hpatch
    exact storeChunk_spec hp hturn.1 (hturn.2.trans hreceived.symm) (UInt16.not_le.mp hle)

theorem markFailed_state (d : Downloader) : ∃ logged, d.markFailed.state = .failed logged := by
  unfold markFailed
  split
  · next logged h => exact ⟨logged, h⟩
  · exact ⟨false, rfl⟩

theorem markFailed_files (d : Downloader) : d.markFailed.files = d.files := by
  unfold markFailed
  split <;> rfl

/-- An event that is not stale does what `respond` does, and an error fails the download. -/
theorem handleEvent_spec {event : FwEvent} {P : Downloader → Prop}
    {Q : EventOutcome → Downloader → Prop} {E : Downloader → Prop}
    (hlive : ∀ d, P d → isStale d.state event = false)
    (h : Prog.Triple P (respond replies now event) Q (fun _ d => E d.markFailed) fun _ => True) :
    Prog.Triple P (handleEvent replies now event) Q (fun _ => E) fun _ => True := by
  refine Prog.Triple.get_bind fun d hd => ?_
  rw [if_neg (by rw [hlive d hd]; intro h; cases h)]
  refine Prog.Triple.bind (Q := Prog.onResult Q fun _ d => E d.markFailed)
    (Prog.Triple.attempt (h.pre fun _ h => h ▸ hd)) fun result => ?_
  cases result with
  | ok outcome => exact Prog.Triple.pure fun _ => id
  | error e =>
    refine Prog.Triple.bind (Q := fun _ => E) (Prog.Triple.modify fun _ => id) fun _ => ?_
    exact Prog.Triple.throw fun _ => id

/-- The event of a chunk while a download is in progress. An error ends the download. -/
theorem handleEvent_chunk_spec :
    Prog.Triple (Progress m log) (handleEvent replies now (.chunk c))
      (fun outcome d => Handled m log c d outcome) (fun _ d => ∃ logged, d.state = .failed logged)
      fun _ => True := by
  refine handleEvent_spec ?_ (handleChunk_spec.conseq (fun _ => id) (fun _ _ => id)
    (fun _ d _ => markFailed_state d) fun _ => id)
  rintro d ⟨dl, hstate, -⟩
  rw [hstate]
  rfl

/-! ## 4. Starting -/

/-- Nothing is left to be overwritten: every patch file that `Starting` opens is new or empty. -/
def Cleared (replies : FsReplies) (metadata : FirmwareUpdateAvailable) (d : Downloader) : Prop :=
  ∀ i < metadata.patchCount.toNat, d.hasWriter (.patch i) = false → replies.openFile i = none →
    (removePatches replies d).files (.patch i) = none ∨
      (removePatches replies d).files (.patch i) = some []

def freshPatch (i : Nat) : PatchState :=
  { filePath := .patch i, position := 0, chunksReceived := 0, totalChunks := none }

/-- The files below `i` are open and empty, the others up to `n` can be opened only empty. -/
structure Opening (replies : FsReplies) (state : DownloadState) (n i : Nat) (d : Downloader) :
    Prop where
  state_eq : d.state = state
  opened : ∀ j < i, d.files (.patch j) = some []
  rest : ∀ j, i ≤ j → j < n → d.hasWriter (.patch j) = false → replies.openFile j = none →
    d.files (.patch j) = none ∨ d.files (.patch j) = some []

theorem openPatchFile_spec {state : DownloadState} {n i : Nat} (hi : i < n) :
    Prog.Triple (Opening replies state n i) (openPatchFile replies i)
      (fun p d => p = freshPatch i ∧ Opening replies state n (i + 1) d) (fun _ _ => True)
      fun _ => True := by
  refine Prog.Triple.get_bind fun d hd => ?_
  refine Prog.Triple.bind (Q := fun _ d' => d.hasWriter (.patch i) = false ∧ d' = d) ?_
    fun _ => Prog.Triple.assume fun hwriter => ?_
  · exact throwIf_spec.post fun _ _ h => ⟨Bool.not_eq_true _ ▸ h.1, h.2⟩
  refine Prog.Triple.bind (Q := fun _ d' => replies.openFile i = none ∧ d' = d) ?_
    fun _ => Prog.Triple.assume fun hopen => ?_
  · cases replies.openFile i with
    | some e => exact Prog.Triple.throw fun _ _ => trivial
    | none => exact Prog.Triple.pure fun _ h => ⟨rfl, h⟩
  refine Prog.Triple.bind (Q := fun _ => Opening replies state n (i + 1)) ?_
    fun _ => Prog.Triple.pure fun _ h => ⟨rfl, h⟩
  refine Prog.Triple.modify fun d' hd' => ?_
  subst hd'
  refine ⟨hd.state_eq, fun j hj => ?_, fun j hij hj hw ho => ?_⟩
  · show Function.update d'.files _ _ _ = _
    by_cases h : j = i
    · subst h
      rw [Function.update_self]
      rcases hd.rest j (Nat.le_refl _) hi hwriter hopen with h | h <;> rw [h] <;> rfl
    · rw [Function.update_of_ne (fun he => h (ReleasePath.patch.inj he))]
      exact hd.opened j (by omega)
  · show Function.update d'.files _ _ _ = _ ∨ Function.update d'.files _ _ _ = _
    rw [Function.update_of_ne (fun he => by cases he; omega)]
    exact hd.rest j (by omega) hj hw ho

theorem openPatchFiles_spec {state : DownloadState} {n : Nat} (left i : Nat) (h : i + left = n) :
    Prog.Triple (Opening replies state n i) (openPatchFiles replies left i)
      (fun patches d => patches = (List.range' i left).map freshPatch ∧
        Opening replies state n n d) (fun _ _ => True) fun _ => True := by
  induction left generalizing i with
  | zero =>
    obtain rfl : i = n := h
    exact Prog.Triple.pure fun _ hd => ⟨rfl, hd⟩
  | succ left ih =>
    refine Prog.Triple.bind (openPatchFile_spec (n := n) (by omega)) fun p => ?_
    refine Prog.Triple.assume fun hp => ?_
    refine Prog.Triple.bind (ih (i + 1) (by omega)) fun patches => ?_
    exact Prog.Triple.pure fun d hd => ⟨by rw [hp, hd.1]; rfl, hd.2⟩

theorem removePatches_state (replies : FsReplies) (d : Downloader) :
    (removePatches replies d).state = d.state := by
  unfold removePatches
  split <;> rfl

theorem hasWriter_congr {d d' : Downloader} (h : d.state = d'.state) (path : ReleasePath) :
    d.hasWriter path = d'.hasWriter path := by
  rw [hasWriter, hasWriter, openPatches, openPatches, h]

/-- A download that has just started is accounted for by the empty log. -/
theorem Assembled.start {files : Files}
    (hfiles : ∀ i < m.patchCount.toNat, files (.patch i) = some []) :
    Assembled files
      { metadata := m
        patches := (List.range' 0 m.patchCount.toNat).map freshPatch
        lastProgressAt := now
        resync := none } [] where
  count := by
    show ((List.range' 0 m.patchCount.toNat).map freshPatch).length = _
    rw [List.length_map, List.length_range']
  known := nofun
  stored := by
    show 0 = (List.map _ ((List.range' 0 m.patchCount.toNat).map freshPatch)).sum
    rw [List.map_map]
    exact (Nat.le_zero.mp (sum_le (b := 0) (fun _ => Nat.le_refl 0) _)).symm
  patches := by
    intro i p hp
    show PatchStored files i p []
    rw [List.getElem?_map, Option.map_eq_some_iff] at hp
    obtain ⟨j, hj, rfl⟩ := hp
    obtain ⟨hi, hij⟩ := List.getElem?_eq_some_iff.mp hj
    rw [List.length_range'] at hi
    rw [List.getElem_range', Nat.zero_add, Nat.one_mul] at hij
    subst hij
    exact ⟨rfl, rfl, nofun, hfiles i hi, rfl⟩

theorem handleStarting_spec :
    Prog.Triple (Cleared replies m) (handleStarting replies now m)
      (fun outcome d => outcome = .none ∧ Progress m [] d) (fun _ _ => True)
      fun _ => True := by
  intro d hd
  refine Prog.Triple.bind (P := (· = d))
    (Q := fun _ => Opening replies d.state m.patchCount.toNat 0) ?_ (fun _ => ?_) d rfl
  · refine Prog.Triple.modify fun d' hd' => ?_
    subst hd'
    refine ⟨removePatches_state replies d', nofun, fun j _ hj hw ho => hd j hj ?_ ho⟩
    rw [← hasWriter_congr (removePatches_state replies d')]
    exact hw
  refine Prog.Triple.bind failOn_spec fun _ => Prog.Triple.bind failOn_spec fun _ => ?_
  refine Prog.Triple.bind (openPatchFiles_spec _ 0 (Nat.zero_add _)) fun patches => ?_
  refine Prog.Triple.assume fun hpatches => ?_
  refine Prog.Triple.bind (Q := fun _ => Progress m []) ?_ fun _ =>
    Prog.Triple.pure fun _ h => ⟨rfl, h⟩
  subst hpatches
  exact Prog.Triple.modify fun d hd => ⟨_, rfl, rfl, .start hd.opened⟩

end Event

/-! ## 5. Runs -/

/-- What the update server hands to its downloader. -/
inductive Input where
  | event (replies : FsReplies) (now : Nat) (event : FwEvent)
  | resumeResult (result : Option String)
  | stallTick (now : Nat)
  | reset

def step : Input → DownloadM EventOutcome
  | .event replies now event => handleEvent replies now event
  | .resumeResult result => do
    handleResumeResult result
    pure .none
  | .stallTick now => do
    Prog.modify (handleStallMonitor now)
    pure .none
  | .reset => do
    Prog.modify resetState
    pure .none

/-- The input does not leave stale bytes under a new download. -/
def Input.Clears : Input → Downloader → Prop
  | .event replies _ (.starting metadata), d => Cleared replies metadata d
  | _, _ => True

/-- The download that was announced last. -/
def announced (inputs : List Input) : Option FirmwareUpdateAvailable :=
  inputs.foldl (fun m input => match input with
    | .event _ _ (.starting metadata) => some metadata
    | _ => m) none

/-- The chunks that have come since then, in the order in which they came. -/
def received (inputs : List Input) : List FirmwareChunk :=
  inputs.foldl (fun chunks input => match input with
    | .event _ _ (.starting _) => []
    | .event _ _ (.chunk c) => chunks ++ [c]
    | _ => chunks) []

/-- A download in progress is accounted for by some of the chunks that have come. -/
def Accounted (inputs : List Input) (d : Downloader) : Prop :=
  ∀ dl, d.state = .inProgress dl → ∃ log, Assembled d.files dl log ∧
    log.Sublist (received inputs) ∧ announced inputs = some dl.metadata

theorem accounted_of_not_inProgress {inputs : List Input} {d : Downloader}
    (h : ∀ dl, d.state ≠ .inProgress dl) : Accounted inputs d :=
  fun dl hdl => absurd hdl (h dl)

theorem Progress.accounted {inputs : List Input} {m : FirmwareUpdateAvailable}
    {log : List FirmwareChunk} {d : Downloader} (h : Progress m log d)
    (hlog : log.Sublist (received inputs)) (hm : announced inputs = some m) :
    Accounted inputs d := by
  obtain ⟨dl, hstate, rfl, hassembled⟩ := h
  intro dl' hdl'
  rw [hstate] at hdl'
  cases hdl'
  exact ⟨log, hassembled, hlog, hm⟩

theorem failed_accounted {inputs : List Input} {d : Downloader}
    (h : ∃ logged, d.state = .failed logged) : Accounted inputs d := by
  obtain ⟨logged, h⟩ := h
  exact accounted_of_not_inProgress fun dl hdl => by rw [h] at hdl; cases hdl

/-- A chunk event from a state without a download in progress writes nothing. -/
theorem respond_chunk_idle {replies : FsReplies} {now : Nat} {c : FirmwareChunk} {d : Downloader}
    (h : ∀ dl, d.state ≠ .inProgress dl) :
    respond replies now (.chunk c) d = (.err .invalidState, d) := by
  show handleChunk replies now c d = _
  unfold handleChunk
  rw [Prog.bind_run, Prog.get_run]
  dsimp only
  cases hstate : d.state with
  | inProgress dl => exact absurd hstate (h dl)
  | idle => rfl
  | failed logged => rfl

theorem handleEvent_stale {replies : FsReplies} {now : Nat} {event : FwEvent} {d : Downloader}
    (h : isStale d.state event = true) :
    handleEvent replies now event d = (.ok .none, { d with state := .failed true }) := by
  show (if isStale d.state event then _ else _ : DownloadM EventOutcome) d = _
  rw [if_pos h]
  rfl

/-- An input that is not a chunk and starts nothing changes no account. -/
theorem Accounted.keep {inputs : List Input} {input : Input} {d : Downloader}
    (h : Accounted inputs d) (hr : received (inputs ++ [input]) = received inputs)
    (ha : announced (inputs ++ [input]) = announced inputs) :
    Accounted (inputs ++ [input]) d := by
  intro dl hdl
  obtain ⟨log, hassembled, hlog, hm⟩ := h dl hdl
  exact ⟨log, hassembled, hr ▸ hlog, ha.trans hm⟩

theorem received_append (inputs : List Input) (input : Input) :
    received (inputs ++ [input]) = match input with
      | .event _ _ (.starting _) => []
      | .event _ _ (.chunk c) => received inputs ++ [c]
      | _ => received inputs := by
  rw [received, List.foldl_append]
  rfl

theorem announced_append (inputs : List Input) (input : Input) :
    announced (inputs ++ [input]) = match input with
      | .event _ _ (.starting metadata) => some metadata
      | _ => announced inputs := by
  rw [announced, List.foldl_append]
  rfl

section Accounts

variable {inputs : List Input} {replies : FsReplies} {now : Nat}

theorem starting_accounted (m : FirmwareUpdateAvailable) :
    Prog.Triple (Cleared replies m) (handleEvent replies now (.starting m))
      (fun _ => Accounted (inputs ++ [.event replies now (.starting m)]))
      (fun _ => Accounted (inputs ++ [.event replies now (.starting m)])) fun _ => True := by
  refine handleEvent_spec (fun d _ => by cases d.state <;> rfl)
    (handleStarting_spec.conseq (fun _ => id) (fun _ d h => ?_)
      (fun _ d _ => failed_accounted (markFailed_state d)) fun _ => id)
  exact h.2.accounted (received_append .. ▸ List.nil_sublist _) (announced_append ..)

/-- A chunk that comes to a download in progress. -/
theorem Handled.accounted {m : FirmwareUpdateAvailable} {log : List FirmwareChunk}
    {c : FirmwareChunk} {d : Downloader} {outcome : EventOutcome} (h : Handled m log c d outcome)
    (hlog : log.Sublist (received inputs)) (hm : announced inputs = some m) :
    Accounted (inputs ++ [.event replies now (.chunk c)]) d := by
  have hr := received_append inputs (.event replies now (.chunk c))
  have ha := (announced_append inputs (.event replies now (.chunk c))).trans hm
  have hkept : log.Sublist (received inputs ++ [c]) :=
    hlog.trans (List.sublist_append_left _ _)
  cases h with
  | ignored h => exact h.accounted (hr ▸ hkept) ha
  | stored h => exact h.accounted (hr ▸ hlog.append (List.Sublist.refl _)) ha
  | retry offset h _ => exact h.accounted (hr ▸ hkept) ha
  | done result _ hidle _ =>
    refine accounted_of_not_inProgress fun dl hdl => ?_
    rw [hidle] at hdl
    cases hdl

theorem chunk_accounted (c : FirmwareChunk) :
    Prog.Triple (Accounted inputs) (handleEvent replies now (.chunk c))
      (fun _ => Accounted (inputs ++ [.event replies now (.chunk c)]))
      (fun _ => Accounted (inputs ++ [.event replies now (.chunk c)])) fun _ => True := by
  intro d hd
  cases hstate : d.state with
  | inProgress dl =>
    obtain ⟨log, h, hlog, hm⟩ := hd dl hstate
    refine handleEvent_chunk_spec.conseq (fun _ => id) (fun _ d' h' => ?_)
      (fun _ d' h' => ?_) (fun _ => id) d ⟨dl, hstate, rfl, h⟩
    · exact h'.accounted hlog hm
    · exact failed_accounted h'
  | idle =>
    have hidle : ∀ dl, d.state ≠ .inProgress dl := fun dl h => by rw [hstate] at h; cases h
    refine handleEvent_spec (P := (· = d)) (fun d' h => by rw [h, hstate]; rfl) ?_ d rfl
    rintro d' rfl
    rw [respond_chunk_idle hidle]
    exact failed_accounted (markFailed_state d')
  | failed logged =>
    rw [handleEvent_stale (by rw [hstate]; rfl)]
    exact failed_accounted ⟨true, rfl⟩

/-- The events that the downloader has nothing to do for, or gives up on. -/
theorem other_accounted {event : FwEvent} (hstart : ∀ m, event ≠ .starting m)
    (hchunk : ∀ c, event ≠ .chunk c) :
    Prog.Triple (Accounted inputs) (handleEvent replies now event)
      (fun _ => Accounted (inputs ++ [.event replies now event]))
      (fun _ => Accounted (inputs ++ [.event replies now event])) fun _ => True := by
  intro d hd
  cases hstale : isStale d.state event with
  | true =>
    rw [handleEvent_stale hstale]
    exact failed_accounted ⟨true, rfl⟩
  | false =>
    refine handleEvent_spec (P := (· = d)) (fun d' h => h ▸ hstale) ?_ d rfl
    rintro d' rfl
    cases event with
    | updateNotAvailable => exact accounted_of_not_inProgress fun _ => nofun
    | starting m => exact absurd rfl (hstart m)
    | downloading => exact hd.keep (received_append ..) (announced_append ..)
    | chunk c => exact absurd rfl (hchunk c)
    | error message => exact failed_accounted (markFailed_state d')

/-- Each input keeps the accounts. -/
theorem step_accounted (input : Input) :
    Prog.Triple (fun d => Accounted inputs d ∧ input.Clears d) (step input)
      (fun _ => Accounted (inputs ++ [input])) (fun _ => Accounted (inputs ++ [input]))
      fun _ => True := by
  cases input with
  | event replies now event =>
    have hother : ∀ event, (∀ m, event ≠ .starting m) → (∀ c, event ≠ .chunk c) →
        Prog.Triple (fun d => Accounted inputs d ∧ Input.Clears (.event replies now event) d)
          (step (.event replies now event))
          (fun _ => Accounted (inputs ++ [.event replies now event]))
          (fun _ => Accounted (inputs ++ [.event replies now event])) fun _ => True :=
      fun event hstart hchunk => (other_accounted hstart hchunk).pre fun _ h => h.1
    cases event with
    | starting m => exact (starting_accounted m).pre fun _ h => h.2
    | chunk c => exact (chunk_accounted c).pre fun _ h => h.1
    | updateNotAvailable => exact (hother _ (fun _ h => by cases h) fun _ h => by cases h)
    | downloading => exact (hother _ (fun _ h => by cases h) fun _ h => by cases h)
    | error message => exact (hother _ (fun _ h => by cases h) fun _ h => by cases h)
  | resumeResult result =>
    have hkeep : ∀ d, Accounted inputs d → Accounted (inputs ++ [.resumeResult result]) d :=
      fun d h => h.keep (received_append ..) (announced_append ..)
    generalize inputs ++ [.resumeResult result] = history at hkeep ⊢
    refine Prog.Triple.bind (Q := fun _ => Accounted history) ?_
      fun _ => Prog.Triple.pure fun _ => id
    refine Prog.Triple.get_bind fun d hd => ?_
    split
    · refine Prog.Triple.bind (Q := fun _ => Accounted history)
        (Prog.Triple.modify fun d' _ => ?_) fun _ => Prog.Triple.throw fun _ => id
      exact failed_accounted (markFailed_state d')
    · exact Prog.Triple.pure fun d' hd' => hkeep d' (hd' ▸ hd.1)
  | stallTick now =>
    refine Prog.Triple.bind (Q := fun _ => Accounted (inputs ++ [.stallTick now]))
      (Prog.Triple.modify fun d hd => ?_) fun _ => Prog.Triple.pure fun _ => id
    have hkeep : Accounted (inputs ++ [.stallTick now]) d :=
      hd.1.keep (received_append ..) (announced_append ..)
    unfold handleStallMonitor
    split
    · split
      · exact hkeep
      · exact failed_accounted (markFailed_state d)
    · exact hkeep
  | reset =>
    refine Prog.Triple.bind (Q := fun _ => Accounted (inputs ++ [.reset]))
      (Prog.Triple.modify fun d _ => ?_) fun _ => Prog.Triple.pure fun _ => id
    exact accounted_of_not_inProgress fun _ => nofun

end Accounts

theorem steps_accounted {inputs inputs' : List Input} {d d' : Downloader}
    (h : Prog.Steps step Input.Clears d inputs' d') (hd : Accounted inputs d) :
    Accounted (inputs ++ inputs') d' := by
  induction h generalizing inputs with
  | nil => rwa [List.append_nil]
  | @cons input inputs' d d₁ d' hC hi _ ih =>
    have hnext := ih (Prog.after_keeps (step_accounted input) ⟨hd, hC⟩ hi)
    rwa [List.append_assoc] at hnext

/-! ## 6. After a failure -/

def Input.Starts : Input → Prop
  | .event _ _ (.starting _) => True
  | _ => False

/-- No download is in progress, and the files are `files`. -/
def Quiet (files : Files) (d : Downloader) : Prop :=
  d.files = files ∧ ∀ dl, d.state ≠ .inProgress dl

theorem Quiet.markFailed {files : Files} {d : Downloader} (h : d.files = files) :
    Quiet files d.markFailed := by
  refine ⟨(markFailed_files d).trans h, fun dl hdl => ?_⟩
  obtain ⟨logged, hlogged⟩ := markFailed_state d
  rw [hlogged] at hdl
  cases hdl

theorem handleEvent_quiet {files : Files} {replies : FsReplies} {now : Nat} {event : FwEvent}
    (hstart : ∀ m, event ≠ .starting m) :
    Prog.Keeps (Quiet files) (handleEvent replies now event) fun _ => True := by
  rintro d ⟨rfl, hd⟩
  cases hstale : isStale d.state event with
  | true =>
    rw [handleEvent_stale hstale]
    exact ⟨rfl, fun _ => nofun⟩
  | false =>
    refine handleEvent_spec (P := (· = d)) (fun d' h => h ▸ hstale) ?_ d rfl
    rintro d' rfl
    cases event with
    | updateNotAvailable => exact ⟨rfl, fun _ => nofun⟩
    | starting m => exact absurd rfl (hstart m)
    | downloading => exact ⟨rfl, hd⟩
    | chunk c =>
      rw [respond_chunk_idle hd]
      exact Quiet.markFailed rfl
    | error message => exact Quiet.markFailed rfl

/-- Without a download in progress, no input but a start writes to a file. -/
theorem step_quiet {files : Files} {input : Input} (h : ¬ input.Starts) :
    Prog.Keeps (Quiet files) (step input) fun _ => True := by
  cases input with
  | event replies now event =>
    refine handleEvent_quiet fun m hm => h ?_
    subst hm
    trivial
  | resumeResult result =>
    refine Prog.Triple.bind ?_ fun _ => Prog.Triple.pure fun _ => id
    refine Prog.Triple.get_bind fun d hd => ?_
    split
    · next hstate => exact absurd hstate (hd.2 _)
    · exact Prog.Triple.pure fun d' hd' => hd' ▸ hd
  | stallTick now =>
    refine Prog.Triple.bind (Prog.Triple.modify fun d hd => ?_) fun _ =>
      Prog.Triple.pure fun _ => id
    unfold handleStallMonitor
    split
    · next hstate => exact absurd hstate (hd.2 _)
    · exact hd
  | reset =>
    refine Prog.Triple.bind (Prog.Triple.modify fun d hd => ?_) fun _ =>
      Prog.Triple.pure fun _ => id
    exact ⟨hd.1, fun _ => nofun⟩

theorem steps_quiet {files : Files} {inputs : List Input} {d d' : Downloader}
    (hinputs : ∀ input ∈ inputs, ¬ input.Starts)
    (h : Prog.Steps step (fun _ _ => True) d inputs d') (hd : Quiet files d) : Quiet files d' := by
  induction h with
  | nil => exact hd
  | cons _ hi _ ih =>
    exact ih (fun i hi => hinputs i (List.mem_cons_of_mem _ hi))
      (Prog.after_keeps (step_quiet (hinputs _ List.mem_cons_self)) hd hi)

theorem handleEvent_err {replies : FsReplies} {now : Nat} {event : FwEvent} {d d' : Downloader}
    {e : DownloadError} (h : handleEvent replies now event d = (.err e, d')) :
    ∃ logged, d'.state = .failed logged := by
  cases hstale : isStale d.state event with
  | true =>
    rw [handleEvent_stale hstale] at h
    cases h
  | false =>
    have hspec : Prog.Triple (· = d) (handleEvent replies now event) (fun _ _ => True)
        (fun _ d => ∃ logged, d.state = .failed logged) fun _ => True := by
      refine handleEvent_spec (fun d' h => h ▸ hstale) (Prog.Triple.of_any fun _ d' => ?_)
      exact markFailed_state d'
    have := hspec d rfl
    rwa [h] at this

/-! ## 7. Reassembly -/

theorem handleStarting_none {replies : FsReplies} {now : Nat} {m : FirmwareUpdateAvailable} :
    Prog.Triple (fun _ => True) (handleStarting replies now m) (fun outcome _ => outcome = .none)
      (fun _ _ => True) fun _ => True := by
  have hopen : ∀ left i, Prog.Triple (fun _ : Downloader => True) (openPatchFiles replies left i)
      (fun _ _ => True) (fun _ _ => True) fun _ => True := fun _ _ =>
    Prog.Triple.of_any fun _ _ => trivial
  refine Prog.Triple.bind (Q := fun _ _ => True) (Prog.Triple.modify fun _ _ => trivial) fun _ => ?_
  refine Prog.Triple.bind failOn_spec fun _ => Prog.Triple.bind failOn_spec fun _ => ?_
  refine Prog.Triple.bind (hopen _ 0) fun _ => ?_
  exact Prog.Triple.bind (Q := fun _ _ => True) (Prog.Triple.modify fun _ _ => trivial)
    fun _ => Prog.Triple.pure fun _ _ => rfl

/-- Only a chunk of a download in progress is reported on. -/
theorem handleEvent_outcome {replies : FsReplies} {now : Nat} {event : FwEvent}
    {d d' : Downloader} {outcome : EventOutcome}
    (h : handleEvent replies now event d = (.ok outcome, d')) :
    outcome = .none ∨ ∃ c dl, event = .chunk c ∧ d.state = .inProgress dl := by
  cases hstale : isStale d.state event with
  | true =>
    rw [handleEvent_stale hstale] at h
    cases h
    exact .inl rfl
  | false =>
    have hspec : (∀ dl, ∀ c, ¬ (event = .chunk c ∧ d.state = .inProgress dl)) →
        Prog.Triple (· = d) (handleEvent replies now event) (fun outcome _ => outcome = .none)
          (fun _ _ => True) fun _ => True := by
      intro hother
      refine handleEvent_spec (fun d' h => h ▸ hstale) ?_
      cases event with
      | updateNotAvailable => exact fun _ _ => rfl
      | starting m => exact handleStarting_none.pre fun _ _ => trivial
      | downloading => exact fun _ _ => rfl
      | chunk c =>
        rintro d' rfl
        rw [respond_chunk_idle fun dl hdl => hother dl c ⟨rfl, hdl⟩]
        trivial
      | error message => exact fun _ _ => trivial
    by_cases hchunk : ∃ c dl, event = .chunk c ∧ d.state = .inProgress dl
    · exact .inr hchunk
    · have := hspec (fun dl c hc => hchunk ⟨c, dl, hc⟩) d rfl
      rw [h] at this
      exact .inl this

/-- Over every run of the downloader in which no start leaves stale bytes under a new
download, whatever the peer sends: a finished download has one file for each announced
patch, which is the concatenation of its chunks, each written once and in order; a retry
asks for the number of chunks stored, which is what the counters count; and after an error
nothing is written until the next start. -/
theorem firmware_downloader_reassembles {files : Files} {inputs : List Input} {d : Downloader}
    (h : Prog.Steps step Input.Clears ⟨files, .idle⟩ inputs d) (replies : FsReplies) (now : Nat)
    (event : FwEvent) :
    (∀ result d', handleEvent replies now event d = (.ok (.done result), d') →
      announced inputs = some result.metadata ∧
      ∃ log : List FirmwareChunk,
        log.Sublist (received (inputs ++ [.event replies now event])) ∧
        Reassembled d'.files result log) ∧
    (∀ offset d', handleEvent replies now event d = (.ok (.retry offset), d') →
      ∃ dl log, d'.state = .inProgress dl ∧ Assembled d'.files dl log ∧
        log.Sublist (received inputs) ∧ offset.toNat = log.length) ∧
    (∀ dl, d.state = .inProgress dl →
      ∃ log, Assembled d.files dl log ∧ log.Sublist (received inputs)) ∧
    (∀ e d', handleEvent replies now event d = (.err e, d') →
      (∃ logged, d'.state = .failed logged) ∧
      ∀ inputs' d'', (∀ input ∈ inputs', ¬ input.Starts) →
        Prog.Steps step (fun _ _ => True) d' inputs' d'' → d''.files = d'.files) := by
  have hacc : Accounted ([] ++ inputs) d :=
    steps_accounted h (accounted_of_not_inProgress fun _ => nofun)
  rw [List.nil_append] at hacc
  have hchunk : ∀ outcome d', handleEvent replies now event d = (.ok outcome, d') →
      outcome ≠ .none → ∃ c m log, event = .chunk c ∧ announced inputs = some m ∧
        log.Sublist (received inputs) ∧ Handled m log c d' outcome := by
    intro outcome d' hrun hne
    obtain rfl | ⟨c, dl, rfl, hstate⟩ := handleEvent_outcome hrun
    · exact absurd rfl hne
    obtain ⟨log, hlog, hsub, hm⟩ := hacc dl hstate
    have hspec : Prog.Triple (Progress dl.metadata log) (handleEvent replies now (.chunk c))
      (fun outcome d => Handled dl.metadata log c d outcome) _ _ := handleEvent_chunk_spec
    have hhandled := hspec d ⟨dl, hstate, rfl, hlog⟩
    rw [hrun] at hhandled
    exact ⟨c, dl.metadata, log, rfl, hm, hsub, hhandled⟩
  refine ⟨fun result d' hrun => ?_, fun offset d' hrun => ?_, fun dl hdl => ?_,
    fun e d' hrun => ⟨handleEvent_err hrun, fun inputs' d'' hinputs hsteps => ?_⟩⟩
  · obtain ⟨c, m, log, rfl, hm, hsub, hhandled⟩ := hchunk _ d' hrun nofun
    cases hhandled with
    | done _ hmeta _ hre =>
      refine ⟨hm.trans (congrArg some hmeta.symm), log ++ [c], ?_, hre⟩
      rw [received_append]
      exact hsub.append (List.Sublist.refl _)
  · obtain ⟨c, m, log, rfl, hm, hsub, hhandled⟩ := hchunk _ d' hrun nofun
    cases hhandled with
    | retry _ hprogress hoffset =>
      obtain ⟨dl, hstate, -, hassembled⟩ := hprogress
      exact ⟨dl, log, hstate, hassembled, hsub, hoffset⟩
  · obtain ⟨log, hlog, hsub, -⟩ := hacc dl hdl
    exact ⟨log, hlog, hsub⟩
  · obtain ⟨logged, hlogged⟩ := handleEvent_err hrun
    exact (steps_quiet hinputs hsteps ⟨rfl, fun dl hdl => by rw [hlogged] at hdl; cases hdl⟩).1

/-! ## 8. Stale bytes -/

def oneChunk : FirmwareChunk :=
  { patchIndex := 0, totalPatches := 1, chunkIndex := 0, totalChunks := 1, data := [1] }

def onePatch : FirmwareUpdateAvailable :=
  { version := "2.0.0", patchCount := 1, changelog := "", timestamp := 0, totalSize := 1 }

/-- The removal of the patches directory leaves what `kept` says; all else succeeds. -/
def repliesKeeping (kept : Bool) : FsReplies :=
  { kept := fun _ => kept
    parentDir := none
    createDir := none
    openFile := fun _ => none
    writeAll := none
    flush := none }

def startKeeping (kept : Bool) : Input := .event (repliesKeeping kept) 0 (.starting onePatch)

/-- A patch file that is longer than the new patch. -/
def staleFiles : Files
  | .patch 0 => some [7, 8, 9]
  | _ => none

theorem firmware_downloader_reassembles_one :
    ∃ d result d', Prog.Steps step Input.Clears ⟨staleFiles, .idle⟩ [startKeeping false] d ∧
      handleEvent (repliesKeeping false) 0 (.chunk oneChunk) d = (.ok (.done result), d') ∧
      announced [startKeeping false] = some result.metadata :=
  have hsteps : Prog.Steps step Input.Clears ⟨staleFiles, .idle⟩ [startKeeping false] _ :=
    .cons (fun _ _ _ _ => .inl rfl) rfl (.nil _)
  ⟨_, _, _, hsteps, rfl,
    ((firmware_downloader_reassembles hsteps (repliesKeeping false) 0 (.chunk oneChunk)).1
      _ _ rfl).1⟩

/-- The removal is refused, its error is ignored, and `CREATE` does not truncate. -/
theorem stale_patch_kept :
    ∃ d result d', Prog.Steps step (fun _ _ => True) ⟨staleFiles, .idle⟩ [startKeeping true] d ∧
      handleEvent (repliesKeeping true) 0 (.chunk oneChunk) d = (.ok (.done result), d') ∧
      ∀ log : List FirmwareChunk, log.Sublist
          (received [startKeeping true, .event (repliesKeeping true) 0 (.chunk oneChunk)]) →
        ¬ Reassembled d'.files result log := by
  refine ⟨_, _, _, .cons trivial rfl (.nil _), rfl, fun log hlog h => ?_⟩
  obtain ⟨total, -, -, hfile⟩ := h.patches 0 (by decide)
  have hone : log.Sublist [oneChunk] := hlog
  rcases List.sublist_cons_iff.mp hone with hnil | ⟨rest, rfl, hnil⟩
  · rw [List.sublist_nil.mp hnil] at hfile
    exact absurd hfile (by decide)
  · rw [List.sublist_nil.mp hnil] at hfile
    exact absurd hfile (by decide)

end Downloader

end Update
