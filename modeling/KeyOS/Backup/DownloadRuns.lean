import KeyOS.Backup.Downloader
import KeyOS.Update.DownloadRuns

/-!
# Reassembly of a backup

While a download is in progress, the chunks received since it was started are numbered in order,
and the file is their data. An event that is orderly keeps this, and one that is not goes wrong at
once.
-/

namespace Backup.Download

open Exec Prog
open Update (Bytes FsError overwrite)
open Update.Downloader (overwrite_end)

namespace Downloader

variable {received : List BackupChunk} {d : Downloader} {dl : InProgress} {replies : Replies}
  {metadata : BackupMetadata} {c : BackupChunk}

/-! ## 1. One event -/

def started (metadata : BackupMetadata) : InProgress :=
  { position := 0, filePath := restorePath, metadata, chunksReceived := 0 }

theorem handleEvent_ok (event : RestoreEvent) {d' : Downloader} {r : Option Complete}
    (h : respond replies event d = (.ok r, d')) : handleEvent replies event d = (.ok r, d') := by
  simp only [handleEvent, attempt, bind_run, h, pure_run]

theorem handleEvent_err (event : RestoreEvent) {d' : Downloader} {e : Error}
    (h : respond replies event d = (.err e, d')) :
    handleEvent replies event d = (.err e, d'.resetState) := by
  simp only [handleEvent, attempt, bind_run, h, modify_run, throw_run]

theorem handleEvent_panic (event : RestoreEvent) {d' : Downloader} {o : Overflow}
    (h : respond replies event d = (.panic o, d')) : handleEvent replies event d = (.panic o, d') := by
  simp only [handleEvent, attempt, bind_run, h]

theorem remove_state (replies : Replies) (d : Downloader) : (d.remove replies).state = d.state := by
  unfold remove
  split
  · rfl
  · split
    · rfl
    · rfl

theorem starting_idle (metadata : BackupMetadata) (hidle : d.state = .idle) (hopen : replies.openFile = none) :
    handleEvent replies (.starting metadata) d =
      (.ok none, { file := some ((d.remove replies).file.getD [])
                   state := .inProgress (started metadata) }) := by
  refine handleEvent_ok _ ?_
  have hstate : (d.remove replies).state = .idle := (remove_state replies d).trans hidle
  simp only [respond, handleStarting, openFile, bind_run, modify_run, get_run, hstate, hopen,
    pure_run]
  rfl

/-- A download that is in progress keeps its file open, so no other can be started. -/
theorem starting_refused (metadata : BackupMetadata) (h : d.state ≠ .idle ∨ replies.openFile ≠ none) :
    ∃ e, handleEvent replies (.starting metadata) d = (.err e, (d.remove replies).resetState) := by
  have hrun : ∃ e, openFile replies (d.remove replies) = (.err e, d.remove replies) := by
    unfold openFile
    rw [bind_run, get_run]
    dsimp only
    rw [remove_state]
    cases hstate : d.state with
    | inProgress dl => exact ⟨_, rfl⟩
    | idle =>
      obtain ⟨e, he⟩ := Option.ne_none_iff_exists'.1 (h.resolve_left (by simp [hstate]))
      rw [he]
      exact ⟨_, rfl⟩
  obtain ⟨e, he⟩ := hrun
  refine ⟨e, handleEvent_err _ ?_⟩
  simp only [respond, handleStarting, bind_run, modify_run, he]

/-- A download that starts properly is exactly one that can be started. -/
theorem starting_iff (metadata : BackupMetadata) :
    (∃ dl, (handleEvent replies (.starting metadata) d).2.downloads dl ∧ dl.chunksReceived = 0 ∧
      dl.position = 0 ∧ dl.metadata = metadata ∧
      (handleEvent replies (.starting metadata) d).2.file = some []) ↔ CanStart replies d := by
  by_cases h : d.state = .idle ∧ replies.openFile = none
  · rw [starting_idle metadata h.1 h.2]
    have hfile : (d.remove replies).file.getD [] = [] ↔
        (replies.kept = true → d.file.getD [] = []) := by
      unfold remove
      rw [h.1]
      cases replies.kept <;> simp
    constructor
    · rintro ⟨dl, -, -, -, -, hempty⟩
      exact ⟨h.1, h.2, hfile.1 (Option.some.inj hempty)⟩
    · rintro ⟨-, -, hkept⟩
      exact ⟨_, rfl, rfl, rfl, rfl, congrArg some (hfile.2 hkept)⟩
  · have hor : d.state ≠ .idle ∨ replies.openFile ≠ none := by
      rw [← not_and_or]
      exact h
    obtain ⟨e, he⟩ := starting_refused metadata hor
    rw [he]
    constructor
    · rintro ⟨dl, hdl, -⟩
      cases hdl
    · exact fun hcan => absurd ⟨hcan.1, hcan.2.1⟩ h

/-- A chunk that is not the next one, or cannot be written, ends the download. -/
theorem chunk_refused (h : ∀ dl, ¬ IsNext replies c d dl) :
    ∃ e d', handleEvent replies (.chunk c) d = (.err e, d') ∧ d'.state = .idle := by
  have hrun : ∃ e d', handleChunk replies c d = (.err e, d') := by
    unfold handleChunk
    rw [bind_run, get_run]
    dsimp only
    cases hstate : d.state with
    | idle => exact ⟨_, _, rfl⟩
    | inProgress dl =>
      dsimp only
      by_cases hindex : c.chunkIndex = dl.chunksReceived
      · rw [bind_ok _ (onlyIf_false_run (not_not.2 hindex) _ d)]
        cases hwrite : replies.writeAll with
        | none => exact absurd ⟨hstate, hindex, hwrite⟩ (h dl)
        | some failure =>
          obtain ⟨written, e⟩ := failure
          have hfail : ∃ d', writeAll replies dl.position c.data d = (.err (.io e), d') := by
            unfold writeAll
            rw [hwrite]
            exact ⟨_, rfl⟩
          obtain ⟨d', hfail⟩ := hfail
          exact ⟨_, _, bind_err _ hfail⟩
      · exact ⟨_, d, bind_err _ (onlyIf_true_run hindex (Prog.throw Error.invalidChunk) d)⟩
  obtain ⟨e, d', hrun⟩ := hrun
  exact ⟨e, _, handleEvent_err _ hrun, rfl⟩

/-! ## 2. The next chunk -/

/-- The download after one more chunk -/
def next (dl : InProgress) (c : BackupChunk) : InProgress :=
  { dl with
    position := dl.position + c.data.length
    chunksReceived := dl.chunksReceived + 1 }

/-- The downloader after one more chunk is written -/
def written (d : Downloader) (dl : InProgress) (c : BackupChunk) : Downloader :=
  { file := d.file.map fun content => overwrite content dl.position c.data
    state := .inProgress (next dl c) }

/-- What is done once the chunk is written and counted -/
def finish (replies : Replies) (c : BackupChunk) (dl : InProgress) : DownloadM (Option Complete) :=
  if c.chunkIndex = c.totalChunks - 1 then do
    Prog.onlyIf (dl.chunksReceived ≠ dl.metadata.totalChunks) (Prog.throw .invalidChunk)
    Prog.modify resetState
    match replies.flush with
      | some e => Prog.throw (.io e)
      | none => Pure.pure (some { filePath := dl.filePath })
  else Pure.pure none

theorem handleChunk_next (h : IsNext replies c d dl) :
    handleChunk replies c d =
      (if dl.chunksReceived = 0xFFFFFFFF then
        (.panic .add, { written d dl c with state := .inProgress dl })
      else if c.totalChunks = 0 then (.panic .sub, written d dl c)
      else finish replies c (next dl c) (written d dl c)) := by
  obtain ⟨file, state⟩ := d
  obtain ⟨hstate, hindex, hwrite⟩ := h
  obtain rfl : state = .inProgress dl := hstate
  have hwritten : writeAll replies dl.position c.data ⟨file, .inProgress dl⟩ =
      (.ok (), { written ⟨file, .inProgress dl⟩ dl c with state := .inProgress dl }) := by
    unfold writeAll
    rw [hwrite]
    rfl
  unfold handleChunk
  rw [bind_ok _ (get_run _)]
  dsimp only
  rw [bind_ok _ (onlyIf_false_run (not_not.2 hindex) _ _), bind_ok _ hwritten]
  by_cases hmax : dl.chunksReceived = 0xFFFFFFFF
  · rw [if_pos hmax]
    exact bind_panic _ (onlyIf_true_run hmax (Prog.panic Overflow.add) _)
  · rw [if_neg hmax, bind_ok _ (onlyIf_false_run hmax _ _), bind_ok _ (modify_run _ _)]
    by_cases hzero : c.totalChunks = 0
    · rw [if_pos hzero]
      exact bind_panic _ (onlyIf_true_run hzero (Prog.panic Overflow.sub) _)
    · rw [if_neg hzero]
      exact bind_ok _ (onlyIf_false_run hzero _ _)

theorem finish_cases (replies : Replies) (c : BackupChunk) (dl : InProgress) (d : Downloader) :
    (∃ e d', finish replies c dl d = (.err e, d')) ∨ finish replies c dl d = (.ok none, d) ∨
      (dl.chunksReceived = dl.metadata.totalChunks ∧
        finish replies c dl d = (.ok (some { filePath := dl.filePath }), d.resetState)) := by
  unfold finish
  split
  · by_cases htotal : dl.chunksReceived = dl.metadata.totalChunks
    · rw [bind_ok _ (onlyIf_false_run (not_not.2 htotal) _ d), bind_ok _ (modify_run _ _)]
      cases replies.flush with
      | some e => exact .inl ⟨_, _, rfl⟩
      | none => exact .inr (.inr ⟨htotal, rfl⟩)
    · exact .inl ⟨_, d, bind_err _ (onlyIf_true_run htotal (Prog.throw Error.invalidChunk) d)⟩
  · exact .inr (.inl rfl)

/-- What the next chunk does when it is orderly -/
theorem chunk_cases (h : IsNext replies c d dl) (hmax : dl.chunksReceived ≠ 0xFFFFFFFF)
    (hzero : c.totalChunks ≠ 0) :
    (∃ e d', handleEvent replies (.chunk c) d = (.err e, d') ∧ d'.state = .idle) ∨
      handleEvent replies (.chunk c) d = (.ok none, written d dl c) ∨
      (dl.chunksReceived + 1 = dl.metadata.totalChunks ∧
        handleEvent replies (.chunk c) d =
          (.ok (some { filePath := dl.filePath }), (written d dl c).resetState)) := by
  have hrun := handleChunk_next h
  rw [if_neg hmax, if_neg hzero] at hrun
  rcases finish_cases replies c (next dl c) (written d dl c) with
    ⟨e, d', hfinish⟩ | hfinish | ⟨htotal, hfinish⟩
  · exact .inl ⟨e, _, handleEvent_err (.chunk c) (hrun.trans hfinish), rfl⟩
  · exact .inr (.inl (handleEvent_ok (.chunk c) (hrun.trans hfinish)))
  · exact .inr (.inr ⟨htotal, handleEvent_ok (.chunk c) (hrun.trans hfinish)⟩)

/-- A chunk overflows the arithmetic exactly when it is not orderly. -/
theorem chunk_computes_iff :
    (∀ o, (handleEvent replies (.chunk c) d).1 ≠ .panic o) ↔
      ∀ dl, IsNext replies c d dl → c.totalChunks ≠ 0 ∧ dl.chunksReceived ≠ 0xFFFFFFFF := by
  constructor
  · intro hno dl h
    have hrun := handleChunk_next h
    by_cases hmax : dl.chunksReceived = 0xFFFFFFFF
    · rw [if_pos hmax] at hrun
      exact absurd (congrArg Prod.fst (handleEvent_panic (.chunk c) hrun)) (hno _)
    · rw [if_neg hmax] at hrun
      refine ⟨fun hzero => ?_, hmax⟩
      rw [if_pos hzero] at hrun
      exact absurd (congrArg Prod.fst (handleEvent_panic (.chunk c) hrun)) (hno _)
  · intro hall o
    by_cases h : ∃ dl, IsNext replies c d dl
    · obtain ⟨dl, h⟩ := h
      obtain ⟨hzero, hmax⟩ := hall dl h
      rcases chunk_cases h hmax hzero with ⟨e, d', hrun, -⟩ | hrun | ⟨-, hrun⟩ <;> rw [hrun] <;>
        nofun
    · obtain ⟨e, d', hrun, -⟩ := chunk_refused fun dl hdl => h ⟨dl, hdl⟩
      rw [hrun]
      nofun

/-! ## 3. The chunks of a download -/

/-- The chunks received account for the download and its file. -/
structure Stored (received : List BackupChunk) (d : Downloader) (dl : InProgress) : Prop where
  numbers : received.map (·.chunkIndex.toNat) = List.range received.length
  count : received.length = dl.chunksReceived.toNat
  file : d.file = some (received.flatMap BackupChunk.data)
  position : dl.position = (received.flatMap BackupChunk.data).length

/-- While a download is in progress, the chunks received account for it. -/
def Accounted (received : List BackupChunk) (d : Downloader) : Prop :=
  ∀ dl, d.downloads dl → Stored received d dl

theorem accounted_idle (h : d.state = .idle) : Accounted received d := fun dl hdl => by
  cases h.symm.trans hdl

theorem Stored.step (h : Stored received d dl) (hnext : IsNext replies c d dl)
    (hmax : dl.chunksReceived ≠ 0xFFFFFFFF) :
    Stored (received ++ [c]) (written d dl c) (next dl c) where
  numbers := by
    rw [List.map_append, h.numbers, List.map_singleton, List.length_append, List.length_singleton,
      List.range_succ, hnext.2.1, h.count]
  count := by
    have hlt : dl.chunksReceived.toNat + 1 < 2 ^ 32 := by
      have hbound := dl.chunksReceived.toNat_lt
      have hne : dl.chunksReceived.toNat ≠ 4294967295 := fun heq =>
        hmax (UInt32.toNat_inj.1 heq)
      omega
    rw [List.length_append, List.length_singleton, h.count, next, UInt32.toNat_add]
    exact (Nat.mod_eq_of_lt hlt).symm
  file := by
    rw [written, h.file, Option.map_some, h.position, overwrite_end, List.flatMap_append,
      List.flatMap_singleton]
  position := by
    rw [List.flatMap_append, List.flatMap_singleton, List.length_append, ← h.position]
    rfl

/-- An orderly event does what it should, and keeps the account. -/
theorem entry_spec (h : Accounted received d) (input : Input) (horderly : Orderly input d) :
    Exact (entry received d input) ∧
      Accounted (entry received d input).received (entry received d input).after := by
  obtain ⟨event, replies⟩ := input
  unfold entry
  dsimp only
  cases event with
  | notFound =>
    have hrun : handleEvent replies .notFound d = (.err .noBackupFound, d.resetState) :=
      handleEvent_err .notFound rfl
    rw [hrun]
    exact ⟨⟨nofun, nofun, nofun⟩, accounted_idle rfl⟩
  | error message =>
    have hrun : handleEvent replies (.error message) d = (.err .envoyError, d.resetState.resetState) :=
      handleEvent_err (.error message) rfl
    rw [hrun]
    exact ⟨⟨nofun, nofun, nofun⟩, accounted_idle rfl⟩
  | starting metadata =>
    have hstarted := (starting_iff metadata).2 (horderly : CanStart replies d)
    have hrun := starting_idle metadata horderly.1 horderly.2.1
    refine ⟨⟨fun metadata' heq => ?_, fun o => ?_, fun result => ?_⟩, fun dl hdl => ?_⟩
    · cases heq
      exact hstarted
    · dsimp only
      rw [hrun]
      nofun
    · dsimp only
      rw [hrun]
      nofun
    · obtain ⟨dl', hdl', hcount, hposition, -, hfile⟩ := hstarted
      cases hdl'.symm.trans hdl
      exact ⟨rfl, by rw [hcount]; rfl, hfile, hposition⟩
  | chunk c =>
    have hcomputes := chunk_computes_iff.2 (horderly : ∀ dl, IsNext replies c d dl → _)
    by_cases hnext : ∃ dl, IsNext replies c d dl
    · obtain ⟨dl, hnext⟩ := hnext
      obtain ⟨hzero, hmax⟩ := horderly dl hnext
      have hstored := (h dl hnext.1).step hnext hmax
      rcases chunk_cases hnext hmax hzero with ⟨e, d', hrun, hidle⟩ | hrun | ⟨htotal, hrun⟩
      · rw [hrun]
        exact ⟨⟨nofun, nofun, nofun⟩, accounted_idle hidle⟩
      · rw [hrun]
        refine ⟨⟨nofun, nofun, nofun⟩, fun dl' hdl' => ?_⟩
        cases hdl'
        exact hstored
      · rw [hrun]
        have htotal : (received ++ [c]).length = dl.metadata.totalChunks.toNat :=
          hstored.count.trans (congrArg UInt32.toNat htotal)
        exact ⟨⟨nofun, nofun, fun _ _ => ⟨hstored.numbers, ⟨dl, hnext.1, htotal⟩, hstored.file⟩⟩,
          accounted_idle rfl⟩
    · obtain ⟨e, d', hrun, hidle⟩ := chunk_refused fun dl hdl => hnext ⟨dl, hdl⟩
      rw [hrun]
      exact ⟨⟨nofun, nofun, nofun⟩, accounted_idle hidle⟩

theorem Exact.orderly {input : Input} (h : Exact (entry received d input)) : Orderly input d := by
  obtain ⟨event, replies⟩ := input
  cases event with
  | notFound => trivial
  | error message => trivial
  | starting metadata => exact (starting_iff metadata).1 (h.started metadata rfl)
  | chunk c => exact chunk_computes_iff.1 h.computes

/-! ## 4. Runs -/

theorem run_exact (h : Accounted received d) (inputs : List Input)
    (horderly : ∀ e ∈ run received d inputs, Orderly e.input e.before) :
    ∀ e ∈ run received d inputs, Exact e := by
  induction inputs generalizing received d with
  | nil => exact fun e he => absurd he List.not_mem_nil
  | cons input inputs ih =>
    have hfirst : entry received d input ∈ run received d (input :: inputs) := by
      rw [run]
      split
      · exact List.mem_cons_self
      · exact List.mem_cons_self
    obtain ⟨hexact, hnext⟩ := entry_spec h input (horderly _ hfirst)
    have hrun : run received d (input :: inputs) = entry received d input ::
        run (entry received d input).received (entry received d input).after inputs := by
      rw [run]
      split
      next o ho => exact absurd ho (hexact.computes o)
      next => rfl
    rw [hrun] at horderly ⊢
    intro e he
    rcases List.mem_cons.1 he with rfl | he
    · exact hexact
    · exact ih hnext (fun e he => horderly e (List.mem_cons_of_mem _ he)) e he

theorem mem_run {inputs : List Input} {e : Entry} (he : e ∈ run received d inputs) :
    ∃ received, e = entry received e.before e.input := by
  induction inputs generalizing received d with
  | nil => cases he
  | cons input inputs ih =>
    rw [run] at he
    split at he
    · rw [List.mem_singleton.1 he]
      exact ⟨received, rfl⟩
    · rcases List.mem_cons.1 he with rfl | he
      · exact ⟨received, rfl⟩
      · exact ih he

/-- Every event of a run does what it should, whatever file is there at first, if and only if every
event is orderly: no download is started while another is in progress or over a file that cannot be
emptied, and no chunk that is written announces a total of zero. -/
theorem downloads_exact_iff (file : Option Bytes) (inputs : List Input) :
    (∀ e ∈ run [] (.new file) inputs, Exact e) ↔
      ∀ e ∈ run [] (.new file) inputs, Orderly e.input e.before := by
  constructor
  · intro h e he
    obtain ⟨received, heq⟩ := mem_run he
    exact Exact.orderly (heq ▸ h e he)
  · exact run_exact (accounted_idle rfl) inputs

/-- The file server does not fail, and nobody else has the file open. -/
def plainReplies : Replies := { kept := false, openFile := none, writeAll := none, flush := none }

/-- A download that is started anew while it is in progress is refused: its own file is open. -/
theorem restart_refused :
    ¬ ∀ e ∈ run [] (.new none)
        [⟨.starting { totalChunks := 3 }, plainReplies⟩,
          ⟨.starting { totalChunks := 3 }, plainReplies⟩], Exact e := by
  intro h
  have hsecond := (h (entry [] ⟨some [], .inProgress (started { totalChunks := 3 })⟩
    ⟨.starting { totalChunks := 3 }, plainReplies⟩) 
    (List.mem_cons_of_mem _ List.mem_cons_self)).started _ rfl
  obtain ⟨dl, hdl, -⟩ := hsecond
  cases hdl

end Downloader

end Backup.Download
