import KeyOS.Emmc.Completions

/-!
# Runs of the pipeline

A step keeps `Sound`, so a run does. The operations are then serial: the log is in the
order of admission wherever ranges overlap, and the reads and the flash are as if the
requests had been served one at a time. What a run may leave behind is work that no
completion will advance.
-/

namespace Emmc

open SerialStore Pipeline

/-! ## 1. Steps and runs -/

def Action.requests : Action → List Request
  | .request r => [r]
  | _ => []

def requestsOf (actions : List Action) : List Request := actions.flatMap Action.requests

/-- No step of the run strands flushes of the inbox. -/
def unstranded (E : CryptEngine) : Machine → List Action → Bool
  | _, [] => true
  | m, a :: rest => !m.pipeline.strandsOn a && (step E m a).all fun m' => unstranded E m' rest

def Machine.Sound (E : CryptEngine) (requests : List Request) (base : Flash) (n : Nat)
    (m : Machine) : Prop := m.pipeline.Sound E requests base n m.flash

variable {E : CryptEngine} {requests : List Request} {base flash : Flash} {n i j : Nat}
  {m m' : Machine} {log : List Event} {a : Action} {actions : List Action} {r : Request}

theorem step_keeps (h : m.Sound E requests base n) (ha : a.requests <+: requests.drop n) :
    ∃ m', step E m a = some m' ∧ m'.Sound E requests base (n + a.requests.length) ∧
      (¬ m.pipeline.Stalled → (m'.pipeline.Stalled ↔ m.pipeline.strandsOn a = true)) := by
  cases a with
  | request r =>
    obtain ⟨rest, hrest⟩ := ha
    have hr : requests[n]? = some r := by
      rw [← Nat.add_zero n, ← List.getElem?_drop, ← hrest]
      rfl
    obtain ⟨p', hp', hsound, hstalled⟩ := Pipeline.Sound.admit h hr
    refine ⟨{ m with pipeline := p' }, ?_, hsound, fun hno => iff_of_false (hstalled hno) (by intro h; cases h)⟩
    simp only [step, hp', Option.bind_eq_bind, Option.bind_some]
    rfl
  | sdmmcDone =>
    cases hrun : m.pipeline.sdmmcRunning with
    | none =>
      refine ⟨m, ?_, h, fun hno => iff_of_false hno ?_⟩
      · obtain ⟨p, flash⟩ := m
        cases p
        cases hrun
        rfl
      · rw [Pipeline.strandsOn, hrun]
        intro h
        cases h
    | some s =>
      obtain ⟨p', hp', hsound, hstalled⟩ := Pipeline.Sound.onSdmmcDone h hrun
      refine ⟨⟨p', s.flashUpdate.apply m.flash⟩, ?_, hsound, fun _ => ?_⟩
      · simp only [step, Machine.sdmmcDone, hrun, Option.map_some, hp', Option.bind_eq_bind,
          Option.bind_some]
        rfl
      · rw [Pipeline.strandsOn, hrun, Option.any_some]
        exact hstalled
  | cryptDone =>
    cases hrun : m.pipeline.cryptRunning with
    | none =>
      refine ⟨m, ?_, h, fun hno => iff_of_false hno ?_⟩
      · obtain ⟨p, flash⟩ := m
        cases p
        cases hrun
        rfl
      · rw [Pipeline.strandsOn, hrun]
        intro h
        cases h
    | some s =>
      obtain ⟨p', hp', hsound, hstalled⟩ := Pipeline.Sound.onDiskEncryptComplete h hrun
      refine ⟨{ m with pipeline := p' }, ?_, hsound, fun _ => ?_⟩
      · simp only [step, Machine.cryptDone, hrun, Option.map_some, hp', Option.bind_eq_bind,
          Option.bind_some]
        rfl
      · rw [Pipeline.strandsOn, hrun, Option.any_some]
        exact hstalled

theorem run_keeps (h : m.Sound E requests base n)
    (hactions : requestsOf actions <+: requests.drop n) :
    ∃ m', run E actions m = some m' ∧
      m'.Sound E requests base (n + (requestsOf actions).length) ∧
      (¬ m.pipeline.Stalled → unstranded E m actions = true → ¬ m'.pipeline.Stalled) := by
  induction actions generalizing m n with
  | nil => exact ⟨m, rfl, h, fun hno _ => hno⟩
  | cons a rest ih =>
    rw [requestsOf, List.flatMap_cons] at hactions ⊢
    obtain ⟨m₁, hstep, hsound, hstalled⟩ := step_keeps h ((List.prefix_append _ _).trans hactions)
    have hrest : requestsOf rest <+: requests.drop (n + a.requests.length) := by
      obtain ⟨tail, htail⟩ := hactions
      refine ⟨tail, ?_⟩
      rw [← List.drop_drop, ← htail, List.append_assoc, List.drop_left]
      rfl
    obtain ⟨m', hrun, hsound', hstalled'⟩ := ih hsound hrest
    refine ⟨m', ?_, ?_, fun hno hunstranded => ?_⟩
    · rw [run, List.foldlM_cons, hstep]
      exact hrun
    · rw [List.length_append, ← Nat.add_assoc]
      exact hsound'
    · rw [unstranded, hstep, Option.all_some, Bool.and_eq_true, Bool.not_eq_true'] at hunstranded
      refine hstalled' (fun hyes => ?_) hunstranded.2
      have := (hstalled hno).1 hyes
      rw [hunstranded.1] at this
      cases this

/-- A run from the start, and one more step. -/
theorem run_new (E : CryptEngine) (flash : Flash) (actions : List Action) (a : Action) :
    ∃ m, run E actions (.new flash) = some m ∧
      (unstranded E (.new flash) actions = true → ¬ m.pipeline.Stalled) ∧
      (¬ m.pipeline.Stalled → ∃ m', step E m a = some m' ∧
        (m'.pipeline.Stalled ↔ m.pipeline.strandsOn a = true)) := by
  have hnew : (Machine.new flash).Sound E (requestsOf (actions ++ [a])) flash 0 := .new E _ flash
  have hnot : ¬ (Machine.new flash).pipeline.Stalled := fun h => h.2.2.elim (· rfl) (· rfl)
  have happend : requestsOf (actions ++ [a]) = requestsOf actions ++ a.requests := by
    rw [requestsOf, List.flatMap_append, List.flatMap_singleton]
    rfl
  obtain ⟨m, hrun, hsound, hstalled⟩ := run_keeps hnew
    (by rw [happend]; exact List.prefix_append _ _ : requestsOf actions <+: _)
  have ha : a.requests <+: (requestsOf (actions ++ [a])).drop (0 + (requestsOf actions).length) := by
    have hdrop : (requestsOf (actions ++ [a])).drop (0 + (requestsOf actions).length) =
        a.requests := by rw [happend, Nat.zero_add, List.drop_left]
    exact hdrop ▸ List.prefix_rfl
  obtain ⟨m', hstep, -, hstalled'⟩ := step_keeps hsound ha
  exact ⟨m, hrun, hstalled hnot, fun hno => ⟨m', hstep, hstalled' hno⟩⟩

/-! ## 2. Progress -/

/-- As long as no step strands flushes of the inbox, a completion is pending whenever work
is waiting; and the next step breaks that exactly if it strands some. -/
theorem never_stalls (E : CryptEngine) (flash : Flash) (actions : List Action)
    (h : unstranded E (.new flash) actions = true) :
    ∃ m, run E actions (.new flash) = some m ∧ ¬ m.pipeline.Stalled ∧
      ∀ a, ∃ m', step E m a = some m' ∧
        (m'.pipeline.Stalled ↔ m.pipeline.strandsOn a = true) := by
  obtain ⟨m, hrun, hstalled, -⟩ := run_new E flash actions .sdmmcDone
  refine ⟨m, hrun, hstalled h, fun a => ?_⟩
  obtain ⟨m₁, hrun₁, -, hstep⟩ := run_new E flash actions a
  cases hrun.symm.trans hrun₁
  exact hstep (hstalled h)

/-! ## 3. Serial execution -/

/-- What the request was answered. -/
def answers (log : List Event) (i : Nat) : List (List UInt8) :=
  log.filterMap fun
    | .respond j data => if j = i then some data else none
    | _ => none

/-- The log is that of a run in which operations pass each other only where that makes no
difference. -/
structure Serialised (E : CryptEngine) (requests : List Request) (base : Flash)
    (log : List Event) : Prop where
  /-- A transfer starts after the earlier operations that it overlaps are over. -/
  overlapping : ∀ l₁ l₂ i j direction range r r',
    log = l₁ ++ .sdmmcDma j direction range :: l₂ → i < j → requests[i]? = some r →
      requests[j]? = some r' → r.range.rangesOverlap r'.range = true → .released i ∈ l₁
  /-- An operation that is over takes no further step. -/
  finished : ∀ l₁ l₂ i, log = l₁ ++ .released i :: l₂ → ∀ e ∈ l₂, e.seq? ≠ some i
  /-- A flush is answered after everything earlier is over. -/
  flush_after : ∀ l₁ l₂ j data r, log = l₁ ++ .respond j data :: l₂ → requests[j]? = some r →
    r.op = .flush → ∀ i < j, .released i ∈ l₁
  /-- A later transfer starts after the flush is answered. -/
  flush_before : ∀ l₁ l₂ j k direction range r, log = l₁ ++ .sdmmcDma k direction range :: l₂ →
    j < k → requests[j]? = some r → r.op = .flush → Answered l₁ j
  /-- No request is answered twice, and the answer is that of a serial execution. -/
  answered : ∀ i r, requests[i]? = some r →
    answers log i = [] ∨ answers log i = [r.answer E (serialFlash E requests base i)]

theorem answers_append (log log' : List Event) (i : Nat) :
    answers (log ++ log') i = answers log i ++ answers log' i := List.filterMap_append

theorem answers_eq_nil_iff : answers log i = [] ↔ ¬ Answered log i := by
  rw [answers, List.filterMap_eq_nil_iff]
  constructor
  · rintro h ⟨data, hdata⟩
    have := h _ hdata
    exact absurd ((if_pos rfl).symm.trans this) nofun
  · intro h e he
    cases e with
    | respond j data =>
      refine if_neg fun heq => h ⟨data, ?_⟩
      rwa [← heq]
    | _ => rfl

theorem Justified.answers (h : Justified E requests base log) (hr : requests[i]? = some r) :
    answers log i = [] ∨ answers log i = [r.answer E (serialFlash E requests base i)] := by
  induction h with
  | nil => exact .inl rfl
  | @record log e h hdue ih =>
    rw [answers_append]
    by_cases he : ∃ data, e = .respond i data
    · obtain ⟨data, rfl⟩ := he
      obtain ⟨-, hno, r', hr', hdata, -⟩ := hdue
      cases hr.symm.trans hr'
      rw [answers_eq_nil_iff.2 hno, hdata]
      exact .inr (by simp [Emmc.answers])
    · have hnone : Emmc.answers [e] i = [] := by
        refine answers_eq_nil_iff.2 fun ⟨data, hdata⟩ => he ⟨data, ?_⟩
        exact (List.mem_singleton.1 hdata).symm
      rw [hnone, List.append_nil]
      exact ih

theorem Justified.serialised (h : Justified E requests base log) :
    Serialised E requests base log where
  overlapping l₁ l₂ i j direction range r r' hlog hij hr hr' hoverlap := by
    obtain ⟨-, r'', hr'', -, hearlier⟩ := h.due hlog
    cases hr'.symm.trans hr''
    exact hearlier i r hij hr hoverlap
  finished l₁ l₂ i hlog e he hseq := by
    obtain ⟨l, l', rfl⟩ := List.append_of_mem he
    rw [← List.cons_append, ← List.append_assoc] at hlog
    exact (h.due hlog).not_released hseq (List.mem_append_right _ (.head _))
  flush_after l₁ l₂ j data r hlog hr hop := by
    obtain ⟨-, -, r', hr', -, hearlier⟩ := h.due hlog
    cases hr.symm.trans hr'
    exact hearlier hop
  flush_before l₁ l₂ j k direction range r hlog hjk hr hop := by
    obtain ⟨-, r', hr', -, hearlier⟩ := h.due hlog
    have hreleased : .released j ∈ l₁ := by
      refine hearlier j r hjk hr ?_
      rw [Request.range_of_flush hop]
      exact r'.full_overlaps
    obtain ⟨l, l', rfl⟩ := List.append_of_mem hreleased
    rw [List.append_assoc] at hlog
    exact (h.due hlog).2.1.mono _
  answered i r hr := h.answers hr

/-- Every run is serial as far as it has come. As long as no step strands flushes of the
inbox, idle channels mean that every request has its answer, and that the flash is that of
a serial execution. -/
theorem pipeline_serial (E : CryptEngine) (flash : Flash) (actions : List Action) :
    ∃ m, run E actions (.new flash) = some m ∧
      Serialised E (requestsOf actions) flash m.pipeline.log ∧
      (∀ i, .released i ∈ m.pipeline.log ↔
        i < (requestsOf actions).length ∧ ∀ s ∈ m.pipeline.pending, s.seq ≠ i) ∧
      (unstranded E (.new flash) actions = true → m.pipeline.sdmmcRunning = none →
        m.pipeline.cryptRunning = none →
        (∀ i r, (requestsOf actions)[i]? = some r → answers m.pipeline.log i =
          [r.answer E (serialFlash E (requestsOf actions) flash i)]) ∧
        m.flash = serialFlash E (requestsOf actions) flash (requestsOf actions).length) := by
  have hnew : (Machine.new flash).Sound E (requestsOf actions) flash 0 := .new E _ flash
  have hnot : ¬ (Machine.new flash).pipeline.Stalled := fun h => h.2.2.elim (· rfl) (· rfl)
  obtain ⟨m, hrun, hsound, hstalled⟩ := run_keeps hnew List.prefix_rfl
  rw [Nat.zero_add] at hsound
  have hinFlight := hsound.inFlight
  refine ⟨m, hrun, hinFlight.justified.serialised, hinFlight.released_iff, ?_⟩
  intro hunstranded hsdmmc hcrypt
  have hwaiting : m.pipeline.ops = [] ∧ m.pipeline.inbox = [] := by
    have hno := hstalled hnot hunstranded
    by_contra hsome
    exact hno ⟨hsdmmc, hcrypt, not_and_or.1 hsome⟩
  have hpending : m.pipeline.pending = [] := by
    rw [pending, hsdmmc, hcrypt, hwaiting.1, hwaiting.2]
    rfl
  have hreleased : ∀ i < (requestsOf actions).length, .released i ∈ m.pipeline.log := by
    intro i hi
    refine (hinFlight.released_iff i).2 ⟨hi, ?_⟩
    simp [hpending]
  constructor
  · intro i r hr
    have hi := (List.getElem?_eq_some_iff.1 hr).1
    refine (hinFlight.justified.answers hr).resolve_left fun hnone => ?_
    exact answers_eq_nil_iff.1 hnone
      (hinFlight.justified.answered_of_released (hreleased i hi))
  · rw [serialFlash, List.take_of_length_le (Nat.le_of_eq (List.length_map _))]
    refine hinFlight.holds.final fun i hi => hreleased i ?_
    rwa [List.length_map] at hi

/-! ## 4. Flushes that are left behind -/

/-- A cipher that does nothing. -/
def plainEngine : CryptEngine := ⟨fun _ _ _ src => src, fun _ _ _ _ => rfl⟩

def oneBlockWrite : Request :=
  ⟨.plainWriteSdmmc (List.replicate 512 1), ⟨0, 1⟩, by decide, Nat.le_of_eq List.length_replicate.symm⟩

def flushRequest : Request := ⟨.flush, .full, rfl⟩

/-- Eight flushes are admitted behind a write, and the last one goes to the inbox. The
completion of the write answers the other seven. -/
def strandedRun : List Action :=
  .request oneBlockWrite :: List.replicate 8 (.request flushRequest) ++ [.sdmmcDone]

theorem never_stalls_write :
    ∃ m, run plainEngine [.request oneBlockWrite, .sdmmcDone] (.new fun _ => 0) = some m ∧
      ¬ m.pipeline.Stalled ∧ ∀ a, ∃ m', step plainEngine m a = some m' ∧
        (m'.pipeline.Stalled ↔ m.pipeline.strandsOn a = true) :=
  never_stalls plainEngine (fun _ => 0) [.request oneBlockWrite, .sdmmcDone] (by decide +kernel)

theorem strandedRun_stalls :
    ∃ m, run plainEngine strandedRun (.new fun _ => 0) = some m ∧ m.pipeline.Stalled :=
  ⟨_, rfl, rfl, rfl, .inl nofun⟩

theorem strandedRun_unanswered :
    ∃ m, run plainEngine strandedRun (.new fun _ => 0) = some m ∧
      m.pipeline.sdmmcRunning = none ∧ m.pipeline.cryptRunning = none ∧
      (requestsOf strandedRun)[8]? = some flushRequest ∧ answers m.pipeline.log 8 = [] :=
  ⟨_, rfl, rfl, rfl, rfl, rfl⟩

end Emmc
