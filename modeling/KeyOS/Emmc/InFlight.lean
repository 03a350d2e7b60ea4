import KeyOS.Emmc.Serial

/-!
# Operations in flight

`Due` says when an event may be logged. `InFlight` is the bookkeeping of the admitted
operations that are not over yet, in whichever queue they are; its rules follow one
operation through one step. The requests of the whole run are a parameter.
-/

namespace Emmc

open SerialStore

/-! ## 1. Events -/

/-- The operation that an event is about. -/
def Event.seq? : Event → Option Nat
  | .sdmmcDma seq .. => some seq
  | .diskEncrypt seq .. => some seq
  | .respond seq _ => some seq
  | .released seq => some seq
  | _ => none

/-- The transfer of the operation was started. -/
def Started (log : List Event) (seq : Nat) : Prop :=
  ∃ direction range, Event.sdmmcDma seq direction range ∈ log

def Answered (log : List Event) (seq : Nat) : Prop := ∃ data, Event.respond seq data ∈ log

/-- What has to be in the log before the event. -/
def Due (E : CryptEngine) (requests : List Request) (base : Flash) (log : List Event) :
    Event → Prop
  | .sdmmcDma j _ range => .released j ∉ log ∧ ∃ r, requests[j]? = some r ∧ range = r.range ∧
      ∀ i r', i < j → requests[i]? = some r' → r'.range.rangesOverlap r.range = true →
        .released i ∈ log
  | .diskEncrypt j .. => .released j ∉ log
  | .respond j data => .released j ∉ log ∧ ¬ Answered log j ∧ ∃ r, requests[j]? = some r ∧
      data = r.answer E (serialFlash E requests base j) ∧
      (r.op = .flush → ∀ i < j, .released i ∈ log)
  | .released j => .released j ∉ log ∧ Answered log j ∧
      ∀ r addr v, requests[j]? = some r → r.update E addr = some v → Started log j
  | _ => True

/-- Every event was due. -/
inductive Justified (E : CryptEngine) (requests : List Request) (base : Flash) :
    List Event → Prop
  | nil : Justified E requests base []
  | record {log : List Event} {e : Event} (h : Justified E requests base log)
      (hdue : Due E requests base log e) : Justified E requests base (log ++ [e])

variable {E : CryptEngine} {requests : List Request} {base flash flash' : Flash} {n i j : Nat}
  {pending pending' : List Operation} {log l₁ l₂ es : List Event} {e : Event} {s s' : Operation}
  {r r' : Request} {addr : Nat}

theorem Started.mono (h : Started log j) (es : List Event) : Started (log ++ es) j :=
  h.imp fun _ h => h.imp fun _ h => List.mem_append_left es h

theorem Answered.mono (h : Answered log j) (es : List Event) : Answered (log ++ es) j :=
  h.imp fun _ h => List.mem_append_left es h

theorem due_of_seq?_none (he : e.seq? = none) : Due E requests base log e := by
  cases e with
  | sdmmcDma => cases he
  | diskEncrypt => cases he
  | respond => cases he
  | released => cases he
  | _ => trivial

/-- Once an operation is over, nothing more happens for it. -/
theorem Due.not_released (h : Due E requests base log e) (he : e.seq? = some i) :
    .released i ∉ log := by
  cases e with
  | sdmmcDma =>
    cases he
    exact h.1
  | diskEncrypt =>
    cases he
    exact h
  | respond =>
    cases he
    exact h.1
  | released =>
    cases he
    exact h.1
  | _ => cases he

namespace Justified

theorem append (h : Justified E requests base log) (hes : ∀ e ∈ es, e.seq? = none) :
    Justified E requests base (log ++ es) := by
  induction es generalizing log with
  | nil => rwa [List.append_nil]
  | cons e es ih =>
    rw [List.append_cons]
    exact ih (h.record (due_of_seq?_none (hes e (.head _)))) fun e he => hes e (.tail _ he)

theorem due (h : Justified E requests base log) (hlog : log = l₁ ++ e :: l₂) :
    Due E requests base l₁ e := by
  induction h generalizing l₂ with
  | nil => cases l₁ <;> cases hlog
  | record h hdue ih =>
    rcases List.eq_nil_or_concat l₂ with rfl | ⟨l₂, e', rfl⟩
    · obtain ⟨rfl, hlast⟩ := List.append_inj' hlog rfl
      cases hlast
      exact hdue
    · rw [List.concat_eq_append, ← List.cons_append, ← List.append_assoc] at hlog
      exact ih (List.append_inj' hlog rfl).1

theorem released_of_started (h : Justified E requests base log) (hj : Started log j) (hij : i < j)
    (hi : requests[i]? = some r) (hr' : requests[j]? = some r')
    (hoverlap : r.range.rangesOverlap r'.range = true) : .released i ∈ log := by
  obtain ⟨direction, range, hmem⟩ := hj
  obtain ⟨l₁, l₂, hlog⟩ := List.append_of_mem hmem
  obtain ⟨-, r'', hr'', -, hbefore⟩ := h.due hlog
  cases hr'.symm.trans hr''
  rw [hlog]
  exact List.mem_append_left _ (hbefore i r hij hi hoverlap)

theorem answered_of_released (h : Justified E requests base log) (hj : .released j ∈ log) :
    Answered log j := by
  obtain ⟨l₁, l₂, hlog⟩ := List.append_of_mem hj
  obtain ⟨-, hanswered, -⟩ := h.due hlog
  rw [hlog]
  exact hanswered.mono _

theorem started_of_released (h : Justified E requests base log) (hj : .released j ∈ log)
    {v : UInt8} (hr : requests[j]? = some r) (hv : r.update E addr = some v) : Started log j := by
  obtain ⟨l₁, l₂, hlog⟩ := List.append_of_mem hj
  obtain ⟨-, -, hstarted⟩ := h.due hlog
  rw [hlog]
  exact (hstarted r addr v hr hv).mono _

end Justified

theorem writes_iff : Writes (requests.map (Request.update E)) i addr ↔
    ∃ r v, requests[i]? = some r ∧ r.update E addr = some v := by
  simp only [Writes, List.getElem?_map, Option.map_eq_some_iff]
  constructor
  · rintro ⟨u, v, ⟨r, hr, rfl⟩, hv⟩
    exact ⟨r, v, hr, hv⟩
  · rintro ⟨r, v, hr, hv⟩
    exact ⟨_, v, ⟨r, hr, rfl⟩, hv⟩

/-! ## 2. The invariant -/

/-- Writes are answered before their transfer. -/
def OperationType.isAnswered : OperationType → Bool
  | plainWriteSdmmc _ => true
  | encWriteSdmmc _ => true
  | _ => false

namespace Request

theorem answered_eq (r : Request) (seq : Nat) :
    r.answered seq = if r.op.isAnswered = true then [.respond seq []] else [] := by
  have hadmits := r.admits
  unfold answered
  cases hop : r.op with
  | encWriteSdmmc =>
    rw [hop] at hadmits
    exact absurd hadmits id
  | _ => rfl

theorem answer_of_isAnswered (r : Request) (hop : r.op.isAnswered = true) (flash : Flash) :
    r.answer E flash = [] := by
  unfold answer
  cases hr : r.op with
  | plainReadSdmmc =>
    rw [hr] at hop
    cases hop
  | encReadSdmmc =>
    rw [hr] at hop
    cases hop
  | _ => rfl

end Request

/-- After `n` requests, the pending operations account for those that are not over. -/
structure InFlight (E : CryptEngine) (requests : List Request) (base : Flash) (n : Nat)
    (pending : List Operation) (log : List Event) (flash : Flash) : Prop where
  bound : ∀ s ∈ pending, s.seq < n
  distinct : (pending.map (·.seq)).Nodup
  settled : ∀ i < n, .released i ∈ log ∨ ∃ s ∈ pending, s.seq = i
  unreleased : ∀ s ∈ pending, .released s.seq ∉ log
  known : ∀ e ∈ log, ∀ i, e.seq? = some i → i < n
  phase : ∀ s ∈ pending, ∃ r, requests[s.seq]? = some r ∧ s.range = r.range ∧
    Phase E (serialFlash E requests base s.seq) r s
  answered : ∀ s ∈ pending, Answered log s.seq ↔ s.op.isAnswered = true
  justified : Justified E requests base log
  holds : Holds (requests.map (Request.update E)) (fun i => .released i ∈ log) base flash

namespace InFlight

theorem init (E : CryptEngine) (requests : List Request) (base : Flash) :
    InFlight E requests base 0 [] [] base where
  bound := nofun
  distinct := .nil
  settled := nofun
  unreleased := nofun
  known := nofun
  phase := nofun
  answered := nofun
  justified := .nil
  holds := holds_init nofun

theorem perm (h : InFlight E requests base n pending log flash) (hp : pending.Perm pending') :
    InFlight E requests base n pending' log flash where
  bound s hs := h.bound s (hp.mem_iff.2 hs)
  distinct := (hp.map _).nodup_iff.1 h.distinct
  settled i hi := (h.settled i hi).imp_right fun ⟨s, hs, hseq⟩ => ⟨s, hp.mem_iff.1 hs, hseq⟩
  unreleased s hs := h.unreleased s (hp.mem_iff.2 hs)
  known := h.known
  phase s hs := h.phase s (hp.mem_iff.2 hs)
  answered s hs := h.answered s (hp.mem_iff.2 hs)
  justified := h.justified
  holds := h.holds

/-- Only an operation that is pending is not over. -/
theorem released_iff (h : InFlight E requests base n pending log flash) (i : Nat) :
    .released i ∈ log ↔ i < n ∧ ∀ s ∈ pending, s.seq ≠ i := by
  constructor
  · intro hi
    refine ⟨h.known _ hi i rfl, ?_⟩
    rintro s hs rfl
    exact h.unreleased s hs hi
  · rintro ⟨hi, hnot⟩
    rcases h.settled i hi with hreleased | ⟨s, hs, hseq⟩
    · exact hreleased
    · exact absurd hseq (hnot s hs)

/-- The operation `s` comes one step further, or is over. -/
theorem advance (h : InFlight E requests base n (s :: pending) log flash) (next : Option Operation)
    (hnext : ∀ s', next = some s' → s'.seq = s.seq ∧ s'.range = s.range ∧
      (∀ r, requests[s.seq]? = some r → Phase E (serialFlash E requests base s.seq) r s') ∧
      (Answered (log ++ es) s.seq ↔ s'.op.isAnswered = true))
    (hes : ∀ e ∈ es, ∀ i, e.seq? = some i → i = s.seq)
    (hreleased : .released s.seq ∈ es ↔ next = none)
    (hjustified : Justified E requests base (log ++ es))
    (hholds : Holds (requests.map (Request.update E)) (fun i => .released i ∈ log ++ es) base
      flash') :
    InFlight E requests base n (next.toList ++ pending) (log ++ es) flash' := by
  have hdistinct := h.distinct
  rw [List.map_cons, List.nodup_cons] at hdistinct
  have hne : ∀ t ∈ pending, t.seq ≠ s.seq := fun t ht heq =>
    hdistinct.1 (List.mem_map.2 ⟨t, ht, heq⟩)
  have hmem : ∀ t ∈ next.toList ++ pending, next = some t ∨ t ∈ pending := fun t ht =>
    (List.mem_append.1 ht).imp_left fun ht => Option.mem_toList.1 ht
  refine ⟨?_, ?_, ?_, ?_, ?_, ?_, ?_, hjustified, hholds⟩
  · intro t ht
    rcases hmem t ht with ht | ht
    · rw [(hnext t ht).1]
      exact h.bound s (.head _)
    · exact h.bound t (.tail _ ht)
  · cases hn : next with
    | none => exact hdistinct.2
    | some s' =>
      rw [Option.toList_some, List.singleton_append, List.map_cons, (hnext s' hn).1]
      exact h.distinct
  · intro i hi
    rcases h.settled i hi with hold | ⟨t, ht, rfl⟩
    · exact .inl (List.mem_append_left _ hold)
    · rcases List.mem_cons.1 ht with rfl | ht
      · cases hn : next with
        | none => exact .inl (List.mem_append_right _ (hreleased.2 hn))
        | some s' => exact .inr ⟨s', .head _, (hnext s' hn).1⟩
      · exact .inr ⟨t, List.mem_append_right _ ht, rfl⟩
  · intro t ht hmem'
    rcases hmem t ht with hsome | ht
    · rw [(hnext t hsome).1] at hmem'
      rcases List.mem_append.1 hmem' with hold | hnew
      · exact h.unreleased s (.head _) hold
      · rw [hreleased.1 hnew] at hsome
        cases hsome
    · rcases List.mem_append.1 hmem' with hold | hnew
      · exact h.unreleased t (.tail _ ht) hold
      · exact hne t ht (hes _ hnew _ rfl)
  · intro e he i hi
    rcases List.mem_append.1 he with hold | hnew
    · exact h.known e hold i hi
    · rw [hes e hnew i hi]
      exact h.bound s (.head _)
  · intro t ht
    rcases hmem t ht with hsome | ht
    · obtain ⟨hseq, hrange, hphase, -⟩ := hnext t hsome
      obtain ⟨r, hr, hrange', -⟩ := h.phase s (.head _)
      rw [hseq]
      exact ⟨r, hr, hrange.trans hrange', hphase r hr⟩
    · exact h.phase t (.tail _ ht)
  · intro t ht
    rcases hmem t ht with hsome | ht
    · rw [(hnext t hsome).1]
      exact (hnext t hsome).2.2.2
    · rw [← h.answered t (.tail _ ht)]
      refine ⟨fun ⟨data, hdata⟩ => ?_, fun hold => hold.mono _⟩
      rcases List.mem_append.1 hdata with hold | hnew
      · exact ⟨data, hold⟩
      · exact absurd (hes _ hnew _ rfl) (hne t ht)

/-! ## 3. Rules -/

/-- Events of the hardware. -/
theorem record (h : InFlight E requests base n pending log flash)
    (hes : ∀ e ∈ es, e.seq? = none) : InFlight E requests base n pending (log ++ es) flash := by
  have hmem : ∀ e : Event, e.seq? ≠ none → (e ∈ log ++ es ↔ e ∈ log) := fun e he =>
    ⟨fun h => (List.mem_append.1 h).resolve_right fun h => he (hes e h), List.mem_append_left _⟩
  have hreleased : ∀ i, Event.released i ∈ log ++ es ↔ .released i ∈ log := fun i => hmem _ nofun
  have hanswered : ∀ i, Answered (log ++ es) i ↔ Answered log i := fun i =>
    exists_congr fun data => hmem _ nofun
  refine ⟨h.bound, h.distinct, ?_, ?_, ?_, h.phase, ?_, h.justified.append hes, ?_⟩
  · simpa only [hreleased] using h.settled
  · simpa only [hreleased] using h.unreleased
  · intro e he i hi
    rcases List.mem_append.1 he with he | he
    · exact h.known e he i hi
    · rw [hes e he] at hi
      cases hi
  · simpa only [hanswered] using h.answered
  · exact h.holds.congr fun i _ _ => hreleased i

/-- The phase of an operation changes, and the hardware may be told. -/
theorem change (h : InFlight E requests base n (s :: pending) log flash) (hseq : s'.seq = s.seq)
    (hrange : s'.range = s.range)
    (hphase : ∀ r, requests[s.seq]? = some r → Phase E (serialFlash E requests base s.seq) r s')
    (hanswered : s'.op.isAnswered = s.op.isAnswered) :
    InFlight E requests base n (s' :: pending) log flash := by
  rw [← List.append_nil log]
  refine h.advance (some s') ?_ nofun ⟨nofun, nofun⟩ ?_ ?_
  · rintro _ ⟨⟩
    rw [List.append_nil, hanswered]
    exact ⟨hseq, hrange, hphase, h.answered s (.head _)⟩
  · rw [List.append_nil]
    exact h.justified
  · rw [List.append_nil]
    exact h.holds

/-- A channel takes on a step of an operation. -/
theorem channel (h : InFlight E requests base n (s :: pending) log flash)
    (hdue : Due E requests base log e) (he : e.seq? = some s.seq)
    (hrespond : ∀ i data, e ≠ .respond i data) (hreleased : ∀ i, e ≠ .released i) :
    InFlight E requests base n (s :: pending) (log ++ [e]) flash := by
  obtain ⟨r, hr, -, hphase⟩ := h.phase s (.head _)
  refine h.advance (some s) ?_ ?_ ?_ (h.justified.record hdue) ?_
  · rintro _ ⟨⟩
    refine ⟨rfl, rfl, fun r' hr' => ?_, ?_⟩
    · cases hr.symm.trans hr'
      exact hphase
    · rw [← h.answered s (.head _)]
      refine exists_congr fun data => ?_
      rw [List.mem_append, List.mem_singleton, or_iff_left (hrespond _ _).symm]
  · intro e' he' i hi
    rw [List.mem_singleton.1 he', he] at hi
    exact (Option.some.inj hi).symm
  · exact ⟨fun he => absurd (List.mem_singleton.1 he).symm (hreleased _), nofun⟩
  · refine h.holds.congr fun i _ _ => ?_
    rw [List.mem_append, List.mem_singleton, or_iff_left (hreleased i).symm]

/-- An operation whose earlier overlaps are over may start its transfer. -/
theorem start (h : InFlight E requests base n (s :: pending) log flash) (direction : Direction)
    (hearlier : ∀ i r, i < s.seq → requests[i]? = some r → r.range.rangesOverlap s.range = true →
      .released i ∈ log) :
    InFlight E requests base n (s :: pending) (log ++ [.sdmmcDma s.seq direction s.range])
      flash := by
  obtain ⟨r, hr, hrange, -⟩ := h.phase s (.head _)
  refine h.channel ⟨h.unreleased s (.head _), r, hr, hrange, fun i r' hij hr' hoverlap => ?_⟩ rfl
    nofun nofun
  rw [← hrange] at hoverlap
  exact hearlier i r' hij hr' hoverlap

theorem crypt (h : InFlight E requests base n (s :: pending) log flash) (tweak j : Nat)
    (dir : CryptDirection) (len : Nat) :
    InFlight E requests base n (s :: pending) (log ++ [.diskEncrypt s.seq tweak j dir len])
      flash :=
  h.channel (h.unreleased s (.head _)) rfl nofun nofun

/-- An operation that writes nothing more is answered, and is over. -/
theorem answer {data : List UInt8} (h : InFlight E requests base n (s :: pending) log flash)
    (hnot : s.op.isAnswered = false) (hr : requests[s.seq]? = some r)
    (hupdate : ∀ addr, r.update E addr = none)
    (hdata : data = r.answer E (serialFlash E requests base s.seq))
    (hflush : r.op = .flush → ∀ i < s.seq, .released i ∈ log) :
    InFlight E requests base n pending (log ++ [.respond s.seq data, .released s.seq]) flash := by
  have hno : ¬ Answered log s.seq := fun hanswered => by
    rw [h.answered s (.head _), hnot] at hanswered
    cases hanswered
  refine h.advance none nofun ?_ ?_ ?_ ?_
  · rintro e he i hi
    rcases List.mem_pair.1 he with rfl | rfl <;> (cases hi; rfl)
  · exact ⟨fun _ => rfl, fun _ => .tail _ (.head _)⟩
  · rw [List.append_cons]
    have hdue : Due E requests base log (.respond s.seq data) :=
      ⟨h.unreleased s (.head _), hno, r, hr, hdata, hflush⟩
    refine (h.justified.record hdue).record ⟨?_, ⟨data, List.mem_append_right _ (.head _)⟩, fun r' addr v hr' hv => ?_⟩
    · rw [List.mem_append, List.mem_singleton, or_iff_left nofun]
      exact h.unreleased s (.head _)
    · cases hr.symm.trans hr'
      rw [hupdate] at hv
      cases hv
  · refine h.holds.congr fun i addr hw => ?_
    obtain ⟨r', v, hr', hv⟩ := writes_iff.1 hw
    have hne : i ≠ s.seq := by
      rintro rfl
      cases hr.symm.trans hr'
      rw [hupdate] at hv
      cases hv
    rw [List.mem_append, or_iff_left]
    intro hmem
    rcases List.mem_pair.1 hmem with h | h
    · cases h
    · exact hne (Event.released.inj h)

/-- An encrypted write is answered before its transfer. -/
theorem answerEarly (h : InFlight E requests base n (s :: pending) log flash)
    (hseq : s'.seq = s.seq) (hrange : s'.range = s.range)
    (hphase : ∀ r, requests[s.seq]? = some r → Phase E (serialFlash E requests base s.seq) r s' ∧
      r.op ≠ .flush ∧ ∀ flash, r.answer E flash = [])
    (hnot : s.op.isAnswered = false) (hanswered : s'.op.isAnswered = true) :
    InFlight E requests base n (s' :: pending) (log ++ [.respond s.seq []]) flash := by
  obtain ⟨r, hr, -, -⟩ := h.phase s (.head _)
  have hno : ¬ Answered log s.seq := fun hanswered => by
    rw [h.answered s (.head _), hnot] at hanswered
    cases hanswered
  refine h.advance (some s') ?_ ?_ ?_ (h.justified.record ?_) ?_
  · rintro _ ⟨⟩
    refine ⟨hseq, hrange, fun r hr => (hphase r hr).1, fun _ => hanswered, fun _ => ?_⟩
    exact ⟨[], List.mem_append_right _ (.head _)⟩
  · intro e he i hi
    rw [List.mem_singleton.1 he] at hi
    cases hi
    rfl
  · exact ⟨nofun, nofun⟩
  · obtain ⟨-, hflush, hanswer⟩ := hphase r hr
    exact ⟨h.unreleased s (.head _), hno, r, hr, (hanswer _).symm, fun hop => absurd hop hflush⟩
  · refine h.holds.congr fun i _ _ => ?_
    rw [List.mem_append, List.mem_singleton, or_iff_left nofun]

/-- What a later request writes, it has not written yet. -/
theorem later_not_released (h : InFlight E requests base n pending log flash) (hs : s ∈ pending)
    (hj : s.seq < j) (haddr : s.range.Contains addr)
    (hw : Writes (requests.map (Request.update E)) j addr) : .released j ∉ log := by
  intro hreleased
  obtain ⟨r, hr, hrange, -⟩ := h.phase s hs
  obtain ⟨r', v, hr', hv⟩ := writes_iff.1 hw
  have hstarted := h.justified.started_of_released hreleased hr' hv
  rw [hrange] at haddr
  refine h.unreleased s hs (h.justified.released_of_started hstarted hj hr hr' ?_)
  exact overlap_of_contains haddr (Request.contains_of_update hv)

/-- A transfer reads what the earlier requests have left. -/
theorem reads (h : InFlight E requests base n pending log flash) (hs : s ∈ pending)
    (hstarted : Started log s.seq) :
    readFlash flash s.range = readFlash (serialFlash E requests base s.seq) s.range := by
  obtain ⟨r, hr, hrange, -⟩ := h.phase s hs
  refine readFlash_congr fun addr haddr => h.holds.read (fun i hi hw => ?_) fun i hi hw => ?_
  · obtain ⟨r', v, hr', hv⟩ := writes_iff.1 hw
    rw [hrange] at haddr
    refine h.justified.released_of_started hstarted hi hr' hr ?_
    exact overlap_of_contains (Request.contains_of_update hv) haddr
  · rcases Nat.eq_or_lt_of_le hi with rfl | hi
    · exact h.unreleased s hs
    · exact h.later_not_released hs hi haddr hw

/-- The transfer of a write reaches the flash, and the write is over. -/
theorem written (h : InFlight E requests base n (s :: pending) log flash)
    (hop : s.op.isAnswered = true) (hstarted : Started log s.seq) :
    InFlight E requests base n pending (log ++ [.released s.seq])
      (s.flashUpdate.apply flash) := by
  obtain ⟨r, hr, hrange, hphase⟩ := h.phase s (.head _)
  have hstep : s.op.isSdmmcStep = true := by
    cases hs : s.op with
    | plainWriteSdmmc => rfl
    | encWriteSdmmc => rfl
    | _ =>
      rw [hs] at hop
      cases hop
  refine h.advance none nofun ?_ ⟨fun _ => rfl, fun _ => .head _⟩ (h.justified.record ?_) ?_
  · intro e he i hi
    rw [List.mem_singleton.1 he] at hi
    cases hi
    rfl
  · exact ⟨h.unreleased s (.head _), (h.answered s (.head _)).2 hop, fun _ _ _ _ _ => hstarted⟩
  · have hu : (requests.map (Request.update E))[s.seq]? = some s.flashUpdate := by
      rw [List.getElem?_map, hr, hphase.flashUpdate hrange hstep, Option.map_some]
    refine (h.holds.finish hu fun addr hw j hj hw' => ?_).congr fun i _ _ => ?_
    · obtain ⟨r', v, hr', hv⟩ := writes_iff.1 hw
      cases hr.symm.trans hr'
      refine h.later_not_released (.head _) hj ?_ hw'
      rw [hrange]
      exact Request.contains_of_update hv
    · rw [List.mem_append, List.mem_singleton, Event.released.injEq, or_comm]

/-- The next request is admitted. -/
theorem request (h : InFlight E requests base n pending log flash) (hr : requests[n]? = some r) :
    InFlight E requests base (n + 1) (⟨n, r.range, r.op⟩ :: pending) (log ++ r.answered n)
      flash := by
  have hnew : ∀ e, e ∈ r.answered n ↔ r.op.isAnswered = true ∧ e = .respond n [] := by
    intro e
    rw [r.answered_eq n]
    split
    · next hop => rw [List.mem_singleton, and_iff_right hop]
    · next hop => exact ⟨nofun, fun he => absurd he.1 hop⟩
  have hreleased : ∀ i, Event.released i ∈ log ++ r.answered n ↔ .released i ∈ log := fun i => by
    rw [List.mem_append, or_iff_left fun he => Event.noConfusion ((hnew _).1 he).2]
  have hfresh : ∀ e ∈ log, e.seq? ≠ some n := fun e he hseq =>
    absurd (h.known e he n hseq) (Nat.lt_irrefl n)
  refine ⟨?_, ?_, ?_, ?_, ?_, ?_, ?_, ?_, ?_⟩
  · intro s hs
    rcases List.mem_cons.1 hs with rfl | hs
    · exact n.lt_succ_self
    · exact Nat.lt_succ_of_lt (h.bound s hs)
  · rw [List.map_cons, List.nodup_cons]
    refine ⟨fun hmem => ?_, h.distinct⟩
    obtain ⟨s, hs, hseq⟩ := List.mem_map.1 hmem
    exact absurd (h.bound s hs) (Nat.not_lt.2 (Nat.le_of_eq hseq.symm))
  · intro i hi
    rcases Nat.lt_succ_iff_lt_or_eq.1 hi with hi | rfl
    · refine (h.settled i hi).imp (hreleased i).2 ?_
      exact fun ⟨s, hs, hseq⟩ => ⟨s, .tail _ hs, hseq⟩
    · exact .inr ⟨_, .head _, rfl⟩
  · intro s hs
    rw [hreleased]
    rcases List.mem_cons.1 hs with rfl | hs
    · exact fun hmem => hfresh _ hmem rfl
    · exact h.unreleased s hs
  · intro e he i hi
    rcases List.mem_append.1 he with he | he
    · exact Nat.lt_succ_of_lt (h.known e he i hi)
    · rw [((hnew e).1 he).2] at hi
      cases hi
      exact n.lt_succ_self
  · intro s hs
    rcases List.mem_cons.1 hs with rfl | hs
    · exact ⟨r, hr, rfl, .admitted _ r n⟩
    · exact h.phase s hs
  · intro s hs
    rcases List.mem_cons.1 hs with rfl | hs
    · constructor
      · rintro ⟨data, hdata⟩
        rcases List.mem_append.1 hdata with hold | he
        · exact absurd rfl (hfresh _ hold)
        · exact ((hnew _).1 he).1
      · intro hop
        exact ⟨[], List.mem_append_right _ ((hnew _).2 ⟨hop, rfl⟩)⟩
    · rw [← h.answered s hs]
      refine ⟨fun ⟨data, hdata⟩ => ?_, fun hold => hold.mono _⟩
      rcases List.mem_append.1 hdata with hold | he
      · exact ⟨data, hold⟩
      · have hlt := h.bound s hs
        rw [(Event.respond.inj ((hnew _).1 he).2).1] at hlt
        exact absurd hlt (Nat.lt_irrefl n)
  · rw [r.answered_eq n]
    split
    · next hop =>
      refine h.justified.record ⟨fun he => hfresh _ he rfl, fun ⟨_, he⟩ => hfresh _ he rfl, ?_⟩
      exact ⟨r, hr, (r.answer_of_isAnswered hop _).symm, fun hflush => absurd hop (by rw [hflush]; nofun)⟩
    · rw [List.append_nil]
      exact h.justified
  · exact h.holds.congr fun i _ _ => hreleased i

end InFlight

end Emmc
