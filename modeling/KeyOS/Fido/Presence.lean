import KeyOS.Fido.NavThread
import KeyOS.Lib.History

/-!
# One confirmation authorises one request

Requesters, the navigation thread, the user and the clock take their steps in any order. A
verdict that confirms a request is traced back through the slot to the prompt that the user
confirmed, and the prompt to the request that was published last.
-/

namespace Fido

open History

variable {F : Type}

namespace Event

def Publishes : Event F → Prop
  | .published _ _ => True
  | _ => False

def Shows : Event F → Prop
  | .shown _ _ => True
  | _ => False

def Closes : Event F → Prop
  | .closed => True
  | _ => False

end Event

open Event (Publishes Shows Closes)

/-! ## 1. What a verdict rests on -/

/-- At `c` the user confirmed the prompt that was shown at `s` and is not closed yet. -/
structure Answers (es : List (Event F)) (s c : Nat) (fp : F) (opts : UserPresenceOptions)
    (sel : Option Nat) : Prop where
  shown : At es s (.shown fp opts)
  confirmed : At es c (.confirmed sel)
  after : s < c
  prompt : Quiet Shows es s c
  live : Quiet Closes es s c

/-- The verdict at `i` delivers the confirmation at `c`: it was given to the prompt shown at `s`
for what was published at `p`, and neither was anything published nor a prompt shown since. -/
structure Delivers (es : List (Event F)) (p s c i : Nat) (fp : F) (opts : UserPresenceOptions)
    (sel : Option Nat) : Prop where
  published : At es p (.published fp opts)
  answers : Answers es s c fp opts sel
  verdict : At es i (.verdict fp (.confirmed sel))
  shownAfter : p < s
  verdictAfter : c < i
  latest : Quiet Publishes es p i
  lastPrompt : Quiet Shows es s i

/-- What the slot holds is what was published last, and as far as the thread has come with it. -/
def SlotTraced (es : List (Event F)) : PresenceState F → Prop
  | .idle => True
  | .pending fp opts => ∃ p, Last Publishes es p (.published fp opts)
  | .inProgress fp => ∃ p s opts, Last Publishes es p (.published fp opts) ∧
      Last Shows es s (.shown fp opts) ∧ p < s
  | .completed fp present sel => present = true → ∃ p s c opts,
      Last Publishes es p (.published fp opts) ∧ Last Shows es s (.shown fp opts) ∧ p < s ∧
      Answers es s c fp opts sel

/-- Before the slot every prompt is closed; in the call and after it the prompt is the last one
shown, and an outcome that says present is what the user confirmed in it. -/
def ThreadTraced (es : List (Event F)) : Nav F → Prop
  | .waiting => ∀ s (e : Event F), At es s e → e.Shows → ∃ k, s < k ∧ At es k .closed
  | .asking fp opts answer => ∃ s, Last Shows es s (.shown fp opts) ∧
      Quiet Closes es s es.length ∧ ∀ r, answer = some r →
        ∃ c, Answers es s c fp opts r.selectedKeyIndex
  | .answered fp outcome => ∃ s opts, Last Shows es s (.shown fp opts) ∧
      (∃ k, s < k ∧ At es k .closed) ∧
      (outcome.present = true → ∃ c, Answers es s c fp opts outcome.selectedKeyIndex)

/-- A prompt is closed before the next one is shown. -/
def PromptsApart (es : List (Event F)) : Prop :=
  ∀ s s' (e e' : Event F), s < s' → At es s e → e.Shows → At es s' e' → e'.Shows →
    ∃ k, s < k ∧ k < s' ∧ At es k .closed

/-- Every verdict that confirms delivers a confirmation, and before the next such verdict a new
request is published. -/
structure VerdictsTraced (es : List (Event F)) (slot : PresenceState F) : Prop where
  consumed : ∀ i fp sel, At es i (.verdict fp (.confirmed sel)) →
    slot = .idle ∨ ∃ k, ∃ e : Event F, i < k ∧ At es k e ∧ e.Publishes
  apart : ∀ i i' fp fp' sel sel', i < i' → At es i (.verdict fp (.confirmed sel)) →
    At es i' (.verdict fp' (.confirmed sel')) →
    ∃ k, ∃ e : Event F, i < k ∧ k < i' ∧ At es k e ∧ e.Publishes
  delivered : ∀ i fp sel, At es i (.verdict fp (.confirmed sel)) →
    ∃ p s c opts, Delivers es p s c i fp opts sel

/-- The invariant of all runs. -/
structure Traced (w : World F) : Prop where
  slot : SlotTraced w.history w.nav.slot
  thread : ThreadTraced w.history w.thread
  prompts : PromptsApart w.history
  verdicts : VerdictsTraced w.history w.nav.slot

/-! ## 2. Longer histories -/

section Longer

variable {es new : List (Event F)} {s c p i : Nat} {fp : F} {opts : UserPresenceOptions}
  {sel : Option Nat}

theorem Answers.append (h : Answers es s c fp opts sel) : Answers (es ++ new) s c fp opts sel :=
  have hc := Nat.le_of_lt (lt_of_at h.confirmed)
  ⟨at_append h.shown, at_append h.confirmed, h.after, h.prompt.append hc, h.live.append hc⟩

theorem Delivers.append (h : Delivers es p s c i fp opts sel) :
    Delivers (es ++ new) p s c i fp opts sel :=
  have hi := Nat.le_of_lt (lt_of_at h.verdict)
  ⟨at_append h.published, h.answers.append, at_append h.verdict, h.shownAfter, h.verdictAfter,
    h.latest.append hi, h.lastPrompt.append hi⟩

theorem SlotTraced.append {slot : PresenceState F} (h : SlotTraced es slot)
    (hpub : ∀ e ∈ new, ¬ e.Publishes) (hshow : ∀ e ∈ new, ¬ e.Shows) :
    SlotTraced (es ++ new) slot := by
  cases slot with
  | idle => trivial
  | pending fp opts =>
    obtain ⟨p, hp⟩ := h
    exact ⟨p, hp.extend hpub⟩
  | inProgress fp =>
    obtain ⟨p, s, opts, hp, hs, hlt⟩ := h
    exact ⟨p, s, opts, hp.extend hpub, hs.extend hshow, hlt⟩
  | completed fp present sel =>
    intro hpresent
    obtain ⟨p, s, c, opts, hp, hs, hlt, hc⟩ := h hpresent
    exact ⟨p, s, c, opts, hp.extend hpub, hs.extend hshow, hlt, hc.append⟩

theorem ThreadTraced.append {thread : Nav F} (h : ThreadTraced es thread)
    (hshow : ∀ e ∈ new, ¬ e.Shows) (hclose : ∀ e ∈ new, ¬ e.Closes) :
    ThreadTraced (es ++ new) thread := by
  cases thread with
  | waiting =>
    intro s e he hshows
    rcases at_or_new he with hold | ⟨-, hmem⟩
    · obtain ⟨k, hk, hclosed⟩ := h s e hold hshows
      exact ⟨k, hk, at_append hclosed⟩
    · exact absurd hshows (hshow e hmem)
  | asking fp opts answer =>
    obtain ⟨s, hs, hlive, hanswer⟩ := h
    refine ⟨s, hs.extend hshow, hlive.extend hclose, fun r hr => ?_⟩
    obtain ⟨c, hc⟩ := hanswer r hr
    exact ⟨c, hc.append⟩
  | answered fp outcome =>
    obtain ⟨s, opts, hs, ⟨k, hk, hclosed⟩, hanswer⟩ := h
    refine ⟨s, opts, hs.extend hshow, ⟨k, hk, at_append hclosed⟩, fun hpresent => ?_⟩
    obtain ⟨c, hc⟩ := hanswer hpresent
    exact ⟨c, hc.append⟩

theorem PromptsApart.append (h : PromptsApart es) (hshow : ∀ e ∈ new, ¬ e.Shows) :
    PromptsApart (es ++ new) := by
  intro s s' e e' hlt hs hshows hs' hshows'
  rcases at_or_new hs' with hold | ⟨-, hmem⟩
  · obtain ⟨k, hk, hk', hclosed⟩ := h s s' e e' hlt
      ((at_append_iff (Nat.lt_trans hlt (lt_of_at hold))).1 hs) hshows hold hshows'
    exact ⟨k, hk, hk', at_append hclosed⟩
  · exact absurd hshows' (hshow e' hmem)

/-- A prompt is shown when all others are closed. -/
theorem PromptsApart.show (h : PromptsApart es)
    (hclosed : ∀ s (e : Event F), At es s e → e.Shows → ∃ k, s < k ∧ At es k .closed) :
    PromptsApart (es ++ [.shown fp opts]) := by
  intro s s' e e' hlt hs hshows hs' hshows'
  rcases at_or_new hs' with hold | ⟨hge, -⟩
  · obtain ⟨k, hk, hk', hat⟩ := h s s' e e' hlt
      ((at_append_iff (Nat.lt_trans hlt (lt_of_at hold))).1 hs) hshows hold hshows'
    exact ⟨k, hk, hk', at_append hat⟩
  · have hlen := lt_of_at hs'
    simp only [List.length_append, List.length_singleton] at hlen
    obtain ⟨k, hk, hat⟩ := hclosed s e ((at_append_iff (by omega)).1 hs) hshows
    exact ⟨k, hk, Nat.lt_of_lt_of_le (lt_of_at hat) hge, at_append hat⟩

/-- No verdict that confirms is added, and an idle slot stays idle or a request is published. -/
theorem VerdictsTraced.append {slot slot' : PresenceState F} (h : VerdictsTraced es slot)
    (hverdict : ∀ fp sel, Event.verdict fp (.confirmed sel) ∉ new)
    (hidle : slot = .idle → slot' = .idle ∨ ∃ e ∈ new, e.Publishes) :
    VerdictsTraced (es ++ new) slot' := by
  have hold : ∀ {i fp sel}, At (es ++ new) i (.verdict fp (.confirmed sel)) →
      At es i (.verdict fp (.confirmed sel)) := by
    intro i fp sel hi
    rcases at_or_new hi with hold | ⟨-, hmem⟩
    · exact hold
    · exact absurd hmem (hverdict fp sel)
  refine ⟨?consumed, ?apart, ?delivered⟩
  case consumed =>
    intro i fp sel hi
    rcases h.consumed i fp sel (hold hi) with hslot | ⟨k, e, hk, he, hpub⟩
    · rcases hidle hslot with hslot' | ⟨e, hmem, hpub⟩
      · exact .inl hslot'
      · obtain ⟨j, hj, hat⟩ := @at_of_mem _ es _ _ hmem
        exact .inr ⟨j, e, Nat.lt_of_lt_of_le (lt_of_at (hold hi)) hj, hat, hpub⟩
    · exact .inr ⟨k, e, hk, at_append he, hpub⟩
  case apart =>
    intro i i' fp fp' sel sel' hlt hi hi'
    obtain ⟨k, e, hk, hk', he, hpub⟩ := h.apart i i' fp fp' sel sel' hlt (hold hi) (hold hi')
    exact ⟨k, e, hk, hk', at_append he, hpub⟩
  case delivered =>
    intro i fp sel hi
    obtain ⟨p, s, c, opts, hd⟩ := h.delivered i fp sel (hold hi)
    exact ⟨p, s, c, opts, hd.append⟩

/-- The slot gives a confirmation away and is idle then. -/
theorem VerdictsTraced.deliver (h : VerdictsTraced es (.completed fp true sel))
    (hslot : SlotTraced es (.completed fp true sel)) :
    VerdictsTraced (es ++ [.verdict fp (.confirmed sel)]) .idle := by
  have hlen : ∀ {i fp' sel'}, es.length ≤ i →
      At (es ++ [.verdict fp (.confirmed sel)]) i (.verdict fp' (.confirmed sel')) →
      i = es.length := by
    intro i fp' sel' hge hi
    have := lt_of_at hi
    simp only [List.length_append, List.length_singleton] at this
    omega
  refine ⟨fun _ _ _ _ => .inl rfl, ?apart, ?delivered⟩
  case apart =>
    intro i i' fp₁ fp₂ sel₁ sel₂ hlt hi hi'
    rcases at_or_new hi' with hold' | ⟨hge, -⟩
    · have hold := (at_append_iff (Nat.lt_trans hlt (lt_of_at hold'))).1 hi
      obtain ⟨k, e, hk, hk', he, hpub⟩ := h.apart i i' _ _ _ _ hlt hold hold'
      exact ⟨k, e, hk, hk', at_append he, hpub⟩
    · -- The slot is not idle, so a request was published after the earlier verdict.
      rw [hlen hge hi'] at hlt ⊢
      have hold := (at_append_iff hlt).1 hi
      rcases h.consumed i _ _ hold with hidle | ⟨k, e, hk, he, hpub⟩
      · cases hidle
      · exact ⟨k, e, hk, lt_of_at he, at_append he, hpub⟩
  case delivered =>
    intro i fp' sel' hi
    rcases at_or_new hi with hold | ⟨hge, hmem⟩
    · obtain ⟨p, s, c, opts, hd⟩ := h.delivered i fp' sel' hold
      exact ⟨p, s, c, opts, hd.append⟩
    · obtain ⟨rfl, rfl⟩ : fp' = fp ∧ sel' = sel := by simpa using hmem
      obtain ⟨p, s, c, opts, hp, hs, hlt, hc⟩ := hslot rfl
      obtain rfl := hlen hge hi
      exact ⟨p, s, c, opts, at_append hp.1, hc.append, hi, hlt, lt_of_at hc.confirmed,
        hp.2.append (Nat.le_refl _), hs.2.append (Nat.le_refl _)⟩

end Longer

/-! ## 3. Steps -/

section Steps

variable [DecidableEq F] {w w' : World F}

/-- A poll publishes its request, leaves the slot, or takes the result that waits for it. -/
theorem NavThread.poll_cases (t : NavThread F) (now : Nat) (fp : F) (opts : UserPresenceOptions) :
    ((t.poll now fp opts).notified = true ∧ (t.poll now fp opts).verdict = .pending ∧
      (t.poll now fp opts).nav.slot = .pending fp opts) ∨
    ((t.poll now fp opts).notified = false ∧ (t.poll now fp opts).verdict = .pending ∧
      (t.poll now fp opts).nav.slot = t.slot) ∨
    ((t.poll now fp opts).notified = false ∧ (t.poll now fp opts).nav.slot = .idle ∧
      ∃ present sel, t.slot = .completed fp present sel ∧
        (t.poll now fp opts).verdict = if present then .confirmed sel else .dismissed) := by
  have hlive : ∀ fp', ((t.pollLive now fp' fp opts).notified = true ∧
      (t.pollLive now fp' fp opts).verdict = .pending ∧
      (t.pollLive now fp' fp opts).nav.slot = .pending fp opts) ∨
      ((t.pollLive now fp' fp opts).notified = false ∧
      (t.pollLive now fp' fp opts).verdict = .pending ∧
      (t.pollLive now fp' fp opts).nav.slot = t.slot) := by
    intro fp'
    unfold NavThread.pollLive
    split
    · exact .inr ⟨rfl, rfl, rfl⟩
    · split
      · exact .inl ⟨rfl, rfl, rfl⟩
      · exact .inr ⟨rfl, rfl, rfl⟩
  unfold NavThread.poll
  split
  · exact .inl ⟨rfl, rfl, rfl⟩
  · rcases hlive _ with h | h
    · exact .inl h
    · exact .inr (.inl h)
  · rcases hlive _ with h | h
    · exact .inl h
    · exact .inr (.inl h)
  · next fp' present sel hslot =>
    split
    · next heq =>
      subst heq
      exact .inr (.inr ⟨rfl, rfl, present, sel, hslot, rfl⟩)
    · exact .inl ⟨rfl, rfl, rfl⟩

theorem Traced.poll (h : Traced w) (fp : F) (opts : UserPresenceOptions)
    (hstep : w.step (.poll fp opts) = some w') : Traced w' := by
  simp only [World.step, Option.some.injEq] at hstep
  subst hstep
  rcases w.nav.poll_cases w.now fp opts with
    ⟨hn, hv, hs⟩ | ⟨hn, hv, hs⟩ | ⟨hn, hs, present, sel, hslot, hv⟩
  · constructor <;> simp only [hn, hv, hs, if_true, List.singleton_append]
    · exact ⟨_, Last.added (by simp [Publishes])⟩
    · exact h.thread.append (by simp [Shows]) (by simp [Closes])
    · exact h.prompts.append (by simp [Shows])
    · exact h.verdicts.append (by simp) fun _ => .inr ⟨_, List.mem_cons_self, trivial⟩
  · constructor <;> simp only [hn, hv, hs, Bool.false_eq_true, if_false, List.nil_append]
    · exact h.slot.append (by simp [Publishes]) (by simp [Shows])
    · exact h.thread.append (by simp [Shows]) (by simp [Closes])
    · exact h.prompts.append (by simp [Shows])
    · exact h.verdicts.append (by simp) .inl
  · have hslots := h.slot
    have hverdicts := h.verdicts
    rw [hslot] at hslots hverdicts
    constructor <;> simp only [hn, hv, hs, Bool.false_eq_true, if_false, List.nil_append]
    · trivial
    · exact h.thread.append (by simp [Shows]) (by simp [Closes])
    · exact h.prompts.append (by simp [Shows])
    · cases present with
      | true => exact hverdicts.deliver hslots
      | false => exact hverdicts.append (by simp) nofun

theorem Traced.take (h : Traced w) (hstep : w.step .take = some w') : Traced w' := by
  simp only [World.step] at hstep
  split at hstep
  case h_2 => cases hstep
  case h_1 fp opts slot hthread htake =>
    cases hstep
    cases hslot : w.nav.slot with
    | idle => simp [hslot, Fido.take] at htake
    | inProgress fp' => simp [hslot, Fido.take] at htake
    | completed fp' present sel => simp [hslot, Fido.take] at htake
    | pending fp' opts' =>
      obtain ⟨rfl, rfl, rfl⟩ : fp' = fp ∧ opts' = opts ∧ PresenceState.inProgress fp' = slot := by
        simpa [hslot, Fido.take] using htake
      have hclosed := h.thread
      have hslots := h.slot
      have hverdicts := h.verdicts
      rw [hthread] at hclosed
      rw [hslot] at hslots hverdicts
      obtain ⟨p, hp⟩ := hslots
      have hlast : Last Shows (w.history ++ [.shown fp' opts']) w.history.length
          (.shown fp' opts') := Last.added (by simp)
      refine ⟨?slot, ?thread, h.prompts.show hclosed, hverdicts.append (by simp) nofun⟩
      case slot => exact ⟨p, _, opts', hp.extend (by simp [Publishes]), hlast, lt_of_at hp.1⟩
      case thread => exact ⟨_, hlast, (Last.added (P := Closes) (by simp)).2, nofun⟩

theorem Traced.confirm (h : Traced w) (sel : Option Nat) (hstep : w.step (.confirm sel) = some w') :
    Traced w' := by
  simp only [World.step] at hstep
  split at hstep
  case h_2 => cases hstep
  case h_1 fp opts hthread =>
    cases hstep
    have hasking := h.thread
    rw [hthread] at hasking
    obtain ⟨s, hs, hlive, -⟩ := hasking
    refine ⟨?slot, ?thread, h.prompts.append (by simp [Shows]), h.verdicts.append (by simp) .inl⟩
    case slot => exact h.slot.append (by simp [Publishes]) (by simp [Shows])
    case thread =>
      refine ⟨s, hs.extend (by simp [Shows]), hlive.extend (by simp [Closes]), ?_⟩
      rintro r ⟨⟩
      exact ⟨w.history.length, at_append hs.1, at_length, lt_of_at hs.1,
        hs.2.append (Nat.le_refl _), hlive.append (Nat.le_refl _)⟩

theorem Traced.reply (h : Traced w) (r : GuiReply) (hstep : w.step (.reply r) = some w') :
    Traced w' := by
  simp only [World.step] at hstep
  split at hstep
  case h_2 => cases hstep
  case h_1 fp opts answer hthread =>
    split at hstep
    case isFalse => cases hstep
    case isTrue hhonest =>
      cases hstep
      have hasking := h.thread
      rw [hthread] at hasking
      obtain ⟨s, hs, -, hanswer⟩ := hasking
      refine ⟨?slot, ?thread, h.prompts.append (by simp [Shows]), h.verdicts.append (by simp) .inl⟩
      case slot => exact h.slot.append (by simp [Publishes]) (by simp [Shows])
      case thread =>
        refine ⟨s, opts, hs.extend (by simp [Shows]), ⟨_, lt_of_at hs.1, at_length⟩, ?_⟩
        intro hpresent
        obtain ⟨c, hc⟩ := hanswer _ (hhonest hpresent)
        exact ⟨c, hc.append⟩

theorem Traced.commit (h : Traced w) (hstep : w.step .commit = some w') : Traced w' := by
  simp only [World.step] at hstep
  split at hstep
  case h_2 => cases hstep
  case h_1 fp outcome hthread =>
    cases hstep
    have hanswered := h.thread
    rw [hthread] at hanswered
    obtain ⟨s, opts, hs, ⟨k, hk, hclosed⟩, hanswer⟩ := hanswered
    have hidle : w.nav.slot = .idle → Fido.commit w.nav.slot fp outcome = .idle := by
      intro hidle
      rw [hidle]
      rfl
    have hverdicts := @VerdictsTraced.append _ _ [] _ _ h.verdicts (by simp) fun hslot => .inl (hidle hslot)
    rw [List.append_nil] at hverdicts
    refine ⟨?slot, ?thread, h.prompts, hverdicts⟩
    case slot =>
      have hslots := h.slot
      dsimp only
      unfold Fido.commit
      split
      · next fp' hslot =>
        split
        · next heq =>
          -- The prompt of the slot is the last one shown, and so is the one that was answered.
          subst heq
          rw [hslot] at hslots
          obtain ⟨p, s', opts', hp, hs', hlt⟩ := hslots
          obtain ⟨rfl, heq⟩ := hs'.unique hs trivial trivial
          cases heq
          intro hpresent
          obtain ⟨c, hc⟩ := hanswer hpresent
          exact ⟨p, s', c, opts, hp, hs, hlt, hc⟩
        · exact hslots
      · exact hslots
    case thread =>
      intro s' e he hshows
      rcases Nat.lt_trichotomy s' s with hlt | rfl | hgt
      · obtain ⟨k', hk', -, hat⟩ := h.prompts s' s _ _ hlt he hshows hs.1 trivial
        exact ⟨k', hk', hat⟩
      · exact ⟨k, hk, hclosed⟩
      · exact absurd hshows (hs.2 s' e hgt (lt_of_at he) he)

theorem Traced.step {a : Act F} (h : Traced w) (hstep : w.step a = some w') : Traced w' := by
  cases a with
  | poll fp opts => exact h.poll fp opts hstep
  | tick duration =>
    cases hstep
    exact ⟨h.slot, h.thread, h.prompts, h.verdicts⟩
  | take => exact h.take hstep
  | confirm sel => exact h.confirm sel hstep
  | reply r => exact h.reply r hstep
  | commit => exact h.commit hstep

omit [DecidableEq F] in
theorem traced_start : Traced (World.start : World F) :=
  ⟨trivial, fun s e he => absurd he (by simp [World.start]),
    fun s s' e e' _ he => absurd he (by simp [World.start]),
    ⟨fun i fp sel hi => absurd hi (by simp [World.start]),
      fun i i' fp fp' sel sel' _ hi => absurd hi (by simp [World.start]),
      fun i fp sel hi => absurd hi (by simp [World.start])⟩⟩

theorem Traced.run {acts : List (Act F)} (h : Traced w) (hrun : w.run acts = some w') :
    Traced w' := by
  induction acts generalizing w with
  | nil =>
    cases hrun
    exact h
  | cons a acts ih =>
    obtain ⟨w₁, hstep, hrun⟩ := Option.bind_eq_some_iff.1 hrun
    exact ih (h.step hstep) hrun

end Steps

/-! ## 4. Runs -/

/-- After something new was published, the outcome of the prompt that is still shown changes
nothing. -/
theorem Traced.stale [DecidableEq F] {w : World F} (h : Traced w) {fp : F}
    {outcome : UserPresenceResult} {s k : Nat} {e e' : Event F}
    (hs : Last Shows w.history s e) (hshows : e.Shows) (hk : At w.history k e')
    (hpub : e'.Publishes) (hlt : s < k) : Fido.commit w.nav.slot fp outcome = w.nav.slot := by
  unfold Fido.commit
  split
  · next fp' hslot =>
    have hslots := h.slot
    rw [hslot] at hslots
    obtain ⟨p, s', opts', hp, hs', hps⟩ := hslots
    obtain ⟨rfl, -⟩ := hs.unique hs' hshows trivial
    exact absurd hpub (hp.2 k e' (Nat.lt_trans hps hlt) (lt_of_at hk) hk)
  · rfl

/-- Every verdict that confirms delivers a confirmation that the user gave to the prompt shown for
what was published last. A confirmation is delivered once, and not after something else was
published: a thread whose prompt was evicted or replaced leaves the slot as it is, whatever the
user said. No prompt is shown over another. -/
theorem one_confirmation_one_request {F : Type} [DecidableEq F] {acts : List (Act F)} {w : World F}
    (h : World.start.run acts = some w) :
    (∀ i fp sel, At w.history i (.verdict fp (.confirmed sel)) →
      ∃ p s c opts, Delivers w.history p s c i fp opts sel) ∧
    (∀ p p' s s' c i i' fp fp' opts opts' sel sel', Delivers w.history p s c i fp opts sel →
      Delivers w.history p' s' c i' fp' opts' sel' → i = i') ∧
    (∀ p s c i k e fp opts sel, Delivers w.history p s c i fp opts sel → At w.history k e →
      e.Publishes → s < k → i < k) ∧
    (∀ fp outcome s k e e', w.thread = .answered fp outcome → Last Shows w.history s e → e.Shows →
      At w.history k e' → e'.Publishes → s < k → ∀ w', w.step .commit = some w' →
        w'.nav.slot = w.nav.slot) ∧
    (∀ s s' fp fp' opts opts', s < s' → At w.history s (.shown fp opts) →
      At w.history s' (.shown fp' opts') → ∃ k, s < k ∧ k < s' ∧ At w.history k .closed) := by
  have htraced := traced_start.run h
  refine ⟨htraced.verdicts.delivered, ?once, ?evicted, ?stale, ?apart⟩
  case once =>
    -- Between two verdicts that confirm something is published, so the later one is not of this
    -- prompt.
    have hnot : ∀ {p p' s s' c i i' fp fp' opts opts' sel sel'},
        Delivers w.history p s c i fp opts sel →
        Delivers w.history p' s' c i' fp' opts' sel' → ¬ i < i' := by
      intro p p' s s' c i i' fp fp' opts opts' sel sel' hd hd' hlt
      obtain ⟨k, e, hk, hk', he, hpub⟩ := htraced.verdicts.apart i i' _ _ _ _ hlt hd.verdict
        hd'.verdict
      have hpk : p' < k := by
        have := hd'.shownAfter
        have := hd'.answers.after
        have := hd.verdictAfter
        omega
      exact hd'.latest k e hpk hk' he hpub
    intro p p' s s' c i i' fp fp' opts opts' sel sel' hd hd'
    rcases Nat.lt_trichotomy i i' with hlt | heq | hgt
    · exact absurd hlt (hnot hd hd')
    · exact heq
    · exact absurd hgt (hnot hd' hd)
  case evicted =>
    intro p s c i k e fp opts sel hd hk hpub hlt
    rcases Nat.lt_trichotomy i k with hik | rfl | hki
    · exact hik
    · obtain rfl := Option.some.inj (hd.verdict.symm.trans hk)
      exact hpub.elim
    · exact absurd hpub (hd.latest k e (Nat.lt_trans hd.shownAfter hlt) hki hk)
  case stale =>
    intro fp outcome s k e e' hthread hs hshows hk hpub hlt w' hstep
    simp only [World.step, hthread, Option.some.injEq] at hstep
    rw [← hstep]
    exact htraced.stale hs hshows hk hpub hlt
  case apart =>
    intro s s' fp fp' opts opts' hlt hs hs'
    exact htraced.prompts s s' _ _ hlt hs trivial hs' trivial

/-- A request is published, shown, confirmed and delivered to the requester that asks again. -/
theorem one_confirmation_one_request_confirmed :
    (World.start (F := Nat)).run [.poll 7 (.registration none), .take, .confirm (some 2),
        .reply (.result (.newChecked (some 2))), .commit, .poll 7 (.registration none)] =
      some ⟨⟨.idle, none⟩, .waiting, 0, [.published 7 (.registration none), .verdict 7 .pending,
        .shown 7 (.registration none), .confirmed (some 2), .closed,
        .verdict 7 (.confirmed (some 2))]⟩ ∧
    ∃ p s c opts, Delivers [.published 7 (.registration none), .verdict 7 .pending,
      .shown 7 (.registration none), .confirmed (some 2), .closed,
      .verdict 7 (.confirmed (some 2))] p s c 5 7 opts (some 2) := by
  have hrun : (World.start (F := Nat)).run [.poll 7 (.registration none), .take,
      .confirm (some 2), .reply (.result (.newChecked (some 2))), .commit,
      .poll 7 (.registration none)] = some _ := rfl
  exact ⟨hrun, (one_confirmation_one_request hrun).1 5 7 (some 2) rfl⟩

end Fido
