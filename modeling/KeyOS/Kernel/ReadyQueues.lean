import KeyOS.Kernel.Scheduler

/-!
# The ready queues are rings

`level` says which threads are ready, and at which priority. The invariant gives every
priority the list of its threads, starting with the head of the queue. Readying a
thread appends it, parking erases it, yielding rotates the list, and each leaves the
lists of the other priorities as they are.
-/

namespace Kernel

open Exec LinkedRing

/-! ## 1. The invariant of the scheduler -/

/-- `rings i` are the threads that `level` puts at priority `i`, from the queue head on. -/
structure Scheduler.Queues (s : Scheduler) (level : Thread → Option Nat)
    (rings : Nat → List Thread) : Prop where
  ring : ∀ i, IsRing s.links (rings i)
  head : ∀ i, s.queueHeads i = (rings i).head?
  mem : ∀ i t, t ∈ rings i ↔ level t = some i
  unlinked : ∀ t, level t = none → s.links t = none
  top : rings s.highestReadyPriority ≠ []
  above : ∀ i, s.highestReadyPriority < i → rings i = []

namespace Scheduler

variable {s : Scheduler} {level : Thread → Option Nat} {rings : Nat → List Thread} {t : Thread}

namespace Queues

theorem notMem (h : s.Queues level rings) (ht : level t = none) (i : Nat) : t ∉ rings i := by
  intro hmem
  rw [(h.mem i t).1 hmem] at ht
  cases ht

theorem disjoint (h : s.Queues level rings) {i j : Nat} (hij : j ≠ i) {k : Thread}
    (hi : k ∈ rings i) : k ∉ rings j := by
  intro hj
  have := ((h.mem i k).1 hi).symm.trans ((h.mem j k).1 hj)
  exact hij (Option.some.inj this).symm

/-- An edit at priority `i` that moves the thread `t` in or out and leaves the links of
all other rings alone. -/
theorem edit (h : s.Queues level rings) {s' : Scheduler} {i : Nat} {l : List Thread}
    {v : Option Nat} (hring : IsRing s'.links l)
    (hlinks : ∀ k, k ∉ rings i → k ≠ t → s'.links k = s.links k)
    (hhead : s'.queueHeads i = l.head?) (hheads : ∀ j ≠ i, s'.queueHeads j = s.queueHeads j)
    (hl : ∀ k, k ∈ l ↔ (k ≠ t ∧ k ∈ rings i) ∨ (k = t ∧ v = some i))
    (ht : ∀ j ≠ i, t ∉ rings j) (hv : ∀ j, v = some j → j = i)
    (hnone : v = none → s'.links t = none)
    (htop : Function.update rings i l s'.highestReadyPriority ≠ [])
    (habove : ∀ j, s'.highestReadyPriority < j → Function.update rings i l j = []) :
    s'.Queues (Function.update level t v) (Function.update rings i l) where
  ring j := by
    rcases eq_or_ne j i with rfl | hj
    · rwa [Function.update_self]
    · rw [Function.update_of_ne hj]
      refine (h.ring j).congr fun k hk => hlinks k (fun hki => h.disjoint hj hki hk) ?_
      rintro rfl
      exact ht j hj hk
  head j := by
    rcases eq_or_ne j i with rfl | hj
    · rwa [Function.update_self]
    · rw [Function.update_of_ne hj, hheads j hj]
      exact h.head j
  mem j k := by
    rcases eq_or_ne j i with rfl | hj
    · rw [Function.update_self, hl]
      rcases eq_or_ne k t with rfl | hk
      · rw [Function.update_self]
        simp only [ne_eq, not_true, false_and, true_and, false_or]
      · rw [Function.update_of_ne hk]
        simp only [ne_eq, hk, not_false_eq_true, true_and, false_and, or_false]
        exact h.mem j k
    · rw [Function.update_of_ne hj]
      rcases eq_or_ne k t with rfl | hk
      · rw [Function.update_self]
        exact ⟨fun hmem => absurd hmem (ht j hj), fun hvj => absurd (hv j hvj) hj⟩
      · rw [Function.update_of_ne hk]
        exact h.mem j k
  unlinked k hk := by
    rcases eq_or_ne k t with rfl | hkt
    · rw [Function.update_self] at hk
      exact hnone hk
    · rw [Function.update_of_ne hkt] at hk
      rw [hlinks k (h.notMem hk i) hkt]
      exact h.unlinked k hk
  top := htop
  above := habove

end Queues

/-! ## 2. Readying a thread -/

/-- A thread that is not ready goes to the end of its queue. -/
theorem readyThread_run (h : s.Queues level rings) (htid : t.tid ≠ IRQ_TID)
    (ht : level t = none) (p : ThreadPriority) :
    ∃ s', readyThread t p s = (.ok (), s') ∧
      s'.Queues (Function.update level t (some p.index))
        (Function.update rings p.index (rings p.index ++ [t])) ∧
      s'.inIrqHandler = s.inIrqHandler := by
  have hmem : ∀ k, k ∈ rings p.index ++ [t] ↔
      (k ≠ t ∧ k ∈ rings p.index) ∨ (k = t ∧ some p.index = some p.index) := by
    intro k
    rw [List.mem_append, List.mem_singleton]
    refine or_congr ⟨fun hk => ⟨?_, hk⟩, And.right⟩ ⟨fun hk => ⟨hk, rfl⟩, And.left⟩
    rintro rfl
    exact h.notMem ht _ hk
  unfold readyThread
  rw [Prog.bind_ok _ (Prog.get_run s), if_neg htid]
  cases hring : rings p.index with
  | nil =>
    have hhead : s.queueHeads p.index = none := by rw [h.head, hring]; rfl
    rw [hhead]
    rw [hring] at hmem
    refine ⟨{ s with
      queueHeads := Function.update s.queueHeads p.index (some t)
      links := Function.update s.links t (some ⟨t, t⟩)
      highestReadyPriority := max s.highestReadyPriority p.index }, rfl, ?_⟩
    refine ⟨?_, rfl⟩
    refine h.edit (.single (Function.update_self ..)) (fun k _ hk => Function.update_of_ne hk _ _)
      (Function.update_self ..) (fun j hj => Function.update_of_ne hj _ _)
      (fun k => by rw [hring]; exact hmem k) (fun j _ => h.notMem ht j)
      (fun j hj => (Option.some.inj hj).symm) nofun ?_ fun j hj => ?_
    · show Function.update rings p.index [t] (max s.highestReadyPriority p.index) ≠ []
      rcases Nat.lt_or_ge s.highestReadyPriority p.index with hlt | hge
      · rw [Nat.max_eq_right hlt.le, Function.update_self]
        exact List.cons_ne_nil _ _
      · rw [Nat.max_eq_left hge, Function.update_of_ne fun heq : s.highestReadyPriority = _ =>
          h.top (heq ▸ hring)]
        exact h.top
    · obtain ⟨hj₁, hj₂⟩ := Nat.max_lt.1 hj
      rw [Function.update_of_ne (Nat.ne_of_gt hj₂)]
      exact h.above j hj₁
  | cons a l =>
    have hhead : s.queueHeads p.index = some a := by rw [h.head, hring]; rfl
    have hr : IsRing s.links (a :: l) := hring ▸ h.ring p.index
    obtain ⟨e, he, -, hprev_mem⟩ := hr.exists_link List.mem_cons_self
    obtain ⟨ep, hep, -⟩ := hr.exists_link hprev_mem
    have htl : t ∉ a :: l := hring ▸ h.notMem ht p.index
    have hset : Function.update s.links a (some ⟨e.next, t⟩) = setPrev s.links a t := by
      rw [setPrev, he]
      rfl
    obtain ⟨e', he', -⟩ := setPrev_isSome hep a t
    refine ⟨{ s with links := insertBefore s.links a t e }, ?_, ?_⟩
    · rw [hhead]
      show (Prog.require _ _ >>= _) _ = _
      rw [Prog.bind_ok _ (Prog.require_run _ (by rw [h.unlinked t ht]; rfl) _), he,
        Prog.bind_ok _ (Prog.expect_some_run _ e _), Prog.bind_ok _ (Prog.modify_run _ _),
        Prog.bind_ok _ (Prog.get_run _), setLink, hset]
      show (Prog.expect _ (setPrev s.links a t e.prev) >>= _) _ = _
      rw [insertBefore, setNext, he', Prog.bind_ok _ (Prog.expect_some_run _ e' _)]
      rfl
    · rw [hring] at hmem
      refine ⟨?_, rfl⟩
      refine h.edit (hr.insertBefore htl he) (fun k hk hkt => ?_) hhead (fun j _ => rfl)
        (fun k => by rw [hring]; exact hmem k) (fun j _ => h.notMem ht j)
        (fun j hj => (Option.some.inj hj).symm) nofun ?_ fun j hj => ?_
      · rw [hring] at hk
        refine insertBefore_of_ne ?_ ?_ hkt
        · rintro rfl
          exact hk List.mem_cons_self
        · rintro rfl
          exact hk hprev_mem
      · show Function.update rings p.index (a :: l ++ [t]) s.highestReadyPriority ≠ []
        rcases eq_or_ne s.highestReadyPriority p.index with hi | hi
        · rw [hi, Function.update_self]
          exact List.cons_ne_nil _ _
        · rw [Function.update_of_ne hi]
          exact h.top
      · rw [Function.update_of_ne]
        · exact h.above j hj
        · rintro rfl
          exact absurd (h.above _ hj) (hring ▸ List.cons_ne_nil _ _)

/-! ## 3. Parking a thread -/

theorem highestBelow_spec (s : Scheduler) {n i : Nat} (hi : i < n)
    (hhead : (s.queueHeads i).isSome) :
    ∃ p, s.highestBelow n = some p ∧ (s.queueHeads p).isSome ∧
      ∀ j, p < j → j < n → s.queueHeads j = none := by
  unfold highestBelow
  induction n with
  | zero => exact absurd hi (Nat.not_lt_zero i)
  | succ n ih =>
    rw [List.range_succ, List.reverse_append, List.reverse_singleton, List.singleton_append,
      List.find?_cons]
    cases hn : (s.queueHeads n).isSome with
    | true => exact ⟨n, rfl, hn, fun j h₁ h₂ => absurd h₁ (Nat.not_lt.2 (Nat.le_of_lt_succ h₂))⟩
    | false =>
      have hin : i < n := by
        rcases Nat.lt_or_eq_of_le (Nat.le_of_lt_succ hi) with h | rfl
        · exact h
        · rw [hhead] at hn
          cases hn
      obtain ⟨p, hp, hsome, habove⟩ := ih hin
      refine ⟨p, hp, hsome, fun j h₁ h₂ => ?_⟩
      rcases Nat.lt_or_eq_of_le (Nat.le_of_lt_succ h₂) with h | rfl
      · exact habove j h₁ h
      · exact Option.not_isSome_iff_eq_none.1 (by rw [hn]; intro h; cases h)

theorem mem_erase_iff {links : Links Thread} {l : List Thread} (h : IsRing links l) {i : Nat}
    (k : Thread) :
    k ∈ l.erase t ↔ (k ≠ t ∧ k ∈ l) ∨ (k = t ∧ (none : Option Nat) = some i) := by
  rw [h.nodup.mem_erase_iff]
  exact ⟨.inl, fun hk => hk.resolve_right nofun⟩

/-- Parking the only thread of a priority: the queue becomes empty, and the highest
priority may have to be looked for. -/
theorem parkThread_alone (h : s.Queues level rings) (htid : t.tid ≠ IRQ_TID) {p : ThreadPriority}
    (hsingle : rings p.index = [t]) {idle : Thread} (hidle : level idle = some 0)
    (hne : idle ≠ t) :
    ∃ s', parkThread t p s = (.ok (), s') ∧
      s'.Queues (Function.update level t none) (Function.update rings p.index []) ∧
      s'.inIrqHandler = s.inIrqHandler := by
  have hring := h.ring p.index
  rw [hsingle] at hring
  have hidle_ne : p.index ≠ 0 := by
    intro hzero
    have hmem : idle ∈ rings p.index := (h.mem _ _).2 (hzero ▸ hidle)
    rw [hsingle, List.mem_singleton] at hmem
    exact hne hmem
  have hidle_mem : idle ∈ rings 0 := (h.mem _ _).2 hidle
  unfold parkThread
  rw [Prog.bind_ok _ (Prog.get_run s), if_neg htid, hring.head_link,
    Prog.bind_ok _ (Prog.expect_some_run _ _ _), Prog.bind_ok _ (Prog.modify_run _ _)]
  show ∃ s', (if t = t then _ else _ : Prog Scheduler Panic Error Unit) _ = _ ∧ _
  rw [if_pos rfl, Prog.bind_ok _ (Prog.modify_run _ _), Prog.bind_ok _ (Prog.get_run _)]
  set s₁ : Scheduler := setHead p.index none (setLink t none s) with hs₁
  have hheads : ∀ j, s₁.queueHeads j = (Function.update rings p.index [] j).head? := by
    intro j
    rcases eq_or_ne j p.index with rfl | hj
    · rw [Function.update_self]
      exact Function.update_self ..
    · rw [Function.update_of_ne hj, ← h.head j]
      exact Function.update_of_ne hj _ _
  have hdone : ∀ top, Function.update rings p.index [] top ≠ [] →
      (∀ j, top < j → Function.update rings p.index [] j = []) →
      Queues { s₁ with highestReadyPriority := top } (Function.update level t none)
        (Function.update rings p.index []) := by
    intro top htop habove
    refine h.edit .nil (fun k _ hk => Function.update_of_ne hk _ _) (Function.update_self ..)
      (fun j hj => Function.update_of_ne hj _ _) (fun k => ?_)
      (fun j hj => h.disjoint hj (hsingle ▸ List.mem_singleton_self t)) nofun
      (fun _ => Function.update_self ..) htop habove
    have := mem_erase_iff (t := t) (i := p.index) hring k
    rwa [List.erase_cons_head, ← hsingle] at this
  by_cases htop : p.index = s.highestReadyPriority
  · have hzero : (s₁.queueHeads 0).isSome := by
      rw [hheads, Function.update_of_ne (Ne.symm hidle_ne)]
      exact List.isSome_head?.2 (List.ne_nil_of_mem hidle_mem)
    obtain ⟨q, hq, hsome, hnone⟩ := highestBelow_spec s₁ (Nat.pos_of_ne_zero hidle_ne) hzero
    rw [if_pos (show p.index = s₁.highestReadyPriority from htop), hq]
    refine ⟨_, rfl, hdone q ?_ fun j hj => ?_, rfl⟩
    · rw [hheads] at hsome
      exact List.isSome_head?.1 hsome
    · rcases Nat.lt_trichotomy j p.index with hlt | rfl | hgt
      · exact List.head?_eq_none_iff.1 (hheads j ▸ hnone j hj hlt)
      · rw [Function.update_self]
      · rw [Function.update_of_ne (Nat.ne_of_gt hgt)]
        exact h.above j (htop ▸ hgt)
  · rw [if_neg (show p.index ≠ s₁.highestReadyPriority from htop)]
    refine ⟨_, rfl, hdone s.highestReadyPriority ?_ fun j hj => ?_, rfl⟩
    · rw [Function.update_of_ne (Ne.symm htop)]
      exact h.top
    · rcases eq_or_ne j p.index with rfl | hj'
      · rw [Function.update_self]
      · rw [Function.update_of_ne hj']
        exact h.above j hj

/-- Parking one thread of several: its neighbours are joined, and the queue head moves
on if it was the thread. -/
theorem parkThread_among (h : s.Queues level rings) (htid : t.tid ≠ IRQ_TID) {p : ThreadPriority}
    (htmem : t ∈ rings p.index) {e : SchedulerLink} (he : s.links t = some e)
    (hnext : e.next ≠ t) :
    ∃ s', parkThread t p s = (.ok (), s') ∧
      s'.Queues (Function.update level t none)
        (Function.update rings p.index ((rings p.index).erase t)) ∧
      s'.inIrqHandler = s.inIrqHandler := by
  have hring := h.ring p.index
  have hprev : e.prev ≠ t := hring.prev_ne htmem he hnext
  obtain ⟨e₁, he₁, hnext_mem, hprev_mem⟩ := hring.exists_link htmem
  cases he.symm.trans he₁
  obtain ⟨ep, hep, -⟩ := hring.exists_link hprev_mem
  obtain ⟨en, hen, -⟩ := hring.exists_link hnext_mem
  have hep' : Function.update s.links t none e.prev = some ep := by
    rwa [Function.update_of_ne hprev]
  have hen' : Function.update s.links t none e.next = some en := by
    rwa [Function.update_of_ne hnext]
  obtain ⟨en', hen'', -⟩ := setNext_isSome hen' e.prev e.next
  have hset : Function.update (Function.update s.links t none) e.prev (some ⟨e.next, ep.prev⟩) =
      setNext (Function.update s.links t none) e.prev e.next := by
    rw [setNext, hep']
    rfl
  have hset' : Function.update (setNext (Function.update s.links t none) e.prev e.next) e.next
      (some ⟨en'.next, e.prev⟩) = unlink s.links t e := by
    rw [unlink, setPrev, hen'']
    rfl
  -- where the queue head is afterwards
  have hhead : (if s.queueHeads p.index = some t then some e.next else s.queueHeads p.index) =
      ((rings p.index).erase t).head? := by
    rw [h.head]
    cases hl : rings p.index with
    | nil => rw [hl] at htmem; cases htmem
    | cons a l =>
      rw [List.head?_cons]
      rcases eq_or_ne a t with rfl | hat
      · rw [if_pos rfl, List.erase_cons_head]
        rw [hl] at hring
        cases he.symm.trans hring.head_link
        cases l with
        | nil => exact absurd rfl hnext
        | cons b l => rfl
      · rw [if_neg (fun heq => hat (Option.some.inj heq)),
          List.erase_cons_tail (by rw [beq_iff_eq]; exact hat)]
        rfl
  refine ⟨{ s with
    queueHeads := Function.update s.queueHeads p.index
      (if s.queueHeads p.index = some t then some e.next else s.queueHeads p.index)
    links := unlink s.links t e }, ?_, ?_⟩
  · unfold parkThread
    rw [Prog.bind_ok _ (Prog.get_run s), if_neg htid, he,
      Prog.bind_ok _ (Prog.expect_some_run _ e _), Prog.bind_ok _ (Prog.modify_run _ _),
      if_neg hnext]
    have hcond : Prog.onlyIf (s.queueHeads p.index = some t)
        (Prog.modify (setHead p.index (some e.next))) (setLink t none s) =
        ((.ok (), { s with
          queueHeads := Function.update s.queueHeads p.index
            (if s.queueHeads p.index = some t then some e.next else s.queueHeads p.index)
          links := Function.update s.links t none }) : Outcome Panic Error Unit × Scheduler) := by
      by_cases hc : s.queueHeads p.index = some t
      · rw [Prog.onlyIf_true_run hc, if_pos hc]
        rfl
      · rw [Prog.onlyIf_false_run hc, if_neg hc, Function.update_eq_self]
        rfl
    rw [Prog.bind_ok _ hcond, Prog.bind_ok _ (Prog.get_run _)]
    show (Prog.expect _ (Function.update s.links t none e.prev) >>= _) _ = _
    rw [hep', Prog.bind_ok _ (Prog.expect_some_run _ ep _), Prog.bind_ok _ (Prog.modify_run _ _),
      Prog.bind_ok _ (Prog.get_run _), setLink, hset]
    show (Prog.expect _ (setNext (Function.update s.links t none) e.prev e.next e.next) >>= _) _ = _
    rw [hen'', Prog.bind_ok _ (Prog.expect_some_run _ en' _), Prog.modify_run, setLink, hset']
  · refine ⟨?_, rfl⟩
    refine h.edit (hring.unlink htmem he hnext) (fun k hk hkt => unlink_of_ne ?_ ?_ hkt) ?_
      (fun j hj => Function.update_of_ne hj _ _) (mem_erase_iff hring)
      (fun j hj => h.disjoint hj htmem) (by simp) (fun _ => ?_) ?_ fun j hj => ?_
    · exact fun hkn => hk (hkn ▸ hnext_mem)
    · exact fun hkp => hk (hkp ▸ hprev_mem)
    · rw [← hhead]
      exact Function.update_self ..
    · show unlink s.links t e t = none
      rw [unlink, setPrev_of_ne (Ne.symm hnext), setNext_of_ne (Ne.symm hprev)]
      exact Function.update_self ..
    · show Function.update rings p.index _ s.highestReadyPriority ≠ []
      rcases eq_or_ne s.highestReadyPriority p.index with hi | hi
      · rw [hi, Function.update_self]
        exact List.ne_nil_of_mem (hring.nodup.mem_erase_iff.2 ⟨hnext, hnext_mem⟩)
      · rw [Function.update_of_ne hi]
        exact h.top
    · rw [Function.update_of_ne]
      · exact h.above j hj
      · rintro rfl
        rw [h.above _ hj] at htmem
        cases htmem

/-- A ready thread leaves its queue, as long as another thread is idle. -/
theorem parkThread_run (h : s.Queues level rings) (htid : t.tid ≠ IRQ_TID) {p : ThreadPriority}
    (ht : level t = some p.index) {idle : Thread} (hidle : level idle = some 0)
    (hne : idle ≠ t) :
    ∃ s', parkThread t p s = (.ok (), s') ∧
      s'.Queues (Function.update level t none)
        (Function.update rings p.index ((rings p.index).erase t)) ∧
      s'.inIrqHandler = s.inIrqHandler := by
  have htmem : t ∈ rings p.index := (h.mem _ _).2 ht
  obtain ⟨e, he, -⟩ := (h.ring p.index).exists_link htmem
  by_cases hnext : e.next = t
  · have hsingle := (h.ring p.index).eq_single htmem he hnext
    rw [hsingle, List.erase_cons_head]
    exact parkThread_alone h htid hsingle hidle hne
  · exact parkThread_among h htid htmem he hnext

/-! ## 4. Yielding -/

/-- Yielding moves the head of a queue to its end, and does nothing else. -/
theorem yieldThread_run (h : s.Queues level rings) (t : Thread) (p : ThreadPriority) :
    (∃ l s', rings p.index = t :: l ∧ yieldThread t p s = (.ok (), s') ∧
      s'.Queues level (Function.update rings p.index (l ++ [t])) ∧
      s'.inIrqHandler = s.inIrqHandler) ∨
    ((rings p.index).head? ≠ some t ∧ yieldThread t p s = (.ok (), s)) := by
  unfold yieldThread
  rw [Prog.bind_ok _ (Prog.get_run s), h.head]
  cases hl : rings p.index with
  | nil => exact .inr ⟨nofun, rfl⟩
  | cons a l =>
    rcases eq_or_ne a t with rfl | hat
    · have hring : IsRing s.links (a :: l) := hl ▸ h.ring p.index
      refine .inl ⟨l, setHead p.index (l ++ [a]).head? s, rfl, ?_, ?_, rfl⟩
      · rw [List.head?_cons, if_pos rfl, hring.head_link,
          Prog.bind_ok _ (Prog.expect_some_run _ _ _), Prog.modify_run, List.head?_eq_some_head]
      · refine ⟨fun i => ?_, fun i => ?_, fun i k => ?_, h.unlinked, ?_, fun i hi => ?_⟩
        · rcases eq_or_ne i p.index with rfl | hi
          · rw [Function.update_self]
            exact IsRing.rotate (l := [a]) hring
          · rw [Function.update_of_ne hi]
            exact h.ring i
        · rcases eq_or_ne i p.index with rfl | hi
          · rw [Function.update_self]
            exact Function.update_self ..
          · rw [Function.update_of_ne hi, ← h.head]
            exact Function.update_of_ne hi _ _
        · rcases eq_or_ne i p.index with rfl | hi
          · rw [Function.update_self, ← h.mem, hl, List.mem_append, List.mem_singleton,
              List.mem_cons, or_comm]
          · rw [Function.update_of_ne hi]
            exact h.mem i k
        · show Function.update rings p.index _ s.highestReadyPriority ≠ []
          rcases eq_or_ne s.highestReadyPriority p.index with hi | hi
          · rw [hi, Function.update_self]
            exact List.append_ne_nil_of_right_ne_nil _ (List.cons_ne_nil _ _)
          · rw [Function.update_of_ne hi]
            exact h.top
        · rw [Function.update_of_ne]
          · exact h.above i hi
          · rintro rfl
            exact absurd (h.above _ hi) (hl ▸ List.cons_ne_nil _ _)
    · have hne : some a ≠ some t := fun heq => hat (Option.some.inj heq)
      refine .inr ⟨hne, ?_⟩
      rw [List.head?_cons, if_neg hne]
      rfl

end Scheduler

end Kernel
