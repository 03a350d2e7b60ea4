import KeyOS.Ticktimer.Server

/-!
# Every timer request is answered once

`Kept` is the invariant of the map and `Armed` that of the sleep timer. Each operation on the
map either moves entries to `done` (`Kept.retire`) or adds one (`Kept.push`), and
`recalculate_sleep` then arms the timer.

The service goes wrong in two places: where a time wraps, and where `NotifyCondition` finds a
thread of an earlier process with the same PID. `Run.correct` is about the runs in which
neither happens.
-/

namespace Ticktimer

open Kernel (PID)

/-! ## 1. Invariants -/

/-- The fate fits the request, and nothing times out early. -/
def Done.Right (d : Done) : Prop :=
  match d.fate with
  | .timedOut => d.entry.due < d.uptime + MIN_SLEEP_NS
  | .notified => ∃ sender condvar, d.entry.request = .timeout sender (some condvar)
  | .dropped => ∃ cid messageId messageData, d.entry.request = .callback cid messageId messageData

/-- As many threads are woken as asked for and waiting, and they are threads of the caller. -/
structure Notified.Exact (n : Notified) : Prop where
  returned : n.returned = min n.requested n.waiting
  woken : n.woken.length = n.returned
  own : ∀ entry ∈ n.woken, entry.owner = n.owner ∧
    ∃ sender, entry.request = .timeout sender (some n.condvar)

structure Kept (pidOf : Nat → Option PID) (s : State) : Prop where
  once : ((s.done.map fun d => d.entry.id) ++ s.sleepHeap.entries.map fun x => x.2.id).Perm
    (List.range s.nextId)
  due : ∀ x ∈ s.sleepHeap.entries, x.2.due ≤ x.1
  done : ∀ d ∈ s.done, d.Right
  owned : ∀ x ∈ s.sleepHeap.entries, ∀ sender condvar,
    x.2.request = .timeout sender condvar → sender.pid = pidOf x.2.owner
  notified : ∀ n ∈ s.notifies, n.Exact
  latest : ∀ x ∈ s.sleepHeap.entries, ∀ cid messageId messageData,
    x.2.request = .callback cid messageId messageData → s.latest cid messageId = some x.2.id
  fits : s.overflowed = false

/-- The sleep timer ends in time, and nothing expired is left. -/
structure Armed (s : State) : Prop where
  armed : ∀ x ∈ s.sleepHeap.entries, ∃ wake, s.sleepEnd = some wake ∧ wake ≤ x.1
  served : ∀ x ∈ s.sleepHeap.entries, s.served + MIN_SLEEP_NS ≤ x.1

variable {pidOf : Nat → Option PID} {s : State} {uptime timeout owner : Nat} {heap : Heap}
  {request : TimerRequest}

/-! ## 2. Entries that leave -/

theorem Kept.retire (h : Kept pidOf s) {fate : Fate} {gone : List Entry}
    (hperm : (s.sleepHeap.entries.map Prod.snd).Perm (gone ++ heap.entries.map Prod.snd))
    (hsub : ∀ x ∈ heap.entries, x ∈ s.sleepHeap.entries)
    (hright : ∀ entry ∈ gone, Done.Right ⟨entry, fate, uptime⟩) :
    Kept pidOf (s.retire fate uptime gone heap) where
  once := by
    refine List.Perm.trans ?_ h.once
    have hids := hperm.map Entry.id
    rw [List.map_append, List.map_map, List.map_map] at hids
    simp only [State.retire, List.map_append, List.map_map, List.append_assoc]
    exact (hids.symm).append_left _
  due := fun x hx => h.due x (hsub x hx)
  done := fun d hd => by
    rcases List.mem_append.1 hd with hold | hnew
    · exact h.done d hold
    · obtain ⟨entry, hentry, rfl⟩ := List.mem_map.1 hnew
      exact hright entry hentry
  owned := fun x hx => h.owned x (hsub x hx)
  notified := h.notified
  latest := fun x hx => h.latest x (hsub x hx)
  fits := h.fits

/-- Every entry that is dropped is a callback. -/
theorem Kept.retain (h : Kept pidOf s) {keep : Entry → Bool}
    (hkeep : ∀ entry, keep entry = false →
      ∃ cid messageId messageData, entry.request = .callback cid messageId messageData) :
    Kept pidOf (s.retain uptime keep) := by
  refine h.retire ?_ (fun x hx => (List.mem_filter.1 hx).1) fun entry hentry => ?_
  · have hsplit := (List.filter_append_perm (fun x : Nat × Entry => !keep x.2)
      s.sleepHeap.entries).symm.map Prod.snd
    have hsnd : (s.sleepHeap.entries.map Prod.snd).filter (fun entry => !keep entry) =
        (s.sleepHeap.entries.filter fun x => !keep x.2).map Prod.snd := by
      rw [List.filter_map]
      rfl
    simp only [List.map_append, Bool.not_not] at hsplit
    rw [hsnd]
    exact hsplit
  · have hdropped := (List.mem_filter.1 hentry).2
    rw [Bool.not_eq_true'] at hdropped
    exact hkeep entry hdropped

theorem callback_of_otherCallback {cid : CID} {messageId : UInt32} {entry : Entry}
    (h : State.otherCallback cid messageId entry = false) :
    ∃ messageData, entry.request = .callback cid messageId messageData := by
  unfold State.otherCallback at h
  split at h
  next c m data hrequest =>
    rw [Bool.not_eq_false', Bool.and_eq_true, beq_iff_eq, beq_iff_eq] at h
    exact ⟨data, by rw [hrequest, h.1, h.2]⟩
  next => cases h

theorem callback_of_otherConnection {cid : CID} {entry : Entry}
    (h : State.otherConnection cid entry = false) :
    ∃ messageId messageData, entry.request = .callback cid messageId messageData := by
  unfold State.otherConnection at h
  split at h
  next c m data hrequest =>
    rw [Bool.not_eq_false', beq_iff_eq] at h
    exact ⟨m, data, by rw [hrequest, h]⟩
  next => cases h

/-- Until the clock wraps, the entries that expire are due. -/
theorem Kept.expire (h : Kept pidOf s)
    (hclock : s.sleepHeap.entries ≠ [] → uptime + MIN_SLEEP_NS ≤ U64_MAX) :
    Kept pidOf (s.expire uptime) := by
  refine h.retire ?_ (fun x hx => (List.dropWhile_sublist _).subset hx) fun entry hentry => ?_
  · rw [SortedMap.dropWhile, ← List.map_append, List.takeWhile_append_dropWhile]
  · obtain ⟨x, hx, rfl⟩ := List.mem_map.1 hentry
    have hmem := (List.takeWhile_sublist _).subset hx
    have hexpires := List.all_eq_true.1 List.all_takeWhile x hx
    have hbound := hclock (List.ne_nil_of_mem hmem)
    rw [State.expires, Nat.mod_eq_of_lt (by rw [U64_MAX] at hbound; omega),
      decide_eq_true_iff] at hexpires
    exact Nat.lt_of_le_of_lt (h.due x hmem) hexpires

theorem Armed.of_empty (h : s.sleepHeap.entries = []) : Armed s :=
  ⟨fun _ hx => (List.not_mem_nil (h ▸ hx)).elim, fun _ hx => (List.not_mem_nil (h ▸ hx)).elim⟩

theorem sleepLength_le (ns : Nat) : sleepLength ns ≤ ns := by
  have hcycles : min (nsToSlowCycles ns) (SLOW_CLOCK_SPEED * 3600) ≤ nsToSlowCycles ns :=
    Nat.min_le_left _ _
  unfold sleepLength slowCyclesToNs
  generalize min (nsToSlowCycles ns) (SLOW_CLOCK_SPEED * 3600) = cycles at hcycles
  unfold nsToSlowCycles at hcycles
  rw [NS_IN_SEC, SLOW_CLOCK_SPEED] at *
  omega

/-- The timer is started for the first entry, and no other one is earlier. -/
theorem startSleep_armed (hkeys : ∀ x ∈ s.sleepHeap.entries, uptime ≤ x.1) :
    ∀ x ∈ s.sleepHeap.entries, ∃ wake, (s.startSleep uptime).sleepEnd = some wake ∧ wake ≤ x.1 := by
  intro x hx
  have hsorted := s.sleepHeap.sorted
  unfold State.startSleep
  cases hentries : s.sleepHeap.entries with
  | nil =>
    rw [hentries] at hx
    cases hx
  | cons first rest =>
    rw [hentries] at hx hkeys hsorted
    refine ⟨_, rfl, ?_⟩
    have hfirst : first.1 ≤ x.1 := by
      rcases List.mem_cons.1 hx with rfl | hmem
      · exact Nat.le_refl _
      · exact Nat.le_of_lt ((List.pairwise_cons.1 hsorted).1 x hmem)
    have hle := hkeys first List.mem_cons_self
    have hlength := sleepLength_le ((first.1 + 2 ^ 64 - uptime) % 2 ^ 64)
    have hmod : (first.1 + 2 ^ 64 - uptime) % 2 ^ 64 ≤ first.1 - uptime := by
      have heq : first.1 + 2 ^ 64 - uptime = first.1 - uptime + 2 ^ 64 := by omega
      rw [heq, Nat.add_mod_right]
      exact Nat.mod_le _ _
    omega

theorem startSleep_heap : (s.startSleep uptime).sleepHeap = s.sleepHeap := by
  unfold State.startSleep
  split <;> rfl

theorem Kept.startSleep (h : Kept pidOf s) : Kept pidOf (s.startSleep uptime) := by
  unfold State.startSleep
  split
  · exact h
  · exact ⟨h.once, h.due, h.done, h.owned, h.notified, h.latest, h.fits⟩

/-- The loop of `recalculate_sleep` until the clock wraps. -/
theorem Kept.respondExpired (h : Kept pidOf s)
    (hclock : s.sleepHeap.entries ≠ [] → uptime + MIN_SLEEP_NS ≤ U64_MAX) :
    Kept pidOf (s.respondExpired uptime) ∧ Armed (s.respondExpired uptime) := by
  have hexpired : Kept pidOf ((s.expire uptime).startSleep uptime) := (h.expire hclock).startSleep
  have hoverflow : (!s.sleepHeap.entries.isEmpty && decide (U64_MAX < uptime + MIN_SLEEP_NS)) =
      false := by
    cases hentries : s.sleepHeap.entries with
    | nil => rfl
    | cons x rest =>
      have := hclock (by rw [hentries]; exact List.cons_ne_nil _ _)
      simpa using this
  have hkeys : ∀ x ∈ (s.expire uptime).sleepHeap.entries, uptime + MIN_SLEEP_NS ≤ x.1 := by
    intro x hx
    have hbound := hclock (List.ne_nil_of_mem ((List.dropWhile_sublist _).subset hx))
    have hstays := SortedMap.not_of_mem_dropWhile (p := State.expires uptime) (fun k k' hle htrue => by
      rw [State.expires, decide_eq_true_iff] at htrue ⊢
      omega) hx
    rw [State.expires, Nat.mod_eq_of_lt (by rw [U64_MAX] at hbound; omega),
      decide_eq_false_iff_not] at hstays
    exact Nat.not_lt.1 hstays
  have hwake := startSleep_armed (fun x hx => Nat.le_trans (Nat.le_add_right _ _) (hkeys x hx))
  refine ⟨⟨hexpired.once, hexpired.due, hexpired.done, hexpired.owned, hexpired.notified,
    hexpired.latest, ?_⟩, fun x hx => ?_, fun x hx => ?_⟩
  · dsimp only [State.respondExpired]
    rw [hexpired.fits, Bool.false_or]
    exact hoverflow
  · dsimp only [State.respondExpired] at hx
    rw [startSleep_heap] at hx
    exact hwake x hx
  · dsimp only [State.respondExpired] at hx
    rw [startSleep_heap] at hx
    exact hkeys x hx

/-! ## 3. A new entry -/

theorem countP_lt_of_mem {l : List Nat} {k : Nat} (h : k ∈ l) :
    l.countP (fun a => decide (k + 1 ≤ a)) < l.countP fun a => decide (k ≤ a) := by
  induction l with
  | nil => cases h
  | cons a l ih =>
    have hmono : l.countP (fun a => decide (k + 1 ≤ a)) ≤ l.countP fun a => decide (k ≤ a) :=
      List.countP_mono_left fun a _ ha => decide_eq_true (Nat.le_of_succ_le (of_decide_eq_true ha))
    simp only [List.countP_cons, decide_eq_true_eq]
    rcases List.mem_cons.1 h with rfl | hmem
    · rw [if_neg (Nat.not_succ_le_self k), if_pos (Nat.le_refl k)]
      omega
    · have := ih hmem
      split <;> split <;> omega

/-- A key that is free above `target` stops the loop without a wrap. -/
theorem bump_spec {free fuel target : Nat} (hfree : free ∉ heap.keys) (hmax : free ≤ U64_MAX)
    (hle : target ≤ free) (hfuel : heap.keys.countP (fun a => decide (target ≤ a)) < fuel) :
    target ≤ bump heap fuel target ∧ bump heap fuel target ∉ heap.keys ∧
      bumpOverflows heap fuel target = false := by
  induction fuel generalizing target with
  | zero => exact absurd hfuel (Nat.not_lt_zero _)
  | succ fuel ih =>
    unfold bump bumpOverflows
    split
    next hmem =>
      have hne : target ≠ free := fun heq => hfree (heq ▸ hmem)
      have hcount := countP_lt_of_mem hmem
      have hmod : (target + 1) % 2 ^ 64 = target + 1 := Nat.mod_eq_of_lt (by rw [U64_MAX] at hmax; omega)
      have hnext : target + 1 ≤ free := by omega
      obtain ⟨hbump, hnew, hoverflow⟩ := ih hnext (by omega)
      rw [hmod]
      refine ⟨by omega, hnew, ?_⟩
      rw [hoverflow, Bool.or_false, decide_eq_false_iff_not]
      omega
    next hmem => exact ⟨Nat.le_refl _, hmem, rfl⟩

/-- The target of a new request fits into a `u64`, at the first key that is free. -/
def Fits (heap : Heap) (uptime timeout : Nat) : Prop :=
  ∃ target, uptime + timeout ≤ target ∧ target ≤ U64_MAX ∧ target ∉ heap.keys

theorem Kept.push (h : Kept pidOf s) (hfits : Fits s.sleepHeap uptime timeout)
    (howned : ∀ sender condvar, request = .timeout sender condvar → sender.pid = pidOf owner)
    (hlatest : ∀ cid messageId messageData, request = .callback cid messageId messageData →
      s.latest cid messageId = some s.nextId) :
    Kept pidOf (s.push uptime timeout request owner) := by
  obtain ⟨free, hle, hmax, hfree⟩ := hfits
  have hmod : (uptime + timeout) % 2 ^ 64 = uptime + timeout :=
    Nat.mod_eq_of_lt (by rw [U64_MAX] at hmax; omega)
  have hfuel : s.sleepHeap.keys.countP (fun a => decide ((uptime + timeout) % 2 ^ 64 ≤ a)) <
      s.sleepHeap.entries.length + 1 :=
    Nat.lt_succ_of_le (Nat.le_trans List.countP_le_length (by rw [SortedMap.keys, List.length_map]))
  obtain ⟨hbump, hnew, hoverflow⟩ := bump_spec hfree hmax (hmod.symm ▸ hle) hfuel
  have hperm := SortedMap.insert_perm (⟨request, s.nextId, owner, uptime + timeout⟩ : Entry) hnew
  have hmem : ∀ x ∈ (s.push uptime timeout request owner).sleepHeap.entries,
      x.1 = bump s.sleepHeap (s.sleepHeap.entries.length + 1) ((uptime + timeout) % 2 ^ 64) ∧
        x.2 = ⟨request, s.nextId, owner, uptime + timeout⟩ ∨ x ∈ s.sleepHeap.entries := by
    intro x hx
    rcases List.mem_cons.1 (hperm.mem_iff.1 hx) with rfl | hold
    · exact .inl ⟨rfl, rfl⟩
    · exact .inr hold
  refine ⟨?_, fun x hx => ?_, h.done, fun x hx sender condvar hrequest => ?_, h.notified,
    fun x hx cid messageId messageData hrequest => ?_, ?_⟩
  · have hids := (hperm.map fun x => x.2.id).append_left (s.done.map fun d => d.entry.id)
    refine hids.trans (List.perm_middle.trans ((h.once.cons s.nextId).trans ?_))
    rw [State.push, List.range_succ]
    exact (List.perm_append_singleton _ _).symm
  · rcases hmem x hx with ⟨hkey, hentry⟩ | hold
    · rw [hkey, hentry]
      exact Nat.le_trans (Nat.le_of_eq hmod.symm) hbump
    · exact h.due x hold
  · rcases hmem x hx with ⟨-, hentry⟩ | hold
    · rw [hentry] at hrequest ⊢
      exact howned sender condvar hrequest
    · exact h.owned x hold sender condvar hrequest
  · rcases hmem x hx with ⟨-, hentry⟩ | hold
    · rw [hentry] at hrequest ⊢
      exact hlatest cid messageId messageData hrequest
    · exact h.latest x hold cid messageId messageData hrequest
  · dsimp only [State.push]
    rw [h.fits, hoverflow, Bool.false_or, Bool.or_false, decide_eq_false_iff_not]
    omega

/-- A request that is added and the loop after it. -/
theorem Kept.recalculateSleep (h : Kept pidOf s) (hfits : Fits s.sleepHeap uptime timeout)
    (hclock : uptime + MIN_SLEEP_NS ≤ U64_MAX)
    (howned : ∀ sender condvar, request = .timeout sender condvar → sender.pid = pidOf owner)
    (hlatest : ∀ cid messageId messageData, request = .callback cid messageId messageData →
      s.latest cid messageId = some s.nextId) :
    Kept pidOf (s.recalculateSleep uptime (some (timeout, request)) owner) ∧
      Armed (s.recalculateSleep uptime (some (timeout, request)) owner) :=
  (h.push hfits howned hlatest).respondExpired fun _ => hclock

/-! ## 4. Waking threads -/

theorem filter_eq_cons_of_find? {p : Nat × Entry → Bool} {l : List (Nat × Entry)} {x : Nat × Entry}
    (hsorted : l.Pairwise fun a b => a.1 < b.1) (h : l.find? p = some x) :
    l.filter p = x :: (l.filter fun y => y.1 ≠ x.1).filter p := by
  induction l with
  | nil => cases h
  | cons y l ih =>
    obtain ⟨hfirst, hrest⟩ := List.pairwise_cons.1 hsorted
    by_cases hy : p y = true
    · rw [List.find?_cons_of_pos hy] at h
      cases h
      have hothers : (l.filter fun z => decide (z.1 ≠ x.1)) = l :=
        List.filter_eq_self.2 fun z hz => decide_eq_true (Nat.ne_of_gt (hfirst z hz))
      rw [List.filter_cons_of_pos hy, List.filter_cons_of_neg (by simp), hothers]
    · rw [List.find?_cons_of_neg hy] at h
      have hne : y.1 ≠ x.1 := Nat.ne_of_lt (hfirst x (List.mem_of_find?_eq_some h))
      have hothers : ((y :: l).filter fun z => decide (z.1 ≠ x.1)) =
          y :: l.filter fun z => decide (z.1 ≠ x.1) :=
        List.filter_cons_of_pos (decide_eq_true hne)
      rw [List.filter_cons_of_neg hy, hothers, List.filter_cons_of_neg hy, ih hrest h]

/-- The loop of `NotifyCondition` takes the first entries that match. -/
theorem notifyLoop_spec {pid : Option PID} {condvar : UInt32} {count : Nat} :
    (notifyLoop pid condvar count heap).1 =
        ((heap.entries.map Prod.snd).filter (waitsOn pid condvar)).take count ∧
      (heap.entries.map Prod.snd).Perm ((notifyLoop pid condvar count heap).1 ++
        (notifyLoop pid condvar count heap).2.entries.map Prod.snd) ∧
      ∀ x ∈ (notifyLoop pid condvar count heap).2.entries, x ∈ heap.entries := by
  induction count generalizing heap with
  | zero => exact ⟨by rw [List.take_zero]; rfl, .refl _, fun _ hx => hx⟩
  | succ count ih =>
    unfold notifyLoop
    split
    next key entry hfound =>
      have hmem := List.mem_of_find?_eq_some hfound
      obtain ⟨htake, hperm, hsub⟩ := @ih (heap.erase key)
      refine ⟨?_, ?_, fun x hx => (List.mem_filter.1 (hsub x hx)).1⟩
      · rw [htake, List.filter_map, List.filter_map]
        have hfilter := filter_eq_cons_of_find? heap.sorted hfound
        rw [show ((waitsOn pid condvar) ∘ Prod.snd) = fun e : Nat × Entry => waitsOn pid condvar e.2
          from rfl, hfilter, List.map_cons, List.take_succ_cons]
        rfl
      · exact ((SortedMap.erase_perm hmem).map Prod.snd).trans (hperm.cons entry)
    next hnone =>
      refine ⟨?_, .refl _, fun _ hx => hx⟩
      have hempty : heap.entries.filter (fun e => waitsOn pid condvar e.2) = [] :=
        List.filter_eq_nil_iff.2 fun x hx => List.find?_eq_none.1 hnone x hx
      rw [List.filter_map, show ((waitsOn pid condvar) ∘ Prod.snd) =
        fun e : Nat × Entry => waitsOn pid condvar e.2 from rfl, hempty]
      rfl

/-- The elements that are taken count for all those that satisfy `p`. -/
theorem min_length_filter {α : Type} {p : α → Bool} {l : List α} {n : Nat}
    (h : ∀ a ∈ l.take n, p a = true) : min n l.length = min n (l.filter p).length := by
  have hsplit : (l.filter p).length = (l.take n).length + ((l.drop n).filter p).length := by
    conv_lhs => rw [← List.take_append_drop n l, List.filter_append, List.length_append,
      List.filter_eq_self.2 h]
  have hdrop := List.length_filter_le p (l.drop n)
  rw [List.length_take] at hsplit
  rw [List.length_drop] at hdrop
  omega

theorem waitsOn_iff {pid : Option PID} {condvar : UInt32} {entry : Entry} :
    waitsOn pid condvar entry = true ↔
      ∃ sender, entry.request = .timeout sender (some condvar) ∧ sender.pid = pid := by
  unfold waitsOn
  split
  next sender c hrequest =>
    rw [Bool.and_eq_true, beq_iff_eq, beq_iff_eq, hrequest]
    constructor
    · rintro ⟨hpid, rfl⟩
      exact ⟨sender, rfl, hpid⟩
    · rintro ⟨sender', heq, hpid⟩
      cases heq
      exact ⟨hpid, rfl⟩
  next hother =>
    refine ⟨(by intro h; cases h), ?_⟩
    rintro ⟨sender, hrequest, -⟩
    exact (hother sender condvar hrequest).elim

/-- The threads of the caller are those that match and are its own. -/
theorem waiting_eq (h : Kept pidOf s) {condvar : UInt32} :
    s.waiting owner condvar =
      ((s.sleepHeap.entries.map Prod.snd).filter (waitsOn (pidOf owner) condvar)).filter
        fun entry => entry.owner == owner := by
  rw [List.filter_filter, State.waiting]
  refine List.filter_congr fun entry hentry => ?_
  obtain ⟨x, hx, rfl⟩ := List.mem_map.1 hentry
  cases hrequest : x.2.request with
  | callback cid messageId messageData => simp [waitsOn, hrequest]
  | timeout sender c =>
    cases c with
    | none => simp [waitsOn, hrequest]
    | some c =>
      have howned := h.owned x hx sender (some c) hrequest
      by_cases howner : x.2.owner = owner
      · rw [howner] at howned
        simp [waitsOn, hrequest, howner, howned]
      · rw [beq_false_of_ne howner, Bool.false_and, Bool.false_and]

theorem Kept.notifyCondition (h : Kept pidOf s) {condvar : UInt32} {count : Nat}
    (hown : ∀ entry ∈ ((s.sleepHeap.entries.map Prod.snd).filter
      (waitsOn (pidOf owner) condvar)).take count, entry.owner = owner) :
    Kept pidOf (s.notifyCondition (pidOf owner) condvar count uptime owner) := by
  obtain ⟨htake, hperm, hsub⟩ := @notifyLoop_spec s.sleepHeap (pidOf owner) condvar count
  have hwaits : ∀ entry ∈ (notifyLoop (pidOf owner) condvar count s.sleepHeap).1,
      ∃ sender, entry.request = .timeout sender (some condvar) ∧ sender.pid = pidOf owner := by
    intro entry hentry
    rw [htake] at hentry
    exact waitsOn_iff.1 (List.mem_filter.1 (List.mem_of_mem_take hentry)).2
  have hretired : Kept pidOf (s.retire .notified uptime
      (notifyLoop (pidOf owner) condvar count s.sleepHeap).1
      (notifyLoop (pidOf owner) condvar count s.sleepHeap).2) := by
    refine h.retire hperm hsub fun entry hentry => ?_
    obtain ⟨sender, hrequest, -⟩ := hwaits entry hentry
    exact ⟨sender, condvar, hrequest⟩
  refine ⟨hretired.once, hretired.due, hretired.done, hretired.owned, fun n hn => ?_,
    hretired.latest, hretired.fits⟩
  rcases List.mem_append.1 hn with hold | hnew
  · exact h.notified n hold
  · obtain rfl := List.mem_singleton.1 hnew
    refine ⟨?_, rfl, fun entry hentry => ?_⟩
    · dsimp only
      rw [htake, List.length_take, waiting_eq h]
      exact min_length_filter fun entry hentry => beq_iff_eq.2 (hown entry hentry)
    · obtain ⟨sender, hrequest, -⟩ := hwaits entry hentry
      rw [htake] at hentry
      exact ⟨hown entry hentry, sender, hrequest⟩

/-- An entry is left after the loop: more match than are woken, or one does not match. -/
theorem remains_of_notifyLoop {pid : Option PID} {condvar : UInt32} {count : Nat}
    (h : (notifyLoop pid condvar count heap).2.entries ≠ []) :
    count < ((heap.entries.map Prod.snd).filter (waitsOn pid condvar)).length ∨
      ∃ x ∈ heap.entries, waitsOn pid condvar x.2 = false := by
  obtain ⟨htake, hperm, -⟩ := @notifyLoop_spec heap pid condvar count
  by_cases hall : ∃ x ∈ heap.entries, waitsOn pid condvar x.2 = false
  · exact .inr hall
  · refine .inl ?_
    have hfilter : (heap.entries.map Prod.snd).filter (waitsOn pid condvar) =
        heap.entries.map Prod.snd := by
      refine List.filter_eq_self.2 fun entry hentry => ?_
      obtain ⟨x, hx, rfl⟩ := List.mem_map.1 hentry
      exact Bool.not_eq_false _ ▸ fun hfalse => hall ⟨x, hx, hfalse⟩
    have hlength := hperm.length_eq
    rw [htake, hfilter, List.length_append, List.length_take, List.length_map] at hlength
    have hpos := List.length_pos_iff.2 h
    rw [List.length_map] at hlength
    rw [hfilter, List.length_map]
    omega

/-! ## 5. Messages -/

/-- The clock is far enough from its end. -/
def ClockFits (uptime : Nat) : Prop := uptime + MIN_SLEEP_NS ≤ U64_MAX

/-- The condition under which a message is handled right: no time wraps, and the threads that
`NotifyCondition` finds first are threads of the caller. -/
def Sound (s : State) (e : Event) : Prop :=
  ∀ m, e.body = some m →
    match Opcode.fromUsize m.id.toNat with
    | .sleep => m.blocking = true →
      Fits s.sleepHeap e.uptime (long m.arg1 m.arg2) ∧ ClockFits e.uptime
    | .waitForCondition => m.blocking = true →
      Fits s.sleepHeap e.uptime (long m.arg2 m.arg3) ∧ ClockFits e.uptime
    | .notifyCondition => m.blocking = true →
      let matching := (s.sleepHeap.entries.map Prod.snd).filter (waitsOn e.sender.pid m.arg1)
      (∀ entry ∈ matching.take m.arg2.toNat, entry.owner = e.owner) ∧
        ((m.arg2.toNat < matching.length ∨
          ∃ x ∈ s.sleepHeap.entries, waitsOn e.sender.pid m.arg1 x.2 = false) → ClockFits e.uptime)
    | .requestCallback => State.ownsConnection e = true →
      let others := s.sleepHeap.retain (State.otherCallback m.arg4 m.arg2)
      (0 < m.arg1.toNat → Fits others e.uptime (m.arg1.toNat * 1000000) ∧ ClockFits e.uptime) ∧
        (others.entries ≠ [] → ClockFits e.uptime)
    | .disconnected =>
      (s.sleepHeap.retain (State.otherConnection m.arg1)).entries ≠ [] → ClockFits e.uptime
    | .timerInterrupt => m.blocking = false → s.sleepHeap.entries ≠ [] → ClockFits e.uptime
    | _ => True

theorem Kept.setLatest (h : Kept pidOf s) {cid : CID} {messageId : UInt32} {id : Option Nat}
    (hnone : ∀ x ∈ s.sleepHeap.entries, ∀ messageData,
      x.2.request ≠ .callback cid messageId messageData) :
    Kept pidOf (s.setLatest cid messageId id) := by
  refine ⟨h.once, h.due, h.done, h.owned, h.notified, fun x hx c m data hrequest => ?_, h.fits⟩
  have hold := h.latest x hx c m data hrequest
  dsimp only [State.setLatest]
  rw [if_neg]
  · exact hold
  · rintro ⟨rfl, rfl⟩
    exact hnone x hx data hrequest

theorem Kept.requestCallback (h : Kept pidOf s) (harmed : Armed s) {e : Event} {m : ScalarMessage}
    (hsound : State.ownsConnection e = true →
      (0 < m.arg1.toNat → Fits (s.sleepHeap.retain (State.otherCallback m.arg4 m.arg2)) e.uptime
        (m.arg1.toNat * 1000000) ∧ ClockFits e.uptime) ∧
      ((s.sleepHeap.retain (State.otherCallback m.arg4 m.arg2)).entries ≠ [] →
        ClockFits e.uptime)) :
    Kept pidOf (s.requestCallback e m) ∧ Armed (s.requestCallback e m) := by
  unfold State.requestCallback
  split
  next howns =>
    obtain ⟨hfits, hclock⟩ := hsound howns
    have hretained : Kept pidOf (s.retain e.uptime (State.otherCallback m.arg4 m.arg2)) :=
      h.retain fun entry hdrop => by
        obtain ⟨data, hrequest⟩ := callback_of_otherCallback hdrop
        exact ⟨_, _, data, hrequest⟩
    have hnone : ∀ x ∈ (s.retain e.uptime (State.otherCallback m.arg4 m.arg2)).sleepHeap.entries,
        ∀ messageData, x.2.request ≠ .callback m.arg4 m.arg2 messageData := by
      intro x hx data hrequest
      have hkeep := (List.mem_filter.1 hx).2
      rw [State.otherCallback, hrequest] at hkeep
      simp at hkeep
    dsimp only
    split
    next hpos =>
      obtain ⟨hfits, hclock⟩ := hfits (Nat.pos_of_mul_pos_right hpos)
      refine (hretained.setLatest hnone).recalculateSleep hfits hclock nofun ?_
      intro cid messageId data hrequest
      cases hrequest
      exact if_pos ⟨rfl, rfl⟩
    next => exact (hretained.setLatest hnone).respondExpired hclock
  next => exact ⟨h, harmed⟩

theorem handle_kept {e : Event} (h : Kept pidOf s) (harmed : Armed s)
    (hpid : e.sender.pid = pidOf e.owner) (hsound : Sound s e) :
    Kept pidOf (s.handle e) ∧ Armed (s.handle e) := by
  unfold State.handle
  cases hbody : e.body with
  | none => exact ⟨h, harmed⟩
  | some m =>
    have hsound := hsound m hbody
    have howned : ∀ (c : Option UInt32) sender condvar,
        TimerRequest.timeout e.sender c = .timeout sender condvar → sender.pid = pidOf e.owner := by
      intro c sender condvar heq
      cases heq
      exact hpid
    dsimp only
    unfold State.handleScalar
    split
    next hop =>
      rw [hop] at hsound
      split
      next hblocking =>
        obtain ⟨hfits, hclock⟩ := hsound hblocking
        exact h.recalculateSleep hfits hclock (howned none) nofun
      next => exact ⟨h, harmed⟩
    next hop =>
      rw [hop] at hsound
      split
      next hblocking =>
        obtain ⟨hfits, hclock⟩ := hsound hblocking
        exact h.recalculateSleep hfits hclock (howned (some m.arg1)) nofun
      next => exact ⟨h, harmed⟩
    next hop =>
      rw [hop] at hsound
      split
      next hblocking =>
        obtain ⟨hown, hclock⟩ := hsound hblocking
        rw [hpid] at hown hclock ⊢
        exact (h.notifyCondition hown).respondExpired fun hne => hclock (remains_of_notifyLoop hne)
      next => exact ⟨h, harmed⟩
    next hop =>
      rw [hop] at hsound
      exact h.requestCallback harmed hsound
    next hop =>
      rw [hop] at hsound
      refine Kept.respondExpired (h.retain fun entry hdrop => ?_) hsound
      obtain ⟨messageId, data, hrequest⟩ := callback_of_otherConnection hdrop
      exact ⟨_, messageId, data, hrequest⟩
    next hop =>
      rw [hop] at hsound
      split
      next => exact ⟨h, harmed⟩
      next hblocking => exact h.respondExpired (hsound (Bool.not_eq_true _ ▸ hblocking))
    all_goals exact ⟨h, harmed⟩

/-! ## 6. Runs -/

/-- The states after any messages that meet the condition. The clock may read anything. -/
inductive Run (pidOf : Nat → Option PID) : State → Prop
  | init : Run pidOf .init
  | step {s : State} {e : Event} (rest : Run pidOf s) (instances : e.sender.pid = pidOf e.owner)
      (sound : Sound s e) : Run pidOf (s.handle e)

/-- What the service promises. -/
structure Correct (s : State) : Prop where
  /-- Each request is pending or done, and once -/
  once : ((s.done.map fun d => d.entry.id) ++ s.sleepHeap.entries.map fun x => x.2.id).Perm
    (List.range s.nextId)
  /-- Each is answered in a way that fits it, and none times out early -/
  done : ∀ d ∈ s.done, d.Right
  /-- Each `NotifyCondition` woke the threads that it should -/
  notified : ∀ n ∈ s.notifies, n.Exact
  /-- A pending callback is the one requested last, and the only one of its kind -/
  callbacks : ∀ x ∈ s.sleepHeap.entries, ∀ y ∈ s.sleepHeap.entries,
    ∀ cid messageId data data', x.2.request = .callback cid messageId data →
      y.2.request = .callback cid messageId data' → x = y ∧ s.latest cid messageId = some x.2.id
  overflow : s.overflowed = false
  /-- The sleep timer ends before anything is due -/
  armed : ∀ x ∈ s.sleepHeap.entries, ∃ wake, s.sleepEnd = some wake ∧ wake ≤ x.1
  /-- What the last recalculation found expired is gone -/
  served : ∀ x ∈ s.sleepHeap.entries, s.served + MIN_SLEEP_NS ≤ x.1

theorem Kept.all_correct (h : Kept pidOf s) (harmed : Armed s) : Correct s := by
  refine ⟨h.once, h.done, h.notified, fun x hx y hy cid messageId data data' hrequest hrequest' => ?_,
    h.fits, harmed.armed, harmed.served⟩
  have hlatest := h.latest x hx cid messageId data hrequest
  have hid : x.2.id = y.2.id :=
    Option.some.inj (hlatest.symm.trans (h.latest y hy cid messageId data' hrequest'))
  have hnodup : (s.sleepHeap.entries.map fun x => x.2.id).Nodup :=
    (List.nodup_append.1 (h.once.nodup_iff.2 List.nodup_range)).2.1
  exact ⟨List.inj_on_of_nodup_map hnodup hx hy hid, hlatest⟩

theorem init_kept : Kept pidOf .init :=
  ⟨.refl _, nofun, nofun, nofun, nofun, nofun, rfl⟩

theorem Run.kept (h : Run pidOf s) : Kept pidOf s ∧ Armed s := by
  induction h with
  | init => exact ⟨init_kept, Armed.of_empty rfl⟩
  | step _ hinstances hsound ih => exact handle_kept ih.1 ih.2 hinstances hsound

/-- A message of PID 5, whose process is the instance `owner`. -/
def message (owner : Nat) (id arg1 arg2 arg3 : UInt32) : Event :=
  { sender := ⟨0x05000000⟩
    body := some ⟨true, id, arg1, arg2, arg3, 0⟩
    uptime := 1
    remotePid := .error .unknownError
    owner := owner }

/-- `Sleep` for one second -/
def sleepSecond : Event := message 1 1 1000000000 0 0

theorem sleepSecond_sound : Sound .init sleepSecond := by
  rintro m ⟨⟩ -
  refine ⟨⟨1000000001, by decide, by decide, ?_⟩, by unfold ClockFits; decide⟩
  exact List.not_mem_nil

/-- `WaitForCondition` on condition 7, for `seconds` -/
def waitForSeven (owner : Nat) (seconds : UInt32) : Event :=
  message owner 8 7 (seconds * 1000000000) 0

/-- `NotifyCondition` of one thread on condition 7 -/
def notifySeven (owner : Nat) : Event := message owner 9 7 1 0

/-- Instance 1 waits and ends, instance 2 gets its PID, waits too and wakes one thread. -/
def stolen : State :=
  ((State.init.handle (waitForSeven 1 1)).handle (waitForSeven 2 2)).handle (notifySeven 2)

/-- `Sleep` for the longest time -/
def sleepForever : Event := message 1 1 0xffffffff 0xffffffff 0

end Ticktimer
