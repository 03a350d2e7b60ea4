import KeyOS.Emmc.InFlight

/-!
# One pass of the scheduler

Every part of `tryAdvance` keeps `Sound`: the operations are in flight, and each of them
is where its number and its phase say.
-/

namespace Emmc

variable {E : CryptEngine} {requests : List Request} {base flash : Flash}
  {ops inbox : List Operation} {log : List Event} {s t : Operation} {p p' : Pipeline} {n : Nat}

/-! ## 1. The queues -/

theorem insertOp_perm (h : ∀ t ∈ ops, t.seq ≠ s.seq) : (insertOp s ops).Perm (s :: ops) := by
  induction ops with
  | nil => exact .refl _
  | cons t ops ih =>
    rw [insertOp]
    split
    · exact .refl _
    · rw [if_neg (h t (.head _)).symm]
      exact ((ih fun u hu => h u (.tail _ hu)).cons t).trans (.swap s t ops)

theorem insertOp_of_last (h : ∀ t ∈ ops, t.seq < s.seq) : insertOp s ops = ops ++ [s] := by
  induction ops with
  | nil => rfl
  | cons t ops ih =>
    have hlt := h t (.head _)
    rw [insertOp, if_neg (Nat.lt_asymm hlt), if_neg (Nat.ne_of_gt hlt),
      ih fun u hu => h u (.tail _ hu), List.cons_append]

theorem insertOp_sorted (h : ops.Pairwise (·.seq < ·.seq)) (hne : ∀ t ∈ ops, t.seq ≠ s.seq) :
    (insertOp s ops).Pairwise (·.seq < ·.seq) := by
  induction ops with
  | nil => exact List.pairwise_singleton _ _
  | cons t ops ih =>
    have htail : ∀ u ∈ ops, u.seq ≠ s.seq := fun u hu => hne u (.tail _ hu)
    obtain ⟨hhead, hsorted⟩ := List.pairwise_cons.1 h
    rw [insertOp]
    split
    · next hlt =>
      refine List.pairwise_cons.2 ⟨fun u hu => ?_, h⟩
      rcases List.mem_cons.1 hu with rfl | hu
      · exact hlt
      · exact Nat.lt_trans hlt (hhead u hu)
    · next hle =>
      rw [if_neg (hne t (.head _)).symm]
      refine List.pairwise_cons.2 ⟨fun u hu => ?_, ih hsorted htail⟩
      rcases List.mem_cons.1 ((insertOp_perm htail).mem_iff.1 hu) with rfl | hu
      · exact Nat.lt_of_le_of_ne (Nat.not_lt.1 hle) (hne t (.head _))
      · exact hhead u hu

theorem removeOp_perm (h : ops.Pairwise (·.seq < ·.seq)) (hs : s ∈ ops) :
    ops.Perm (s :: removeOp s.seq ops) := by
  induction ops with
  | nil => cases hs
  | cons t ops ih =>
    obtain ⟨hhead, hsorted⟩ := List.pairwise_cons.1 h
    unfold removeOp
    rcases List.mem_cons.1 hs with rfl | hs
    · have hall : ops.filter (·.seq ≠ s.seq) = ops :=
        List.filter_eq_self.2 fun u hu => decide_eq_true (Nat.ne_of_gt (hhead u hu))
      rw [List.filter_cons_of_neg (by simp), hall]
    · have hne : decide (t.seq ≠ s.seq) = true := decide_eq_true (Nat.ne_of_lt (hhead s hs))
      rw [List.filter_cons, if_pos hne]
      exact ((ih hsorted hs).cons t).trans (.swap s t _)

/-- The inbox is drained from its head, as far as there is room. -/
theorem drainInboxLoop_eq (running : Nat) (h : (ops ++ inbox).Pairwise (·.seq < ·.seq)) :
    Pipeline.drainInboxLoop running ops inbox =
      (ops ++ inbox.take (PIPELINE_DEFER_THRESHOLD - (ops.length + running)),
        inbox.drop (PIPELINE_DEFER_THRESHOLD - (ops.length + running))) := by
  induction inbox generalizing ops with
  | nil => rw [Pipeline.drainInboxLoop, List.take_nil, List.drop_nil, List.append_nil]
  | cons s inbox ih =>
    rw [Pipeline.drainInboxLoop]
    split
    · next hfull =>
      rw [Nat.sub_eq_zero_of_le hfull, List.take_zero, List.drop_zero, List.append_nil]
    · next hroom =>
      have hlast : ∀ t ∈ ops, t.seq < s.seq := fun t ht =>
        (List.pairwise_append.1 h).2.2 t ht s (.head _)
      obtain ⟨k, hk⟩ : ∃ k, PIPELINE_DEFER_THRESHOLD - (ops.length + running) = k + 1 :=
        Nat.exists_eq_succ_of_ne_zero (Nat.ne_of_gt (Nat.sub_pos_of_lt (Nat.not_le.1 hroom)))
      have hk' : PIPELINE_DEFER_THRESHOLD - ((ops ++ [s]).length + running) = k := by
        rw [List.length_append, List.length_singleton]
        omega
      rw [List.append_cons] at h
      rw [insertOp_of_last hlast, ih h, hk', hk, List.take_succ_cons, List.drop_succ_cons,
        List.append_assoc, List.singleton_append]

/-- The earliest operation is a flush, and no crypt step is earlier: it is answered. -/
theorem InFlight.flushed {crypt : Option Operation}
    (h : InFlight E requests base n (crypt.toList ++ (s :: ops)) log flash)
    (hsorted : (s :: ops).Pairwise (·.seq < ·.seq)) (hflush : s.op = .flush)
    (hcrypt : ∀ c, crypt = some c → s.seq ≤ c.seq) :
    InFlight E requests base n (crypt.toList ++ ops) (log ++ [.respond s.seq [], .released s.seq])
      flash := by
  have hperm : (crypt.toList ++ (s :: ops)).Perm (s :: (crypt.toList ++ ops)) := List.perm_middle
  have hearlier : ∀ i < s.seq, Event.released i ∈ log := by
    intro i hi
    have hs : s ∈ crypt.toList ++ (s :: ops) := List.mem_append_right _ (.head _)
    refine (h.released_iff i).2 ⟨Nat.lt_trans hi (h.bound s hs), fun t ht hseq => ?_⟩
    have hle : s.seq ≤ t.seq := by
      rcases List.mem_append.1 ht with ht | ht
      · exact hcrypt t (Option.mem_toList.1 ht)
      · rcases List.mem_cons.1 ht with rfl | ht
        · exact Nat.le_refl _
        · exact Nat.le_of_lt ((List.pairwise_cons.1 hsorted).1 t ht)
    exact absurd (hseq ▸ hle) (Nat.not_le.2 hi)
  have h := h.perm hperm
  obtain ⟨r, hr, -, hphase⟩ := h.phase s (.head _)
  have hop : r.op = .flush := hphase.of_flush hflush
  refine h.answer ?_ hr (fun addr => ?_) ?_ fun _ => hearlier
  · rw [hflush]
    rfl
  · rw [Request.update, hop]
    rfl
  · rw [Request.answer, hop]

namespace Pipeline

/-- The operations that are not over. -/
def pending (p : Pipeline) : List Operation :=
  p.sdmmcRunning.toList ++ (p.cryptRunning.toList ++ (p.ops ++ p.inbox))

/-- The queues are in the order of admission, the inbox behind all active work, and the
channels run steps of their own kind. -/
structure Placed (p : Pipeline) : Prop where
  sorted : (p.ops ++ p.inbox).Pairwise (·.seq < ·.seq)
  ahead : ∀ s ∈ p.sdmmcRunning.toList ++ p.cryptRunning.toList, ∀ t ∈ p.inbox, s.seq < t.seq
  sdmmc : ∀ s, p.sdmmcRunning = some s → s.op.isSdmmcStep = true ∧ Started p.log s.seq
  crypt : ∀ s, p.cryptRunning = some s → s.op.isCryptStep = true

structure Sound (E : CryptEngine) (requests : List Request) (base : Flash) (n : Nat)
    (flash : Flash) (p : Pipeline) : Prop where
  next : p.nextSeq = n
  inFlight : InFlight E requests base n p.pending p.log flash
  placed : p.Placed

theorem Sound.new (E : CryptEngine) (requests : List Request) (base : Flash) :
    Sound E requests base 0 base .new :=
  ⟨rfl, .init E requests base, .nil, nofun, nofun, nofun⟩

theorem Placed.ops_sorted (h : p.Placed) : p.ops.Pairwise (·.seq < ·.seq) :=
  (List.pairwise_append.1 h.sorted).1

/-- All active work comes before the inbox. -/
theorem Placed.before_inbox (h : p.Placed)
    (hs : s ∈ p.sdmmcRunning.toList ++ (p.cryptRunning.toList ++ p.ops)) (ht : t ∈ p.inbox) :
    s.seq < t.seq := by
  rw [← List.append_assoc] at hs
  rcases List.mem_append.1 hs with hs | hs
  · exact h.ahead s hs t ht
  · exact (List.pairwise_append.1 h.sorted).2.2 s hs t ht

theorem Sound.record {es : List Event} (h : Sound E requests base n flash p)
    (hes : ∀ e ∈ es, e.seq? = none) : Sound E requests base n flash (p.record es) :=
  ⟨h.next, h.inFlight.record hes, h.placed.sorted, h.placed.ahead,
    fun s hs => (h.placed.sdmmc s hs).imp_right fun h => h.mono es, h.placed.crypt⟩

theorem Sound.drainInbox (h : Sound E requests base n flash p) :
    Sound E requests base n flash p.drainInbox := by
  have happend : p.drainInbox.ops ++ p.drainInbox.inbox = p.ops ++ p.inbox := by
    unfold Pipeline.drainInbox
    rw [drainInboxLoop_eq _ h.placed.sorted, List.append_assoc, List.take_append_drop]
  have hsub : p.drainInbox.inbox ⊆ p.inbox := by
    unfold Pipeline.drainInbox
    rw [drainInboxLoop_eq _ h.placed.sorted]
    exact List.drop_subset _ _
  refine ⟨h.next, ?_, ?_, fun s hs t ht => ?_, h.placed.sdmmc, h.placed.crypt⟩
  · unfold pending
    rw [happend]
    exact h.inFlight
  · rw [happend]
    exact h.placed.sorted
  · exact h.placed.ahead s hs t (hsub ht)

/-! ## 2. Flushes -/

theorem drainFlushesLoop_keeps {crypt : Option Operation} (checked : Bool)
    (h : InFlight E requests base n (crypt.toList ++ (ops ++ inbox)) log flash)
    (hsorted : (ops ++ inbox).Pairwise (·.seq < ·.seq)) :
    InFlight E requests base n
        (crypt.toList ++ ((drainFlushesLoop crypt checked log ops).1 ++ inbox))
        (drainFlushesLoop crypt checked log ops).2.2 flash ∧
      (drainFlushesLoop crypt checked log ops).1 <:+ ops := by
  induction ops generalizing checked log with
  | nil => exact ⟨h, List.suffix_rfl⟩
  | cons head rest ih =>
    rw [drainFlushesLoop]
    split
    · exact ⟨h, List.suffix_rfl⟩
    · next hflush =>
      split
      · exact ⟨h, List.suffix_rfl⟩
      · next hcrypt =>
        have hop : head.op = .flush := by
          cases hop : head.op with
          | flush => rfl
          | _ =>
            rw [hop] at hflush
            exact absurd rfl hflush
        have hle : ∀ c, crypt = some c → head.seq ≤ c.seq := by
          rintro c rfl
          exact Nat.not_lt.1 fun hlt => hcrypt (decide_eq_true hlt)
        have hes : ∀ e ∈ if checked then [] else [Event.assertCardHealthy], e.seq? = none := by
          intro e he
          split at he
          · cases he
          · rw [List.mem_singleton.1 he]
            rfl
        obtain ⟨hkept, hsuffix⟩ := ih true ((h.record hes).flushed hsorted hop hle)
          (List.pairwise_cons.1 hsorted).2
        exact ⟨hkept, hsuffix.trans (List.suffix_cons _ _)⟩

theorem Sound.drainFlushes (h : Sound E requests base n flash p) :
    Sound E requests base n flash p.drainFlushes.1 := by
  unfold Pipeline.drainFlushes
  split
  · exact h
  · next hidle =>
    rw [Option.not_isSome_iff_eq_none] at hidle
    have hinFlight : InFlight E requests base n
        (p.cryptRunning.toList ++ (p.ops ++ p.inbox)) p.log flash := by
      have := h.inFlight
      rwa [pending, hidle] at this
    obtain ⟨hkept, hsuffix⟩ := drainFlushesLoop_keeps false hinFlight h.placed.sorted
    refine ⟨h.next, ?_, h.placed.sorted.sublist ?_, h.placed.ahead, ?_, h.placed.crypt⟩
    · unfold pending
      rw [hidle]
      exact hkept
    · exact hsuffix.sublist.append_right _
    · intro s hs
      rw [hidle] at hs
      cases hs

/-! ## 3. The channels -/

/-- The gate looks at the active work, and the inbox is all later. -/
theorem Sound.earlier_released (h : Sound E requests base n flash p) (hs : s ∈ p.ops)
    (hgate : p.hasEarlierOverlap s = false) {i : Nat} {r : Request} (hi : i < s.seq)
    (hr : requests[i]? = some r) (hoverlap : r.range.rangesOverlap s.range = true) :
    .released i ∈ p.log := by
  have hmem : s ∈ p.pending :=
    List.mem_append_right _ (List.mem_append_right _ (List.mem_append_left _ hs))
  refine (h.inFlight.released_iff i).2 ⟨Nat.lt_trans hi (h.inFlight.bound s hmem), ?_⟩
  rintro t ht rfl
  obtain ⟨r', hr', hrange, -⟩ := h.inFlight.phase t ht
  cases hr.symm.trans hr'
  have hactive : t ∈ p.ops.filter (·.seq < s.seq) ++ p.sdmmcRunning.toList ++
      p.cryptRunning.toList := by
    simp only [pending, List.mem_append] at ht
    simp only [List.mem_append, List.mem_filter]
    rcases ht with ht | ht | ht | ht
    · exact .inl (.inr ht)
    · exact .inr ht
    · exact .inl (.inl ⟨ht, decide_eq_true hi⟩)
    · have hlt := h.placed.before_inbox (List.mem_append_right _ (List.mem_append_right _ hs)) ht
      exact absurd hi (Nat.lt_asymm hlt)
  have hblocked : p.hasEarlierOverlap s = true := by
    refine List.any_eq_true.2 ⟨t, hactive, ?_⟩
    rw [decide_eq_true hi, hrange, hoverlap]
    rfl
  rw [hgate] at hblocked
  cases hblocked

theorem runSdmmc_eq (p : Pipeline) (hs : s.op.isSdmmcStep = true) : ∃ direction, p.runSdmmc s =
    some ({ p with sdmmcRunning := some s }.record [.sdmmcDma s.seq direction s.range]) := by
  unfold runSdmmc
  cases hop : s.op with
  | plainReadSdmmc => exact ⟨.read, rfl⟩
  | encReadSdmmc => exact ⟨.read, rfl⟩
  | plainWriteSdmmc => exact ⟨.write, rfl⟩
  | encWriteSdmmc => exact ⟨.write, rfl⟩
  | _ =>
    rw [hop] at hs
    cases hs

/-- The SDMMC channel gets an operation, or no transfer may start. -/
theorem Sound.scheduleSdmmc (h : Sound E requests base n flash p) :
    ∃ p', p.scheduleSdmmc = some p' ∧ Sound E requests base n flash p' ∧
      (p'.sdmmcRunning = none → p' = p) ∧ (p'.sdmmcRunning = none ↔ p.sdmmcRunning = none ∧
        ∀ s ∈ p.ops, s.op.isSdmmcStep = true → p.hasEarlierOverlap s = true) := by
  unfold Pipeline.scheduleSdmmc
  split
  · next hbusy =>
    have hsome : p.sdmmcRunning ≠ none := Option.isSome_iff_ne_none.1 hbusy
    exact ⟨p, rfl, h, fun _ => rfl, fun hnone => absurd hnone hsome,
      fun hnone => absurd hnone.1 hsome⟩
  · next hidle =>
    rw [Option.not_isSome_iff_eq_none] at hidle
    split
    · next hfind =>
      refine ⟨p, rfl, h, fun _ => rfl, fun _ => ⟨hidle, fun s hs hstep => ?_⟩, And.left⟩
      have := List.find?_eq_none.1 hfind s hs
      rwa [hstep, Bool.true_and, Bool.not_eq_true', Bool.not_eq_false] at this
    · next s hfind =>
      have hs := List.mem_of_find?_eq_some hfind
      have hok := List.find?_some hfind
      rw [Bool.and_eq_true, Bool.not_eq_true'] at hok
      obtain ⟨direction, hrun⟩ := runSdmmc_eq { p with ops := removeOp s.seq p.ops } hok.1
      have hperm : p.pending.Perm
          (s :: (p.cryptRunning.toList ++ (removeOp s.seq p.ops ++ p.inbox))) := by
        rw [pending, hidle]
        refine (((removeOp_perm h.placed.ops_sorted hs).append_right p.inbox).append_left
          p.cryptRunning.toList).trans ?_
        exact List.perm_middle
      have hstarted := (h.inFlight.perm hperm).start direction
        fun i r hi hr hoverlap => h.earlier_released hs hok.2 hi hr hoverlap
      refine ⟨_, hrun, ⟨h.next, hstarted, ?_, ?_, ?_, h.placed.crypt⟩, nofun, nofun, fun hblocked => ?_⟩
      · exact h.placed.sorted.sublist ((List.filter_sublist).append_right _)
      · intro t ht u hu
        rcases List.mem_cons.1 ht with rfl | ht
        · exact h.placed.before_inbox (List.mem_append_right _ (List.mem_append_right _ hs)) hu
        · exact h.placed.ahead t (List.mem_append_right _ ht) u hu
      · rintro _ ⟨⟩
        exact ⟨hok.1, direction, s.range, List.mem_append_right _ (.head _)⟩
      · rw [hblocked.2 s hs hok.1] at hok
        cases hok.2

theorem runCrypt_of_crypted (p : Pipeline) {src dst : List UInt8} {dir : CryptDirection}
    {offset : Nat} (hstep : cryptStep s.op = some (src, dst, dir, offset))
    (h : Crypted E dir s.range src dst offset) : p.runCrypt s =
      some ({ p with cryptRunning := some s }.record
        [.diskEncrypt s.seq (cryptSubOp s.range offset).tweak (cryptSubOp s.range offset).j dir
          (cryptSubOp s.range offset).len]) := by
  simp only [runCrypt, hstep, Option.bind_eq_bind, Option.bind_some, h.subranges.1, h.subranges.2]
  rfl

/-- The next sub-op of an operation in a crypt step. -/
theorem runCrypt_eq (p : Pipeline) {r : Request} (hphase : Phase E base r s)
    (hs : s.op.isCryptStep = true) : ∃ tweak j dir len, p.runCrypt s =
      some ({ p with cryptRunning := some s }.record [.diskEncrypt s.seq tweak j dir len]) := by
  cases hphase with
  | decrypting _ hop _ hcrypt =>
    exact ⟨_, _, _, _, runCrypt_of_crypted p (congrArg cryptStep hop) hcrypt⟩
  | encrypting _ hop hcrypt =>
    exact ⟨_, _, _, _, runCrypt_of_crypted p (congrArg cryptStep hop) hcrypt⟩
  | plainRead _ hop => exact absurd (hop ▸ hs) nofun
  | encRead _ hop => exact absurd (hop ▸ hs) nofun
  | plainWrite _ hop => exact absurd (hop ▸ hs) nofun
  | encWrite _ hop => exact absurd (hop ▸ hs) nofun
  | flush _ hop => exact absurd (hop ▸ hs) nofun

/-- The crypt channel gets an operation, or there is no crypt step. -/
theorem Sound.scheduleCrypt (h : Sound E requests base n flash p) :
    ∃ p', p.scheduleCrypt = some p' ∧ Sound E requests base n flash p' ∧
      p'.sdmmcRunning = p.sdmmcRunning ∧ (p'.cryptRunning = none → p' = p) ∧
      (p'.cryptRunning = none ↔
        p.cryptRunning = none ∧ ∀ s ∈ p.ops, s.op.isCryptStep = false) := by
  unfold Pipeline.scheduleCrypt
  split
  · next hbusy =>
    have hsome : p.cryptRunning ≠ none := Option.isSome_iff_ne_none.1 hbusy
    exact ⟨p, rfl, h, rfl, fun _ => rfl, fun hnone => absurd hnone hsome,
      fun hnone => absurd hnone.1 hsome⟩
  · next hidle =>
    rw [Option.not_isSome_iff_eq_none] at hidle
    split
    · next hfind =>
      refine ⟨p, rfl, h, rfl, fun _ => rfl, fun _ => ⟨hidle, fun s hs => ?_⟩, And.left⟩
      exact Bool.not_eq_true _ ▸ List.find?_eq_none.1 hfind s hs
    · next s hfind =>
      have hs := List.mem_of_find?_eq_some hfind
      have hstep := List.find?_some hfind
      have hmem : s ∈ p.pending :=
        List.mem_append_right _ (List.mem_append_right _ (List.mem_append_left _ hs))
      obtain ⟨r, -, -, hphase⟩ := h.inFlight.phase s hmem
      obtain ⟨tweak, j, dir, len, hrun⟩ :=
        runCrypt_eq { p with ops := removeOp s.seq p.ops } hphase hstep
      have hperm : p.pending.Perm
          (p.sdmmcRunning.toList ++ (s :: (removeOp s.seq p.ops ++ p.inbox))) := by
        rw [pending, hidle]
        exact ((removeOp_perm h.placed.ops_sorted hs).append_right p.inbox).append_left _
      have htold := (h.inFlight.perm (hperm.trans List.perm_middle)).crypt tweak j dir len
      refine ⟨_, hrun, ⟨h.next, htold.perm List.perm_middle.symm, ?_, ?_, ?_, ?_⟩, rfl, nofun,
        nofun, fun hno => ?_⟩
      · exact h.placed.sorted.sublist ((List.filter_sublist).append_right _)
      · intro t ht u hu
        rcases List.mem_append.1 ht with ht | ht
        · exact h.placed.ahead t (List.mem_append_left _ ht) u hu
        · rw [List.mem_singleton.1 ht]
          exact h.placed.before_inbox (List.mem_append_right _ (List.mem_append_right _ hs)) hu
      · exact fun t ht => (h.placed.sdmmc t ht).imp_right fun h => h.mono _
      · rintro _ ⟨⟩
        exact hstep
      · rw [hno.2 s hs] at hstep
        cases hstep

/-! ## 4. The pass -/

/-- Work is waiting, and no completion is pending that would advance it. -/
def Stalled (p : Pipeline) : Prop :=
  p.sdmmcRunning = none ∧ p.cryptRunning = none ∧ (p.ops ≠ [] ∨ p.inbox ≠ [])

/-- The flushes of the active set are about to be answered, and only flushes and transfers
behind a flush move up from the inbox. -/
def strands (p : Pipeline) : Bool :=
  p.sdmmcRunning.isNone && p.cryptRunning.isNone && p.ops.all (·.op.isFlush) &&
    p.inbox.head?.any (·.op.isFlush) &&
    (p.inbox.take PIPELINE_DEFER_THRESHOLD).all fun s => !s.op.isCryptStep

/-- A pass may start the operation. -/
def Runnable (p : Pipeline) (s : Operation) : Prop :=
  s.op.isSdmmcStep = true ∧ p.hasEarlierOverlap s = false ∨ s.op.isCryptStep = true

/-- With both channels idle, the earliest operation may start. -/
theorem runnable_head (hidle : p.sdmmcRunning = none ∧ p.cryptRunning = none)
    (hops : p.ops = s :: ops) (hsorted : p.ops.Pairwise (·.seq < ·.seq))
    (hflush : s.op.isFlush = false) : p.Runnable s := by
  have hgate : p.hasEarlierOverlap s = false := by
    refine List.any_eq_false.2 fun t ht hearlier => ?_
    have hlt : t.seq < s.seq := of_decide_eq_true (Bool.and_eq_true _ _ ▸ hearlier).1
    rw [hidle.1, hidle.2, Option.toList_none, List.append_nil, List.append_nil] at ht
    have ht := (List.mem_filter.1 ht).1
    rw [hops] at ht hsorted
    rcases List.mem_cons.1 ht with rfl | ht
    · exact Nat.lt_irrefl _ hlt
    · exact Nat.lt_asymm hlt ((List.pairwise_cons.1 hsorted).1 t ht)
  cases hop : s.op with
  | flush =>
    rw [hop] at hflush
    cases hflush
  | encReadCrypt => exact .inr (by rw [hop]; rfl)
  | encWriteCrypt => exact .inr (by rw [hop]; rfl)
  | _ => exact .inl ⟨by rw [hop]; rfl, hgate⟩

/-- Behind a flush, no transfer may start. -/
theorem Sound.blocked (h : Sound E requests base n flash p) (hops : p.ops = s :: ops)
    (hflush : s.op.isFlush = true) (ht : t ∈ p.ops) (hstep : t.op.isSdmmcStep = true) :
    p.hasEarlierOverlap t = true := by
  have hmem : ∀ u ∈ p.ops, u ∈ p.pending := fun u hu =>
    List.mem_append_right _ (List.mem_append_right _ (List.mem_append_left _ hu))
  have hs : s ∈ p.ops := hops ▸ .head _
  obtain ⟨r, -, hrange, hphase⟩ := h.inFlight.phase s (hmem s hs)
  obtain ⟨r', -, hrange', -⟩ := h.inFlight.phase t (hmem t ht)
  have hop : s.op = .flush := by
    cases hop : s.op with
    | flush => rfl
    | _ =>
      rw [hop] at hflush
      cases hflush
  have hlt : s.seq < t.seq := by
    rw [hops] at ht
    rcases List.mem_cons.1 ht with rfl | ht
    · rw [hop] at hstep
      cases hstep
    · exact (List.pairwise_cons.1 (hops ▸ h.placed.ops_sorted)).1 t ht
  refine List.any_eq_true.2 ⟨s, ?_, ?_⟩
  · refine List.mem_append_left _ (List.mem_append_left _ ?_)
    exact List.mem_filter.2 ⟨hs, decide_eq_true hlt⟩
  · rw [decide_eq_true hlt, hrange, hrange', Request.range_of_flush (hphase.of_flush hop),
      r'.full_overlaps]
    rfl

theorem drainFlushesLoop_idle (checked : Bool) :
    (drainFlushesLoop none checked log ops).1 = ops.dropWhile (·.op.isFlush) := by
  induction ops generalizing checked log with
  | nil => rfl
  | cons head rest ih =>
    rw [drainFlushesLoop, List.dropWhile_cons]
    by_cases hflush : head.op.isFlush = true
    · rw [if_neg (by rw [hflush]; nofun), if_pos hflush]
      exact ih true
    · rw [if_pos (Bool.not_eq_true _ ▸ hflush), if_neg hflush]

theorem drainFlushes_ops (hidle : p.sdmmcRunning = none ∧ p.cryptRunning = none) :
    p.drainFlushes.1.ops = p.ops.dropWhile (·.op.isFlush) := by
  rw [Pipeline.drainFlushes, hidle.1, hidle.2, if_neg nofun]
  exact drainFlushesLoop_idle false

theorem drainFlushes_rest (p : Pipeline) : p.drainFlushes.1.sdmmcRunning = p.sdmmcRunning ∧
    p.drainFlushes.1.cryptRunning = p.cryptRunning ∧ p.drainFlushes.1.inbox = p.inbox := by
  unfold Pipeline.drainFlushes
  split
  · exact ⟨rfl, rfl, rfl⟩
  · exact ⟨rfl, rfl, rfl⟩

theorem Placed.drainInbox (h : p.Placed) :
    p.drainInbox.ops =
        p.ops ++ p.inbox.take (PIPELINE_DEFER_THRESHOLD - (p.ops.length + p.running)) ∧
      p.drainInbox.inbox =
        p.inbox.drop (PIPELINE_DEFER_THRESHOLD - (p.ops.length + p.running)) := by
  unfold Pipeline.drainInbox
  rw [drainInboxLoop_eq _ h.sorted]
  exact ⟨rfl, rfl⟩

/-- With both channels idle, the schedulers find nothing to start exactly if the flushes
of the active set go and strand those of the inbox. -/
theorem Sound.not_runnable_iff (h : Sound E requests base n flash p)
    (hidle : p.sdmmcRunning = none ∧ p.cryptRunning = none) :
    ((p.drainFlushes.1.drainInbox.ops ≠ [] ∨ p.drainFlushes.1.drainInbox.inbox ≠ []) ∧
        ∀ s ∈ p.drainFlushes.1.drainInbox.ops, ¬ p.drainFlushes.1.drainInbox.Runnable s) ↔
      p.strands = true := by
  have hsound := h.drainFlushes.drainInbox
  obtain ⟨hops, hinbox⟩ := h.drainFlushes.placed.drainInbox
  obtain ⟨hsdmmc, hcrypt, hinbox'⟩ := drainFlushes_rest p
  have hidle' : p.drainFlushes.1.drainInbox.sdmmcRunning = none ∧
      p.drainFlushes.1.drainInbox.cryptRunning = none :=
    ⟨hsdmmc.trans hidle.1, hcrypt.trans hidle.2⟩
  have hrunning : p.drainFlushes.1.running = 0 := by
    rw [running, hsdmmc, hcrypt, hidle.1, hidle.2]
    rfl
  rw [hrunning, hinbox', drainFlushes_ops hidle] at hops hinbox
  generalize p.drainFlushes.1.drainInbox = q at *
  rw [strands, hidle.1, hidle.2]
  have hany := List.any_dropWhile (p := fun s : Operation => s.op.isFlush) (l := p.ops)
  cases hfirst : p.ops.dropWhile (·.op.isFlush) with
  | cons head rest =>
    have hhead := List.head?_dropWhile_not (fun s : Operation => s.op.isFlush) p.ops
    rw [hfirst] at hops hany hhead
    rw [List.any_cons, hhead, Bool.not_false, Bool.true_or] at hany
    rw [Bool.not_eq_eq_eq_not.1 hany.symm]
    refine ⟨fun hno => ?_, nofun⟩
    have hmem : head ∈ q.ops := hops ▸ .head _
    exact absurd (runnable_head hidle' hops hsound.placed.ops_sorted hhead) (hno.2 head hmem)
  | nil =>
    rw [hfirst] at hops hinbox hany
    rw [Bool.not_eq_eq_eq_not.1 hany.symm]
    rw [List.nil_append] at hops
    change q.ops = p.inbox.take PIPELINE_DEFER_THRESHOLD at hops
    change q.inbox = p.inbox.drop PIPELINE_DEFER_THRESHOLD at hinbox
    cases hin : p.inbox with
    | nil =>
      rw [hin, List.take_nil] at hops
      rw [hin, List.drop_nil] at hinbox
      exact ⟨fun hno => absurd hno.1 (not_or.2 ⟨not_not.2 hops, not_not.2 hinbox⟩), nofun⟩
    | cons head rest =>
      rw [hin] at hops
      rw [← hops, List.head?_cons, Option.any_some]
      have hhead : q.ops = head :: rest.take 7 := hops
      cases hflush : head.op.isFlush with
      | false =>
        refine ⟨fun hno => ?_, nofun⟩
        have hmem : head ∈ q.ops := hhead ▸ .head _
        have hrunnable := runnable_head hidle' hhead hsound.placed.ops_sorted hflush
        exact absurd hrunnable (hno.2 head hmem)
      | true =>
        have hblocked := fun t => hsound.blocked (t := t) hhead hflush
        show _ ↔ (q.ops.all fun s => !s.op.isCryptStep) = true
        rw [List.all_eq_true]
        refine ⟨fun hno s hs => ?_, fun hno => ⟨.inl (hhead ▸ nofun), ?_⟩⟩
        · exact Bool.not_eq_true' _ ▸ Bool.not_eq_true _ ▸ fun h => hno.2 s hs (.inr h)
        · rintro s hs (⟨hstep, hgate⟩ | hcrypt)
          · rw [hblocked s hs hstep] at hgate
            cases hgate
          · have := hno s hs
            rw [hcrypt] at this
            cases this

/-- A pass keeps the operations, and tells exactly when it leaves work behind. -/
theorem Sound.tryAdvance (h : Sound E requests base n flash p) :
    ∃ p', p.tryAdvance = some p' ∧ Sound E requests base n flash p' ∧
      (p'.Stalled ↔ p.strands = true) := by
  obtain ⟨p₁, hsdmmc, hsound₁, hsame₁, hidle₁⟩ := h.drainFlushes.drainInbox.scheduleSdmmc
  obtain ⟨p₂, hcrypt, hsound₂, hchannel, hsame₂, hidle₂⟩ := hsound₁.scheduleCrypt
  obtain ⟨hrest, hrest', -⟩ := drainFlushes_rest p
  have hstalled : p₂.Stalled ↔ p.strands = true := by
    constructor
    · rintro ⟨hnone, hnone', hwaiting⟩
      rw [hchannel] at hnone
      obtain ⟨hnone₁, hblocked⟩ := hidle₁.1 hnone
      obtain ⟨hnone₂, hnocrypt⟩ := hidle₂.1 hnone'
      rw [hsame₂ hnone', hsame₁ hnone] at hwaiting
      rw [hsame₁ hnone] at hnone₂ hnocrypt
      have hidle : p.sdmmcRunning = none ∧ p.cryptRunning = none :=
        ⟨hrest ▸ hnone₁, hrest' ▸ hnone₂⟩
      refine (h.not_runnable_iff hidle).1 ⟨hwaiting, fun s hs hrunnable => ?_⟩
      rcases hrunnable with ⟨hstep, hgate⟩ | hstep
      · rw [hblocked s hs hstep] at hgate
        cases hgate
      · rw [hnocrypt s hs] at hstep
        cases hstep
    · intro hstrands
      have hidle : p.sdmmcRunning = none ∧ p.cryptRunning = none := by
        simp only [strands, Bool.and_eq_true, Option.isNone_iff_eq_none] at hstrands
        exact hstrands.1.1.1
      obtain ⟨hwaiting, hno⟩ := (h.not_runnable_iff hidle).2 hstrands
      have hnone : p₁.sdmmcRunning = none := by
        refine hidle₁.2 ⟨hrest.trans hidle.1, fun s hs hstep => ?_⟩
        exact Bool.not_eq_false _ ▸ fun hgate => hno s hs (.inl ⟨hstep, hgate⟩)
      have hsame := hsame₁ hnone
      have hnone' : p₂.cryptRunning = none := by
        rw [hsame] at hidle₂
        refine hidle₂.2 ⟨hrest'.trans hidle.2, fun s hs => ?_⟩
        exact Bool.not_eq_true _ ▸ fun hstep => hno s hs (.inr hstep)
      refine ⟨hchannel.trans hnone, hnone', ?_⟩
      rw [hsame₂ hnone', hsame]
      exact hwaiting
  have hadvance : p.tryAdvance = if p₂.isIdle then
      some (p₂.record ((if p.drainFlushes.2 then [] else [.assertCardHealthy]) ++ [.idle]))
      else some p₂ := by
    unfold Pipeline.tryAdvance
    simp only [hsdmmc, hcrypt, Option.bind_eq_bind, Option.bind_some]
    rfl
  rw [hadvance]
  split
  · refine ⟨_, rfl, hsound₂.record fun e he => ?_, hstalled⟩
    rcases List.mem_append.1 he with he | he
    · split at he
      · cases he
      · rw [List.mem_singleton.1 he]
        rfl
    · rw [List.mem_singleton.1 he]
      rfl
  · exact ⟨p₂, rfl, hsound₂, hstalled⟩

end Pipeline

end Emmc
