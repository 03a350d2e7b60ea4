import KeyOS.Keycard.Server

/-!
# One backup in the pool

`Consistent` is the invariant of the pool. A request can break it in four ways: a scheme is set
while other shards are in the pool, a generation leaves the fingerprint of nothing or the
expectations of shards that it did not make, a shard of another scheme is pushed, and the first
shard that is loaded does not match what an earlier pool left behind. `Sound` says when a
request does none of this, and then, and only then, it is handled as it should be.
-/

namespace Keycard

open Exec

variable {X : Crates} {s s' : Server X}

/-! ## 1. The invariant -/

/-- The shard is of the backup that the expectations describe. -/
structure Server.Expects (s : Server X) (shard : X.Shard) : Prop where
  fingerprint : X.seedFingerprint shard = s.expectedSeedFingerprint
  timestamp : s.expectedTimestamp = some (X.timestamp shard)
  scheme : s.activeScheme = some (X.scheme shard)

structure Consistent (s : Server X) : Prop where
  distinct : (s.shards.map X.seedShamirShareIndex).Nodup
  expected : ∀ shard ∈ s.shards, s.Expects shard

/-- `s'` has a pool without shards, and no expectations that `s` did not have. -/
structure Emptied (s s' : Server X) : Prop where
  shards : s'.shards = []
  fingerprint : s'.expectedSeedFingerprint = zeroFingerprint
  timestamp : s'.expectedTimestamp = none
  scheme : s'.activeScheme = s.activeScheme

/-- What a request that fails leaves. -/
def Refused (request : Request X) (s s' : Server X) : Prop :=
  match request with
  | .generateShards _ => s' = s ∨ Emptied s s'
  | _ => s' = s

/-- What a request that succeeds may answer. -/
def Granted (request : Request X) (response : Response X) (s s' : Server X) : Prop :=
  match request, response with
  | .popShard, .shard shard =>
    ∀ accept, accept = true ∨ X.deviceId shard = s.currentDeviceId →
      pushShard shard accept s' = (.ok (), s)
  | .checkBackup, _ =>
    ∃ scheme, s.activeScheme = some scheme ∧ scheme.shareCount ≤ s.shards.length
  | .restoreMasterSeed, .restored restored =>
    ∃ scheme, s.activeScheme = some scheme ∧ scheme.threshold ≤ s.shards.length ∧
      ∀ shard ∈ s.shards, X.fingerprint restored.seed = X.seedFingerprint shard
  | _, _ => True

/-- A request is handled as it should be. -/
def Right (event : Event X) (s : Server X) : Prop :=
  match handle event s with
  | (.ok response, s') => Consistent s' ∧ Granted event.request response s s'
  | (.err _, s') => Refused event.request s s'
  | (.panic _, _) => True

/-! ## 2. The condition -/

/-- `PushShard` is refused. -/
def PushRefused (s : Server X) (shard : X.Shard) (acceptDifferentDeviceId : Bool) : Prop :=
  X.partOfMagicBackup shard = false ∨ X.seedFingerprint shard ≠ s.expectedSeedFingerprint ∨
    acceptDifferentDeviceId = false ∧ X.deviceId shard ≠ s.currentDeviceId ∨
    s.hasIndex (X.seedShamirShareIndex shard) = true ∨
    ∃ expected, s.expectedTimestamp = some expected ∧ X.timestamp shard ≠ expected

/-- The request does not mix backups. -/
def Sound (event : Event X) (s : Server X) : Prop :=
  match event.request with
  | .setShamirScheme scheme =>
    scheme.threshold = 0 ∨ scheme.shareCount < scheme.threshold ∨ s.shards = [] ∨
      s.activeScheme = some scheme
  | .generateShards _ =>
    ∀ timestamp, event.calls.now = some timestamp →
      match splitSeed event.calls s.scheme with
      | .error _ => s.started timestamp = s
      | .ok (seedFingerprint, seedShares) =>
        seedFingerprint = zeroFingerprint ∨ seedShares = []
  | .pushShard shard accept =>
    PushRefused s shard accept ∨ s.activeScheme = some (X.scheme shard)
  | .loadShardFromKeycard =>
    ∀ uid shard, readShard X event.calls = .ok (uid, shard) → s.shards = [] →
      (∀ scheme, s.activeScheme = some scheme → scheme = X.scheme shard) ∧
        ∀ expected, s.expectedTimestamp = some expected → expected = X.timestamp shard
  | _ => True

/-! ## 3. The pool -/

theorem consistent_of_empty (h : s.shards = []) : Consistent s :=
  ⟨by rw [h]; exact .nil, fun _ hs => (List.not_mem_nil (h ▸ hs)).elim⟩

theorem hasIndex_eq_false {index : Nat} :
    s.hasIndex index = false ↔ index ∉ s.shards.map X.seedShamirShareIndex := by
  unfold Server.hasIndex
  rw [List.any_eq_false, List.mem_map]
  constructor
  · rintro h ⟨shard, hs, rfl⟩
    exact h shard hs (beq_self_eq_true _)
  · exact fun h shard hs heq => h ⟨shard, hs, eq_of_beq heq⟩

/-- A shard that comes keeps the pool consistent if and only if it is an expected one. -/
theorem consistent_push_iff {shard : X.Shard} (h : Consistent s)
    (hindex : s.hasIndex (X.seedShamirShareIndex shard) = false) :
    Consistent { s with shards := s.shards ++ [shard] } ↔ s.Expects shard := by
  constructor
  · intro hpushed
    obtain ⟨hf, ht, hsch⟩ := hpushed.expected shard (by simp)
    exact ⟨hf, ht, hsch⟩
  · intro hshard
    refine ⟨?_, fun other hother => ?_⟩
    · show ((s.shards ++ [shard]).map X.seedShamirShareIndex).Nodup
      rw [List.map_append]
      refine List.Nodup.append h.distinct (List.nodup_singleton _) ?_
      rintro index hold hnew
      obtain rfl := List.mem_singleton.1 hnew
      exact hasIndex_eq_false.1 hindex hold
    · rcases List.mem_append.1 hother with hold | hnew
      · obtain ⟨hf, ht, hsch⟩ := h.expected other hold
        exact ⟨hf, ht, hsch⟩
      · obtain rfl := List.mem_singleton.1 hnew
        exact ⟨hshard.fingerprint, hshard.timestamp, hshard.scheme⟩

theorem Consistent.dropLast (h : Consistent s) :
    Consistent { s with shards := s.shards.dropLast } := by
  refine ⟨?_, fun shard hs => ?_⟩
  · exact h.distinct.sublist ((List.dropLast_sublist s.shards).map _)
  · obtain ⟨hf, ht, hsch⟩ := h.expected shard ((List.dropLast_sublist s.shards).subset hs)
    exact ⟨hf, ht, hsch⟩

theorem dropLast_append_getLast {shard : X.Shard} (h : s.shards.getLast? = some shard) :
    s.shards.dropLast ++ [shard] = s.shards :=
  List.dropLast_append_getLast? shard h

theorem put_back {shard : X.Shard} (h : s.shards.getLast? = some shard) :
    { s with shards := s.shards.dropLast ++ [shard] } = s := by
  rw [dropLast_append_getLast h]

/-- The last shard has an index that the others do not have. -/
theorem Consistent.hasIndex_last (h : Consistent s) {shard : X.Shard}
    (hlast : s.shards.getLast? = some shard) :
    Server.hasIndex { s with shards := s.shards.dropLast } (X.seedShamirShareIndex shard) =
      false := by
  rw [hasIndex_eq_false]
  have hdistinct := h.distinct
  rw [← dropLast_append_getLast hlast, List.map_append] at hdistinct
  intro hmem
  exact (List.nodup_append.1 hdistinct).2.2 _ hmem _ (List.mem_singleton.2 rfl) rfl

/-! ## 4. One request -/

theorem right_of_ok {event : Event X} {response : Response X}
    (h : handle event s = (.ok response, s')) :
    Right event s ↔ Consistent s' ∧ Granted event.request response s s' := by
  unfold Right
  rw [h]

theorem right_of_err {event : Event X} {e : KeycardError} (h : handle event s = (.err e, s')) :
    Right event s ↔ Refused event.request s s' := by
  unfold Right
  rw [h]

theorem setScheme_consistent_iff (h : Consistent s) {scheme : ShamirScheme} :
    Consistent { s with activeScheme := some scheme } ↔
      s.shards = [] ∨ s.activeScheme = some scheme := by
  constructor
  · intro hset
    cases hshards : s.shards with
    | nil => exact .inl rfl
    | cons shard rest =>
      have hmem : shard ∈ s.shards := hshards ▸ List.mem_cons_self
      have hscheme : some scheme = some (X.scheme shard) := (hset.expected shard hmem).scheme
      exact .inr ((h.expected shard hmem).scheme.trans hscheme.symm)
  · rintro (hempty | hscheme)
    · exact consistent_of_empty hempty
    · rw [← hscheme]
      exact h

theorem setShamirScheme_right_iff (h : Consistent s) (scheme : ShamirScheme) (calls : Calls) :
    Right ⟨.setShamirScheme scheme, calls⟩ s ↔ Sound ⟨.setShamirScheme scheme, calls⟩ s := by
  by_cases hinvalid : scheme.threshold = 0 ∨ scheme.shareCount < scheme.threshold
  · have hrun : setShamirScheme scheme s = (.err .invalidScheme, s) := if_pos hinvalid
    rw [right_of_err (Prog.bind_err _ hrun)]
    exact iff_of_true rfl (or_assoc.1 (.inl hinvalid))
  · have hrun : setShamirScheme scheme s = (.ok (), { s with activeScheme := some scheme }) :=
      if_neg hinvalid
    rw [right_of_ok (Prog.bind_ok _ hrun)]
    rw [not_or] at hinvalid
    show Consistent _ ∧ True ↔ _ ∨ _ ∨ _
    rw [and_true, setScheme_consistent_iff h, or_iff_right hinvalid.1, or_iff_right hinvalid.2]

/-- The shards of one generation differ in their index only, and are expected but for the
fingerprint. -/
theorem generated_consistent_iff (hX : X.Lawful) {timestamp : UInt32} {magic : Bool}
    {seedFingerprint : Bytes32} {seedShares : List Bytes} :
    Consistent { s.started timestamp with
        shards := seedShares.mapIdx
          (X.generated s.currentDeviceId seedFingerprint s.scheme timestamp magic) } ↔
      seedFingerprint = zeroFingerprint ∨ seedShares = [] := by
  constructor
  · intro h
    cases seedShares with
    | nil => exact .inr rfl
    | cons share rest =>
      have hfirst := (h.expected _ (by rw [List.mapIdx_cons]; exact List.mem_cons_self)).fingerprint
      rw [hX.seedFingerprint] at hfirst
      exact .inl hfirst
  · rintro (hzero | hempty)
    · refine ⟨?_, fun shard hshard => ?_⟩
      · have hindices : (seedShares.mapIdx
            (X.generated s.currentDeviceId seedFingerprint s.scheme timestamp magic)).map
            X.seedShamirShareIndex = List.range seedShares.length := by
          refine List.ext_getElem (by simp) fun i hi hi' => ?_
          simp only [List.getElem_map, List.getElem_mapIdx, List.getElem_range,
            hX.seedShamirShareIndex]
        show ((seedShares.mapIdx _).map X.seedShamirShareIndex).Nodup
        rw [hindices]
        exact List.nodup_range
      · obtain ⟨i, hi, rfl⟩ := List.mem_mapIdx.1 hshard
        exact ⟨(hX.seedFingerprint ..).trans hzero, congrArg some (hX.timestamp ..).symm,
          congrArg some (hX.scheme ..).symm⟩
    · rw [hempty]
      exact consistent_of_empty rfl

theorem generateShards_right_iff (hX : X.Lawful) (magic : Bool) (calls : Calls) :
    Right (X := X) ⟨.generateShards magic, calls⟩ s ↔ Sound ⟨.generateShards magic, calls⟩ s := by
  unfold Right Sound handle
  dsimp only
  rw [Prog.bind_run]
  unfold generateShards
  cases calls.now with
  | none => exact iff_of_true trivial nofun
  | some timestamp =>
    simp only [Option.some.injEq, forall_eq']
    cases splitSeed calls s.scheme with
    | error e =>
      -- the timestamp that is left is an expectation
      have hleft : ¬ Emptied s (s.started timestamp) := fun h => by cases h.timestamp
      exact or_iff_left hleft
    | ok generation =>
      show Consistent _ ∧ True ↔ _
      rw [and_true]
      exact generated_consistent_iff hX

theorem pushShard_refused {shard : X.Shard} {accept : Bool} (h : PushRefused s shard accept) :
    ∃ e, pushShard shard accept s = (.err e, s) := by
  unfold pushShard
  split
  next => exact ⟨_, rfl⟩
  next hmagic =>
    split
    next => exact ⟨_, rfl⟩
    next hfingerprint =>
      split
      next => exact ⟨_, rfl⟩
      next hdevice =>
        split
        next => exact ⟨_, rfl⟩
        next hindex =>
          obtain ⟨expected, hexpected, hne⟩ := (((h.resolve_left hmagic).resolve_left
            hfingerprint).resolve_left hdevice).resolve_left hindex
          rw [hexpected]
          exact ⟨_, if_pos hne⟩

theorem pushShard_accepted {shard : X.Shard} {accept : Bool} (h : ¬ PushRefused s shard accept) :
    pushShard shard accept s = (.ok (), { s with
      expectedTimestamp := some (X.timestamp shard)
      shards := s.shards ++ [shard] }) := by
  simp only [PushRefused, not_or] at h
  obtain ⟨hmagic, hfingerprint, hdevice, hindex, htimestamp⟩ := h
  unfold pushShard
  rw [if_neg hmagic, if_neg hfingerprint, if_neg hdevice, if_neg hindex]
  cases hexpected : s.expectedTimestamp with
  | none => rfl
  | some expected =>
    have heq : X.timestamp shard = expected :=
      not_not.1 fun hne => htimestamp ⟨expected, hexpected, hne⟩
    show (if X.timestamp shard ≠ expected then _ else _) = _
    rw [if_neg (not_not.2 heq), heq, ← hexpected]

theorem pushShard_right_iff (h : Consistent s) (shard : X.Shard) (accept : Bool) (calls : Calls) :
    Right ⟨.pushShard shard accept, calls⟩ s ↔ Sound ⟨.pushShard shard accept, calls⟩ s := by
  by_cases hrefused : PushRefused s shard accept
  · obtain ⟨e, he⟩ := pushShard_refused hrefused
    rw [right_of_err (Prog.bind_err _ he)]
    exact iff_of_true rfl (.inl hrefused)
  · rw [right_of_ok (Prog.bind_ok _ (pushShard_accepted hrefused))]
    show Consistent _ ∧ True ↔ PushRefused s shard accept ∨ _
    rw [and_true, or_iff_right hrefused]
    simp only [PushRefused, not_or, not_not, Bool.not_eq_true] at hrefused
    obtain ⟨-, hfingerprint, -, hindex, htimestamp⟩ := hrefused
    have hset : Consistent { s with expectedTimestamp := some (X.timestamp shard) } := by
      refine ⟨h.distinct, fun other hother => ?_⟩
      obtain ⟨hf, ht, hsch⟩ := h.expected other hother
      have heq : X.timestamp shard = X.timestamp other :=
        not_not.1 fun hne => htimestamp ⟨_, ht, hne⟩
      exact ⟨hf, congrArg some heq, hsch⟩
    refine (consistent_push_iff hset hindex).trans ⟨fun he => he.scheme, fun hscheme => ?_⟩
    exact ⟨hfingerprint, rfl, hscheme⟩

theorem popShard_right (h : Consistent s) (calls : Calls) :
    Right (X := X) ⟨.popShard, calls⟩ s := by
  cases hlast : s.shards.getLast? with
  | none =>
    have hrun : popShard s = (.err .noShardLeft, s) := by unfold popShard; rw [hlast]
    exact (right_of_err (Prog.bind_err _ hrun)).2 rfl
  | some shard =>
    by_cases hmagic : X.partOfMagicBackup shard = true
    · have hrun : popShard s = (.ok shard, { s with shards := s.shards.dropLast }) := by
        unfold popShard
        rw [hlast]
        exact if_pos hmagic
      have hhandle : handle ⟨.popShard, calls⟩ s =
          (.ok (.shard shard), { s with shards := s.shards.dropLast }) := Prog.bind_ok _ hrun
      refine (right_of_ok hhandle).2 ⟨h.dropLast, fun accept haccept => ?_⟩
      obtain ⟨hf, ht, -⟩ := h.expected shard (List.mem_of_getLast? hlast)
      rw [pushShard_accepted]
      · show (_, { s with expectedTimestamp := _, shards := s.shards.dropLast ++ [shard] }) = _
        rw [← ht, put_back hlast]
      · simp only [PushRefused, not_or, not_not]
        refine ⟨by simp [hmagic], hf, ?_, by simp [h.hasIndex_last hlast], ?_⟩
        · rintro ⟨hno, hother⟩
          exact haccept.elim (fun hyes => by rw [hno] at hyes; cases hyes) hother
        · rintro ⟨expected, hexpected, hne⟩
          have hexpected : s.expectedTimestamp = some expected := hexpected
          rw [ht] at hexpected
          exact hne (Option.some.inj hexpected)
    · have hrun : popShard s = (.err .notMagicBackupShard, s) := by
        unfold popShard
        rw [hlast]
        exact (if_neg hmagic).trans (by rw [put_back hlast])
      exact (right_of_err (Prog.bind_err _ hrun)).2 rfl

theorem storeShardToKeycard_right (h : Consistent s) (uid : Bytes) (calls : Calls) :
    Right (X := X) ⟨.storeShardToKeycard uid, calls⟩ s := by
  cases hlast : s.shards.getLast? with
  | none =>
    have hrun : storeShardToKeycard calls uid s = (.err .noShardLeft, s) := by
      unfold storeShardToKeycard
      rw [hlast]
    exact (right_of_err (Prog.bind_err _ hrun)).2 rfl
  | some shard =>
    cases hwrite : writeShardToKeycard calls shard uid with
    | ok =>
      have hrun : storeShardToKeycard calls uid s =
          (.ok (), { s with shards := s.shards.dropLast }) := by
        simp only [storeShardToKeycard, hlast, hwrite]
      exact (right_of_ok (Prog.bind_ok _ hrun)).2 ⟨h.dropLast, trivial⟩
    | error e =>
      have hrun : storeShardToKeycard calls uid s = (.err e, s) := by
        simp only [storeShardToKeycard, hlast, hwrite, put_back hlast]
      exact (right_of_err (Prog.bind_err _ hrun)).2 rfl

/-! ## 5. Loading -/

theorem or_eq_some_iff {α : Type} {x : Option α} {a : α} :
    x.or (some a) = some a ↔ ∀ b, x = some b → b = a := by
  cases x with
  | none => simp
  | some b => simp

theorem adopt_expects_iff {shard : X.Shard} :
    (s.adopt shard).Expects shard ↔
      (∀ scheme, s.activeScheme = some scheme → scheme = X.scheme shard) ∧
        ∀ expected, s.expectedTimestamp = some expected → expected = X.timestamp shard := by
  rw [← or_eq_some_iff, ← or_eq_some_iff]
  exact ⟨fun h => ⟨h.scheme, h.timestamp⟩, fun h => ⟨rfl, h.2, h.1⟩⟩

/-- With a shard in the pool, every expectation is compared. -/
theorem Consistent.expects_of_compare (h : Consistent s) (hpool : s.shards ≠ [])
    {shard : X.Shard} (hok : s.compare shard = .ok ()) : s.Expects shard := by
  obtain ⟨first, hfirst⟩ := List.exists_mem_of_ne_nil _ hpool
  obtain ⟨-, ht, hsch⟩ := h.expected first hfirst
  unfold Server.compare at hok
  rw [ht, hsch] at hok
  by_cases hfingerprint : s.expectedSeedFingerprint = X.seedFingerprint shard
  · by_cases hscheme : X.scheme first = X.scheme shard
    · by_cases htimestamp : X.timestamp shard = X.timestamp first
      · exact ⟨hfingerprint.symm, by rw [ht, htimestamp], by rw [hsch, hscheme]⟩
      · simp only [hfingerprint, hscheme, htimestamp, ne_eq, not_true_eq_false, not_false_eq_true,
          ↓reduceIte] at hok
        cases hok
    · simp only [hfingerprint, hscheme, ne_eq, not_true_eq_false, not_false_eq_true,
        ↓reduceIte] at hok
      cases hok
  · simp only [hfingerprint, ne_eq, not_false_eq_true, ↓reduceIte] at hok
    cases hok

theorem admitShard_known (uid : Bytes) {shard : X.Shard}
    (h : s.hasIndex (X.seedShamirShareIndex shard) = true) :
    admitShard uid shard s = (.err (.duplicateShardIndex (X.seedShamirShareIndex shard)), s) :=
  if_pos h

theorem admitShard_new (uid : Bytes) {shard : X.Shard}
    (h : s.hasIndex (X.seedShamirShareIndex shard) = false) :
    ∃ loaded, admitShard uid shard s = (.ok loaded, { s with shards := s.shards ++ [shard] }) :=
  ⟨_, if_neg (by rw [h]; exact Bool.false_ne_true)⟩

theorem loadShardFromKeycard_right_iff (h : Consistent s) (calls : Calls) :
    Right (X := X) ⟨.loadShardFromKeycard, calls⟩ s ↔ Sound ⟨.loadShardFromKeycard, calls⟩ s := by
  cases hread : readShard X calls with
  | error e =>
    have hrun : loadShardFromKeycard calls s = (.err e, s) := by
      simp only [loadShardFromKeycard, hread]
    refine iff_of_true ((right_of_err (Prog.bind_err _ hrun)).2 rfl) fun uid shard hok => ?_
    rw [hread] at hok
    cases hok
  | ok pair =>
    obtain ⟨uid, shard⟩ := pair
    have hsound : Sound ⟨.loadShardFromKeycard, calls⟩ s ↔
        (s.shards = [] → (s.adopt shard).Expects shard) := by
      rw [adopt_expects_iff]
      show (∀ _ _, readShard X calls = _ → _) ↔ _
      rw [hread]
      refine ⟨fun hall => hall uid shard rfl, ?_⟩
      rintro hall _ _ ⟨⟩
      exact hall
    rw [hsound]
    by_cases hpool : s.shards = []
    · have hindex : (s.adopt shard).hasIndex (X.seedShamirShareIndex shard) = false := by
        show s.shards.any _ = false
        rw [hpool]
        rfl
      obtain ⟨loaded, hadmit⟩ := admitShard_new uid hindex
      have hrun : loadShardFromKeycard calls s = admitShard uid shard (s.adopt shard) := by
        simp only [loadShardFromKeycard, hread, if_pos hpool]
      rw [right_of_ok (Prog.bind_ok _ (hrun.trans hadmit))]
      show Consistent _ ∧ True ↔ _
      rw [and_true, consistent_push_iff (consistent_of_empty (s := s.adopt shard) hpool) hindex]
      exact ⟨fun he _ => he, fun hall => hall hpool⟩
    · refine iff_of_true ?_ fun hempty => (hpool hempty).elim
      cases hcompare : s.compare shard with
      | error e =>
        have hrun : loadShardFromKeycard calls s = (.err e, s) := by
          simp only [loadShardFromKeycard, hread, if_neg hpool, hcompare]
        exact (right_of_err (Prog.bind_err _ hrun)).2 rfl
      | ok =>
        have hrun : loadShardFromKeycard calls s = admitShard uid shard s := by
          simp only [loadShardFromKeycard, hread, if_neg hpool, hcompare]
        cases hindex : s.hasIndex (X.seedShamirShareIndex shard) with
        | true =>
          exact (right_of_err (Prog.bind_err _ (hrun.trans (admitShard_known uid hindex)))).2 rfl
        | false =>
          obtain ⟨loaded, hadmit⟩ := admitShard_new uid hindex
          refine (right_of_ok (Prog.bind_ok _ (hrun.trans hadmit))).2 ⟨?_, trivial⟩
          exact (consistent_push_iff h hindex).2 (h.expects_of_compare hpool hcompare)

/-! ## 6. The seed -/

/-- A seed that is reconstructed has the expected fingerprint. -/
theorem reconstructSeed_spec (calls : Calls) :
    Prog.Triple (· = s) (reconstructSeed (X := X) calls)
      (fun restored s' => s' = s ∧ X.fingerprint restored.seed = s.expectedSeedFingerprint)
      (fun _ s' => s' = s) fun _ => True := by
  rintro s' rfl
  unfold reconstructSeed
  cases calls.recoverSecret (s'.shards.map X.seedShamirShareIndex)
      (s'.shards.map X.seedShamirShare) with
  | error e => rfl
  | ok recovered =>
    cases hseed : seedFromBytes recovered with
    | none => simp only [hseed]
    | some seed =>
      cases herror : calls.fingerprintError with
      | some e => simp only [hseed, Calls.fingerprint, herror]
      | none =>
        by_cases hfingerprint : X.fingerprint seed = s'.expectedSeedFingerprint
        · simp only [hseed, Calls.fingerprint, herror, hfingerprint, ne_eq, not_true_eq_false,
            ↓reduceIte]
          exact ⟨trivial, trivial⟩
        · simp only [hseed, Calls.fingerprint, herror, hfingerprint, ne_eq, not_false_eq_true,
            ↓reduceIte]

/-- A pool that has as many shards as the scheme asks for has been told its scheme. -/
theorem scheme_of_enough (f : ShamirScheme → Nat) (hdefault : 0 < f .DEFAULT)
    (h : Consistent s) (henough : f s.scheme ≤ s.shards.length) :
    ∃ scheme, s.activeScheme = some scheme ∧ f scheme ≤ s.shards.length := by
  cases hscheme : s.activeScheme with
  | some scheme =>
    rw [Server.scheme, hscheme] at henough
    exact ⟨scheme, rfl, henough⟩
  | none =>
    rw [Server.scheme, hscheme] at henough
    have hpool : 0 < s.shards.length := Nat.lt_of_lt_of_le hdefault henough
    obtain ⟨shard, hs⟩ := List.exists_mem_of_length_pos hpool
    have hsome := (h.expected shard hs).scheme
    rw [hscheme] at hsome
    cases hsome

theorem checkBackup_right (h : Consistent s) (calls : Calls) :
    Right (X := X) ⟨.checkBackup, calls⟩ s := by
  by_cases hfew : s.shards.length < s.scheme.shareCount
  · have hrun : checkBackup calls s = (.err .notEnoughShards, s) := if_pos hfew
    exact (right_of_err (Prog.bind_err _ hrun)).2 rfl
  · have hrun : checkBackup calls s = (reconstructSeed calls >>= fun _ => reset) s := if_neg hfew
    have hspec := reconstructSeed_spec (s := s) calls s rfl
    rcases heq : reconstructSeed calls s with ⟨o, s'⟩
    rw [heq] at hspec
    cases o with
    | ok restored =>
      have hreset := hrun.trans (Prog.bind_ok _ heq)
      refine (right_of_ok (Prog.bind_ok _ hreset)).2 ⟨consistent_of_empty rfl, ?_⟩
      exact scheme_of_enough ShamirScheme.shareCount (by decide) h (Nat.le_of_not_lt hfew)
    | err e => exact (right_of_err (Prog.bind_err _ (hrun.trans (Prog.bind_err _ heq)))).2 hspec
    | panic p =>
      have hpanic : handle ⟨.checkBackup, calls⟩ s = (.panic p, s') :=
        Prog.bind_panic _ (hrun.trans (Prog.bind_panic _ heq))
      unfold Right
      rw [hpanic]
      trivial

theorem restoreMasterSeed_right (h : Consistent s) (calls : Calls) :
    Right (X := X) ⟨.restoreMasterSeed, calls⟩ s := by
  by_cases hfew : s.shards.length < s.scheme.threshold
  · have hrun : restoreMasterSeed calls s = (.err .notEnoughShards, s) := if_pos hfew
    exact (right_of_err (Prog.bind_err _ hrun)).2 rfl
  · have hrun : restoreMasterSeed calls s = (reconstructSeed calls >>= fun masterSeedRestored =>
        reset >>= fun _ => pure masterSeedRestored) s := if_neg hfew
    have hspec := reconstructSeed_spec (s := s) calls s rfl
    rcases heq : reconstructSeed calls s with ⟨o, s'⟩
    rw [heq] at hspec
    cases o with
    | ok restored =>
      have hreset := hrun.trans (Prog.bind_ok _ heq)
      have hhandle : handle ⟨.restoreMasterSeed, calls⟩ s = (.ok (.restored restored), _) :=
        Prog.bind_ok _ hreset
      refine (right_of_ok hhandle).2 ⟨consistent_of_empty rfl, ?_⟩
      obtain ⟨scheme, hscheme, henough⟩ :=
        scheme_of_enough ShamirScheme.threshold (by decide) h (Nat.le_of_not_lt hfew)
      refine ⟨scheme, hscheme, henough, fun shard hs => ?_⟩
      exact hspec.2.trans (h.expected shard hs).fingerprint.symm
    | err e => exact (right_of_err (Prog.bind_err _ (hrun.trans (Prog.bind_err _ heq)))).2 hspec
    | panic p =>
      have hpanic : handle ⟨.restoreMasterSeed, calls⟩ s = (.panic p, s') :=
        Prog.bind_panic _ (hrun.trans (Prog.bind_panic _ heq))
      unfold Right
      rw [hpanic]
      trivial

/-! ## 7. Runs -/

/-- From a consistent pool, a request is handled as it should be if and only if it does not
mix backups. -/
theorem right_iff (hX : X.Lawful) (h : Consistent s) (event : Event X) :
    Right event s ↔ Sound event s := by
  obtain ⟨request, calls⟩ := event
  cases request with
  | resetShards => exact iff_of_true ⟨consistent_of_empty rfl, trivial⟩ trivial
  | setShamirScheme scheme => exact setShamirScheme_right_iff h scheme calls
  | generateShards magic => exact generateShards_right_iff hX magic calls
  | popShard => exact iff_of_true (popShard_right h calls) trivial
  | pushShard shard accept => exact pushShard_right_iff h shard accept calls
  | storeShardToKeycard uid => exact iff_of_true (storeShardToKeycard_right h uid calls) trivial
  | loadShardFromKeycard => exact loadShardFromKeycard_right_iff h calls
  | checkBackup => exact iff_of_true (checkBackup_right h calls) trivial
  | restoreMasterSeed => exact iff_of_true (restoreMasterSeed_right h calls) trivial

theorem refused_consistent {request : Request X} (h : Consistent s) (hs : Refused request s s') :
    Consistent s' := by
  cases request with
  | generateShards magic =>
    rcases hs with rfl | hs
    · exact h
    · exact consistent_of_empty hs.shards
  | _ =>
    obtain rfl := hs
    exact h

theorem handle_consistent (hX : X.Lawful) {event : Event X} (h : Consistent s)
    (hsound : Sound event s) (hs : Prog.after (handle event) s = .ok s') : Consistent s' := by
  have hright := (right_iff hX h event).2 hsound
  revert hright hs
  unfold Right Prog.after
  rcases handle event s with ⟨o, t⟩
  cases o with
  | ok response =>
    rintro ⟨⟩ hright
    exact hright.1
  | err e =>
    rintro ⟨⟩ hright
    exact refused_consistent h hright
  | panic p => nofun

/-- In every run whose requests do not mix backups the pool is one consistent backup, and the
next request is handled as it should be exactly if it does not mix backups either. -/
theorem run_consistent (hX : X.Lawful) {deviceId : Bytes32} {events : List (Event X)}
    (h : Prog.Steps handle Sound (Server.new deviceId) events s) :
    Consistent s ∧ ∀ event, Right event s ↔ Sound event s := by
  have hs : Consistent s :=
    h.keeps (fun _ _ _ hc hsound => handle_consistent hX hc hsound) (consistent_of_empty rfl)
  exact ⟨hs, right_iff hX hs⟩

/-! ## 8. Runs on given cards -/

structure Card where
  device : Bytes32
  fingerprint : Bytes32
  share : Bytes
  index : Nat
  magic : Bool
  scheme : ShamirScheme
  timestamp : UInt32
  mac : Bytes32

/-- A card of this device, as three bytes: its index, how many cards there are, and when they
were generated. -/
def cardOfBytes : Bytes → Option Card
  | [index, shareCount, timestamp] => some {
      device := zeroFingerprint
      fingerprint := fun _ => 1
      share := List.replicate 16 1
      index := index.toNat
      magic := true
      scheme := ⟨1, shareCount.toNat⟩
      timestamp := timestamp.toUInt32
      mac := zeroFingerprint }
  | _ => none

def cards : Crates where
  Shard := Card
  Record := Bytes
  deviceId := Card.device
  seedFingerprint := Card.fingerprint
  seedShamirShare := Card.share
  seedShamirShareIndex := Card.index
  partOfMagicBackup := Card.magic
  schemeThreshold card := card.scheme.threshold
  schemeShareCount card := card.scheme.shareCount
  timestamp := Card.timestamp
  hmac := Card.mac
  hmacInput _ uid := uid
  new device fingerprint share index magic :=
    ⟨device, fingerprint, share, index, magic, .DEFAULT, 0, zeroFingerprint⟩
  setSchemeThreshold card threshold := { card with scheme := { card.scheme with threshold } }
  setSchemeShareCount card shareCount := { card with scheme := { card.scheme with shareCount } }
  setTimestamp card timestamp := { card with timestamp }
  setHmac card mac := { card with mac }
  decode := cardOfBytes
  toVec card := some [card.index.toUInt8, card.scheme.shareCount.toUInt8, card.timestamp.toUInt8]
  records rawMsg := some [rawMsg]
  isTypeCbor _ := true
  payload := some
  fingerprint seed := fun _ => seed.bytes.headD 0

theorem cards_lawful : cards.Lawful :=
  ⟨fun _ _ _ _ _ _ _ => rfl, fun _ _ _ _ _ _ _ => rfl, fun _ _ _ _ _ _ _ => rfl,
    fun _ _ _ _ _ _ _ => rfl⟩

/-- Every call succeeds, and `card` is on the tag. A seed that one share restores is in each
share. -/
def answers (card : Bytes) : Calls where
  now := some 100
  seed := .ok (some (.twelve fun _ => 1))
  seedFingerprint := .ok fun _ => 1
  splitSecret secret shareCount _ := .ok (List.replicate shareCount secret)
  recoverSecret _ shares := .ok (shares.headD [])
  fingerprintError := none
  sha256 _ := .ok zeroFingerprint
  keycardAuthenticityMac _ := .ok zeroFingerprint
  readNdefRawMsg := .ok ([7], card)
  writeNdefRawMsg _ _ := .ok ()

def load (card : Bytes) : Event cards := ⟨.loadShardFromKeycard, answers card⟩

def fresh : Server cards := .new zeroFingerprint

/-- Both cards of a backup, and the seed. -/
theorem run_consistent_twoCards :
    ∃ s : Server cards, s.shards.length = 2 ∧ Consistent s ∧
      Right ⟨.restoreMasterSeed, answers []⟩ s := by
  have hfirst : Sound (load [0, 2, 50]) fresh := fun _ _ _ _ => ⟨nofun, nofun⟩
  have hrun : Prog.Steps handle Sound fresh [load [0, 2, 50], load [1, 2, 50]] _ :=
    .cons hfirst rfl (.cons (fun _ _ _ hempty => by cases hempty) rfl (.nil _))
  obtain ⟨hc, hright⟩ := run_consistent cards_lawful hrun
  exact ⟨_, rfl, hc, (hright _).2 trivial⟩

/-- The pool after the requests is not one backup. -/
def Mixes (events : List (Event cards)) : Prop :=
  ∃ s, Prog.run handle events fresh = .ok s ∧ ¬ Consistent s

/-- A shard that was just generated and popped cannot be pushed back; a generation that fails
leaves an expectation; a scheme is set over the shards that were loaded; and an emptied pool
takes a card of a backup that it does not expect. -/
theorem pool_is_mixed :
    (∃ s s' shard, Prog.run handle [⟨.setShamirScheme ⟨1, 2⟩, answers []⟩,
        ⟨.generateShards true, answers []⟩] fresh = .ok s ∧ popShard s = (.ok shard, s') ∧
        ∀ accept, (pushShard shard accept s').1 = .err .differentSeedFingerprint) ∧
      ¬ Right ⟨.generateShards true, { answers [] with seed := .error .accessDenied }⟩ fresh ∧
      Mixes [load [0, 2, 50], ⟨.setShamirScheme ⟨1, 1⟩, answers []⟩] ∧
      Mixes [load [0, 2, 50], ⟨.popShard, answers []⟩, load [0, 2, 60]] := by
  refine ⟨⟨_, _, _, rfl, rfl, fun accept => by cases accept <;> decide⟩, ?_, ?_, ?_⟩
  · rw [right_iff cards_lawful (consistent_of_empty rfl)]
    intro hsound
    have hleft : fresh.started 100 = fresh := hsound 100 rfl
    cases congrArg Server.expectedTimestamp hleft
  · refine ⟨_, rfl, fun hc => ?_⟩
    exact absurd (hc.expected _ List.mem_cons_self).scheme (by decide)
  · refine ⟨_, rfl, fun hc => ?_⟩
    exact absurd (hc.expected _ List.mem_cons_self).timestamp (by decide)

end Keycard
