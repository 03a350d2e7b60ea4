import KeyOS.Crypto.Calls
import KeyOS.Crypto.Streaming

/-!
# A call on a streaming context

What a method asks of the server, when the server answers as if the context were alone. Whatever has
failed before, each request names the id that the context holds and each buffer holds whole blocks;
and if nothing has failed, the bytes that are hashed and those that wait are the bytes that were
fed.
-/

namespace Crypto

open BlockModes

/-! ## 1. What holds of a context -/

/-- The shape of a context that holds `id`, under which the server has `entry`, unless it has lost
it; whatever has failed. -/
structure Fit (algo : ShaAlgo) (id : Option UInt32) (entry : Option ShaContext)
    (ctx : ShaStreamingContext) : Prop where
  algo_eq : ctx.algo = algo
  entry_algo : ∀ context, entry = some context → context.algo = algo
  serverId : ctx.serverId = id
  authoritative : ctx.serverAuthoritative = true → id ≠ none
  accumulator : ctx.accumulator.length < swThreshold
  scratch : ∀ mem, ctx.scratch = some mem → mem.length = scratchCap

/-- The blocks of `done` have been hashed, and the state is where it should be. -/
structure Hashed (C : Compression) (done : Bytes) (ctx : ShaStreamingContext)
    (entry : Option ShaContext) : Prop where
  whole : ctx.algo.blockSize ∣ done.length
  count : ctx.bytesCompressed = UInt64.ofNat done.length
  client : ctx.serverAuthoritative = false → ctx.hashState = ctx.algo.chain C done
  server : ctx.serverAuthoritative = true →
    ∀ context, entry = some context → context.hashState = ctx.algo.chain C done

/-- The bytes hashed and the bytes that wait are `fed`. -/
def Tracks (C : Compression) (fed : Bytes) (self : ShaStreamingContext)
    (entry : Option ShaContext) : Prop :=
  ∃ done, done ++ self.accumulator = fed ∧ Hashed C done self entry

/-- The bytes fed before a call and after it, if nothing has failed. -/
structure Feed where
  good : Prop
  before : Bytes
  fed : Bytes

/-- All that was fed before the call, and nothing that is not fed to it. -/
structure Feed.Between (F : Feed) (low high : Bytes) : Prop where
  before : F.before <+: low
  fed : high <+: F.fed

/-- In the middle of a call, the bytes hashed, those that are lent and those that wait are the bytes
fed before and a beginning of those that are fed now. -/
def Flows (C : Compression) (F : Feed) (lent : Bytes) (self : ShaStreamingContext)
    (entry : Option ShaContext) : Prop :=
  F.good → ∃ done, Hashed C done self entry ∧
    F.Between (done ++ lent ++ self.accumulator) (done ++ lent ++ self.accumulator)

/-- A `ShaUpdate` covers whole blocks, at least one, of the buffer that is lent. -/
structure InRange (algo : ShaAlgo) (buf : Bytes) (length : UInt32) : Prop where
  positive : 0 < length.toNat
  inside : length.toNat ≤ buf.length
  whole : algo.blockSize ∣ length.toNat

/-- What the server has under an id that it answers to a `ShaSetContext`. -/
def ShaSetContext.Answered (msg : ShaSetContext) (entry : Option ShaContext) (id : UInt32)
    (next : Option ShaContext) : Prop :=
  (msg.contextId = none ∧ next = some ⟨msg.algo, msg.hashState⟩) ∨
  (msg.contextId = some id ∧ ∃ context, entry = some context ∧
    next = some { context with hashState := msg.hashState })

/-- The requests of a call in its context, and how it ends, when its entry changes by its own
requests only. -/
def ShaCall.Safe (C : Compression) (algo : ShaAlgo) (F : Feed)
    (Q : ShaStreamingContext → Bytes → Option ShaContext → Prop) :
    ShaCall → Option UInt32 → Option ShaContext → Prop
  | .returned self (.ok value), id, entry => Fit algo id entry self ∧ Q self value entry
  | .returned self (.error _), id, entry => Fit algo id entry self
  | .panicked _, _, _ => False
  | .setContext self msg next, id, entry =>
    Fit algo id entry self ∧ Flows C F [] self entry ∧ msg.contextId = id ∧
      ∀ newId newEntry, msg.Answered entry newId newEntry →
        (next newId).Safe C algo F Q (some newId) newEntry
  | .update self contextId buf length next, id, entry =>
    Fit algo id entry self ∧ Flows C F (buf.take length.toNat) self entry ∧
      id = some contextId ∧ InRange algo buf length ∧
      ∀ context, entry = some context →
        next.Safe C algo F Q id (some { context with
          hashState := swCompressBlocks C context.hashState context.algo
            (buf.take length.toNat) })
  | .getContext self contextId next, id, entry =>
    Fit algo id entry self ∧ Flows C F [] self entry ∧ id = some contextId ∧
      ∀ context, entry = some context → (next context).Safe C algo F Q id entry
  | .mapMemory self size next, id, entry =>
    Fit algo id entry self ∧ Flows C F [] self entry ∧
      ∀ mem : Bytes, mem.length = size → (next mem).Safe C algo F Q id entry

section Contexts

variable {C : Compression} {done fed more : Bytes} {self : ShaStreamingContext}
  {algo : ShaAlgo} {F : Feed} {id : Option UInt32} {entry : Option ShaContext}
  {Q : ShaStreamingContext → Bytes → Option ShaContext → Prop}

theorem Hashed.lose (h : Hashed C done self entry) : Hashed C done self none :=
  ⟨h.whole, h.count, h.client, by simp⟩

theorem Fit.lose (h : Fit algo id entry self) : Fit algo id none self :=
  ⟨h.algo_eq, by simp, h.serverId, h.authoritative, h.accumulator, h.scratch⟩

theorem Tracks.lose (h : Tracks C fed self entry) : Tracks C fed self none := by
  obtain ⟨done, hfed, hdone⟩ := h
  exact ⟨done, hfed, hdone.lose⟩

theorem Flows.lose {lent : Bytes} (h : Flows C F lent self entry) :
    Flows C F lent self none := by
  intro hgood
  obtain ⟨done, hdone, hbytes⟩ := h hgood
  exact ⟨done, hdone.lose, hbytes⟩

theorem Feed.Between.within {low high low' high' : Bytes} (h : F.Between low high)
    (hlow : low <+: low') (hhigh : high' <+: high) : F.Between low' high' :=
  ⟨h.before.trans hlow, hhigh.trans h.fed⟩

theorem prefix_more {waiting : Bytes} (more : Bytes) :
    done ++ waiting <+: done ++ (waiting ++ more) :=
  (List.prefix_append_right_inj _).2 (List.prefix_append _ _)

theorem prefix_take {waiting data : Bytes} (n : Nat) :
    done ++ (waiting ++ data.take n) <+: done ++ (waiting ++ data) :=
  (List.prefix_append_right_inj _).2 ((List.prefix_append_right_inj _).2 (List.take_prefix n data))

theorem Hashed.flows (hdone : F.good → Hashed C done self entry)
    (hfed : F.good → F.Between (done ++ self.accumulator) (done ++ self.accumulator)) :
    Flows C F [] self entry := by
  intro hgood
  refine ⟨done, hdone hgood, ?_⟩
  rw [List.append_nil]
  exact hfed hgood

/-- A call that is safe with its entry is safe without it. -/
theorem ShaCall.Safe.lose (hQ : ∀ self value entry, Q self value entry → Q self value none)
    {call : ShaCall} (h : call.Safe C algo F Q id entry) : call.Safe C algo F Q id none := by
  induction call generalizing id with
  | returned self result =>
    cases result with
    | error e => exact Fit.lose h
    | ok value => exact ⟨h.1.lose, hQ _ _ _ h.2⟩
  | panicked self => exact h
  | setContext self msg next =>
    obtain ⟨hfit, hflows, hid, hnext⟩ := h
    refine ⟨hfit.lose, hflows.lose, hid, fun newId newEntry hanswered => ?_⟩
    rcases hanswered with ⟨hnone, hnew⟩ | ⟨_, context, hcontext, _⟩
    · exact hnext newId newEntry (.inl ⟨hnone, hnew⟩)
    · cases hcontext
  | update self contextId buf length next =>
    exact ⟨h.1.lose, h.2.1.lose, h.2.2.1, h.2.2.2.1, by simp⟩
  | getContext self contextId next => exact ⟨h.1.lose, h.2.1.lose, h.2.2.1, by simp⟩
  | mapMemory self size next ih =>
    exact ⟨h.1.lose, h.2.1.lose, fun mem hmem => ih mem (h.2.2 mem hmem)⟩

/-- Whole blocks are hashed in software. -/
theorem Hashed.compress {blocks : Bytes} (h : Hashed C done self entry)
    (hsw : self.serverAuthoritative = false) (hblocks : self.algo.blockSize ∣ blocks.length)
    (rest : Bytes) :
    Hashed C (done ++ blocks)
      { self with
        hashState := swCompressBlocks C self.hashState self.algo blocks
        accumulator := rest
        bytesCompressed := self.bytesCompressed + UInt64.ofNat blocks.length } entry where
  whole := by
    rw [List.length_append]
    exact Nat.dvd_add h.whole hblocks
  count := by
    rw [h.count, List.length_append, UInt64.ofNat_add]
  client := fun _ => by
    rw [h.client hsw, swCompressBlocks_chain h.whole hblocks]
  server := fun htrue => by
    rw [hsw] at htrue
    cases htrue

theorem Hashed.keep (h : Hashed C done self entry) (waiting : Bytes) (mem : Option Bytes) :
    Hashed C done { self with accumulator := waiting, scratch := mem } entry :=
  ⟨h.whole, h.count, h.client, h.server⟩

theorem Fit.keep {waiting : Bytes} (h : Fit algo id entry self)
    (hshort : waiting.length < swThreshold) :
    Fit algo id entry { self with accumulator := waiting } :=
  ⟨h.algo_eq, h.entry_algo, h.serverId, h.authoritative, hshort, h.scratch⟩

/-- Whole blocks are hashed by the server. -/
theorem Hashed.lent {blocks : Bytes} {context : ShaContext} (h : Hashed C done self entry)
    (hfit : Fit algo id entry self) (hhw : self.serverAuthoritative = true)
    (hcontext : entry = some context) (hblocks : self.algo.blockSize ∣ blocks.length) :
    Hashed C (done ++ blocks)
      { self with bytesCompressed := self.bytesCompressed + UInt64.ofNat blocks.length }
      (some { context with
        hashState := swCompressBlocks C context.hashState context.algo blocks }) where
  whole := by
    rw [List.length_append]
    exact Nat.dvd_add h.whole hblocks
  count := by
    rw [h.count, List.length_append, UInt64.ofNat_add]
  client := fun hfalse => by
    rw [hhw] at hfalse
    cases hfalse
  server := fun _ next hnext => by
    cases hnext
    rw [h.server hhw context hcontext, hfit.entry_algo context hcontext, ← hfit.algo_eq,
      swCompressBlocks_chain h.whole hblocks]

theorem shaInit_fit (algo : ShaAlgo) : Fit algo none none (ShaClient.shaInit algo) where
  algo_eq := rfl
  entry_algo := by simp
  serverId := rfl
  authoritative := by simp [ShaClient.shaInit]
  accumulator := by simp [ShaClient.shaInit, swThreshold]
  scratch := by simp [ShaClient.shaInit]

theorem shaInit_tracks (algo : ShaAlgo) : Tracks C [] (ShaClient.shaInit algo) none := by
  refine ⟨[], rfl, ?_⟩
  exact {
    whole := Nat.dvd_zero _
    count := rfl
    client := fun _ => initialHashState_eq
    server := by simp [ShaClient.shaInit] }

end Contexts

/-! ## 2. Taking the state over and back -/

namespace ShaClient

section Methods

variable {C : Compression} {Q : ShaStreamingContext → Bytes → Option ShaContext → Prop}
  {F : Feed} {good : Prop} {done fed data remaining : Bytes} {self : ShaStreamingContext}
  {algo : ShaAlgo} {id : Option UInt32}
  {entry : Option ShaContext} {k : ShaStreamingContext → Unit → ShaCall}

theorem push_safe (hfit : Fit algo id entry self) (hdone : F.good → Hashed C done self entry)
    (hfed : F.good → F.Between (done ++ self.accumulator) (done ++ self.accumulator))
    (hk : ∀ newId newEntry,
      Fit algo (some newId) newEntry
        { self with serverId := some newId, serverAuthoritative := true } →
      (F.good → Hashed C done
        { self with serverId := some newId, serverAuthoritative := true } newEntry) →
      (k { self with serverId := some newId, serverAuthoritative := true } ()).Safe C algo F Q
        (some newId) newEntry) :
    (pushStateToServer self k).Safe C algo F Q id entry := by
  show ShaCall.Safe C algo F Q ((if self.serverAuthoritative then _ else _ : ShaClient Unit) self k)
    id entry
  obtain ⟨ctxAlgo, accumulator, bytesCompressed, hashState, serverId, serverAuthoritative,
    scratch⟩ := self
  obtain rfl : serverId = id := hfit.serverId
  cases serverAuthoritative with
  | true =>
    obtain ⟨i, rfl⟩ := Option.ne_none_iff_exists'.1 (hfit.authoritative rfl)
    exact hk i entry hfit hdone
  | false =>
    refine ⟨hfit, Hashed.flows hdone hfed, rfl, fun newId newEntry hanswered =>
      hk newId newEntry ?_ fun hgood => ?_⟩
    · refine ⟨hfit.algo_eq, fun context hcontext => ?_, rfl, fun _ => Option.some_ne_none newId,
        hfit.accumulator, hfit.scratch⟩
      rcases hanswered with ⟨-, rfl⟩ | ⟨-, old, hold, rfl⟩
      · cases hcontext
        exact hfit.algo_eq
      · cases hcontext
        exact hfit.entry_algo old hold
    · obtain ⟨hwhole, hcount, hclient, -⟩ := hdone hgood
      have hchain : hashState = ctxAlgo.chain C done := hclient rfl
      refine ⟨hwhole, hcount, fun hfalse => (by cases hfalse), fun _ context hcontext => ?_⟩
      rcases hanswered with ⟨-, rfl⟩ | ⟨-, old, hold, rfl⟩
      · cases hcontext
        exact hchain
      · cases hcontext
        exact hchain

theorem fetch_safe {α : Type} {f : ShaStreamingContext → α → ShaCall} {g : Unit → ShaClient α}
    (hfit : Fit algo id entry self) (hdone : F.good → Hashed C done self entry)
    (hfed : F.good → F.Between (done ++ self.accumulator) (done ++ self.accumulator))
    (hk : ∀ hashState,
      Fit algo id entry { self with hashState := hashState, serverAuthoritative := false } →
      (F.good → Hashed C done
        { self with hashState := hashState, serverAuthoritative := false } entry) →
      (g () { self with hashState := hashState, serverAuthoritative := false } f).Safe C algo F Q id
        entry) :
    ((fetchServerState >>= g) self f).Safe C algo F Q id entry := by
  show ShaCall.Safe C algo F Q ((if self.serverAuthoritative then _ else _ : ShaClient Unit) self
    fun self u => g u self f) id entry
  obtain ⟨ctxAlgo, accumulator, bytesCompressed, hashState, serverId, serverAuthoritative,
    scratch⟩ := self
  obtain rfl : serverId = id := hfit.serverId
  cases serverAuthoritative with
  | false => exact hk hashState hfit hdone
  | true =>
    obtain ⟨i, rfl⟩ := Option.ne_none_iff_exists'.1 (hfit.authoritative rfl)
    refine ⟨hfit, Hashed.flows hdone hfed, rfl, fun context hcontext =>
      hk context.hashState ?_ fun hgood => ?_⟩
    · exact ⟨hfit.algo_eq, hfit.entry_algo, rfl, fun hfalse => (by cases hfalse), hfit.accumulator,
        hfit.scratch⟩
    · obtain ⟨hwhole, hcount, -, hserver⟩ := hdone hgood
      exact ⟨hwhole, hcount, fun _ => hserver rfl context hcontext,
        fun hfalse => (by cases hfalse)⟩

/-- What a method does with the bytes that wait and the bytes that it is given. -/
theorem updateSw_safe (hfit : Fit algo id entry self) (hdone : F.good → Hashed C done self entry)
    (hfed : F.good → F.Between (done ++ self.accumulator) (done ++ (self.accumulator ++ data)))
    (hshort : (self.accumulator ++ data).length < swThreshold)
    (hk : ∀ self' more, Fit algo id entry self' →
      more ++ self'.accumulator = self.accumulator ++ data →
      (F.good → Hashed C (done ++ more) self' entry) → (k self' ()).Safe C algo F Q id entry) :
    (updateSw C data self k).Safe C algo F Q id entry := by
  obtain ⟨blocksEnd, hend⟩ : ∃ n, (self.accumulator ++ data).length / self.algo.blockSize *
    self.algo.blockSize = n := ⟨_, rfl⟩
  have hle : blocksEnd ≤ (self.accumulator ++ data).length := hend ▸ Nat.div_mul_le_self _ _
  have hlength : ((self.accumulator ++ data).take blocksEnd).length = blocksEnd :=
    List.length_take_of_le hle
  show ShaCall.Safe C algo F Q ((if 0 < (self.accumulator ++ data).length / self.algo.blockSize
    then _ else _ : ShaClient Unit) { self with accumulator := self.accumulator ++ data } k) id entry
  split
  · refine @fetch_safe C Q F done _ algo id entry _ _ _ (hfit.keep hshort)
      (fun hgood => (hdone hgood).keep _ _)
      (fun hgood => (hfed hgood).within (prefix_more _) (List.prefix_refl _))
      fun hashState hfetched hhashed => ?_
    show ShaCall.Safe C algo F Q (k { self with
      hashState := swCompressBlocks C hashState self.algo
        ((self.accumulator ++ data).take
          ((self.accumulator ++ data).length / self.algo.blockSize * self.algo.blockSize))
      accumulator := (self.accumulator ++ data).drop
        ((self.accumulator ++ data).length / self.algo.blockSize * self.algo.blockSize)
      bytesCompressed := self.bytesCompressed + UInt64.ofNat
        ((self.accumulator ++ data).length / self.algo.blockSize * self.algo.blockSize)
      serverAuthoritative := false } ()) id entry
    rw [hend]
    refine hk _ ((self.accumulator ++ data).take blocksEnd)
      ⟨hfetched.algo_eq, hfetched.entry_algo, hfetched.serverId, hfetched.authoritative, ?_,
        hfetched.scratch⟩
      (List.take_append_drop blocksEnd _) fun hgood => ?_
    · show ((self.accumulator ++ data).drop blocksEnd).length < swThreshold
      rw [List.length_drop]
      omega
    · have hcompressed := (hhashed hgood).compress rfl
        (hlength.symm ▸ hend ▸ Nat.dvd_mul_left self.algo.blockSize _)
        ((self.accumulator ++ data).drop blocksEnd)
      rwa [hlength] at hcompressed
  · refine hk _ [] (hfit.keep hshort) rfl fun hgood => ?_
    rw [List.append_nil]
    exact (hdone hgood).keep _ _

/-! ## 3. The peripheral -/

/-- A buffer is lent whose first `len` bytes are whole blocks. -/
theorem shaUpdate_safe {buf : Bytes} {len : Nat} {i : UInt32}
    (hfit : Fit algo (some i) entry self)
    (hhw : self.serverAuthoritative = true) (hpos : 0 < len) (hle : len ≤ buf.length)
    (hsize : len < 2 ^ 32) (hwhole : self.algo.blockSize ∣ len)
    (hdone : F.good → Hashed C done self entry)
    (hfed : F.good → F.Between (done ++ buf.take len ++ self.accumulator)
      (done ++ buf.take len ++ self.accumulator))
    (hk : ∀ newEntry,
      Fit algo (some i) newEntry
        { self with bytesCompressed := self.bytesCompressed + UInt64.ofNat len } →
      (F.good → Hashed C (done ++ buf.take len)
        { self with bytesCompressed := self.bytesCompressed + UInt64.ofNat len } newEntry) →
      (k { self with bytesCompressed := self.bytesCompressed + UInt64.ofNat len } ()).Safe C algo
        F Q (some i) newEntry) :
    (shaUpdate buf len self k).Safe C algo F Q (some i) entry := by
  have hlen : (UInt32.ofNat len).toNat = len := UInt32.toNat_ofNat_of_lt' hsize
  have htake : (buf.take len).length = len := List.length_take_of_le hle
  show ShaCall.Safe C algo F Q ((unwrap self.serverId : ShaClient UInt32) self _) (some i) entry
  rw [hfit.serverId]
  have hflows : Flows C F (buf.take (UInt32.ofNat len).toNat) self entry := by
    rw [hlen]
    exact fun hgood => ⟨done, hdone hgood, hfed hgood⟩
  refine ⟨hfit, hflows, rfl, ⟨by rwa [hlen], by rwa [hlen], by rwa [hlen, ← hfit.algo_eq]⟩,
    fun context hcontext => ?_⟩
  rw [hlen]
  refine hk _ ⟨hfit.algo_eq, fun next hnext => ?_, hfit.serverId, hfit.authoritative,
    hfit.accumulator, hfit.scratch⟩ fun hgood => ?_
  · cases hnext
    exact hfit.entry_algo context hcontext
  · have hlent := (hdone hgood).lent hfit hhw hcontext (htake.symm ▸ hwhole)
    rwa [htake] at hlent

section Scratch

variable {mem : Bytes} {offset len : Nat}

theorem writeScratch_eq (hmem : self.scratch = some mem) (hle : offset + data.length ≤ mem.length) :
    writeScratch offset data self k =
      k { self with scratch := some (patch mem offset data) } () := by
  show (unwrap self.scratch : ShaClient Bytes) self _ = _
  rw [hmem]
  show (if offset + data.length ≤ mem.length then _ else _) = _
  rw [if_pos hle]
  rfl

theorem lendScratch_eq (hmem : self.scratch = some mem)
    (hpages : (len + (pageSize - 1)) / pageSize * pageSize ≤ mem.length)
    (hpos : 0 < (len + (pageSize - 1)) / pageSize * pageSize) :
    lendScratch len self k =
      shaUpdate (mem.take ((len + (pageSize - 1)) / pageSize * pageSize)) len self k := by
  show (unwrap self.scratch : ShaClient Bytes) self _ = _
  rw [hmem]
  show (if _ ∧ _ then _ else _) = _
  rw [if_pos ⟨hpages, hpos⟩]

end Scratch

/-- How much a round of the loop sends, with `acc` bytes that wait and `rem` that are left: the
first round has at least a page, so that the bytes that wait are among those it sends. -/
theorem sendLen_spec {bs acc rem sent : Nat} (hbs : bs = 64 ∨ bs = 128) (hacc : acc < swThreshold)
    (hfirst : acc = 0 ∨ swThreshold ≤ acc + rem) (hmore : bs ≤ acc + rem)
    (hsent : (acc + min (scratchCap - acc) rem) / bs * bs = sent) :
    0 < sent ∧ bs ∣ sent ∧ acc ≤ sent ∧ sent - acc ≤ rem ∧ sent ≤ scratchCap := by
  have hdvd : bs ∣ sent := hsent ▸ Nat.dvd_mul_left bs _
  unfold swThreshold at hacc hfirst
  unfold scratchCap at hsent ⊢
  rcases hbs with rfl | rfl <;> refine ⟨?_, hdvd, ?_, ?_, ?_⟩ <;> omega

/-- The pages that hold some bytes of the scratch memory are in it. -/
theorem pages_spec {sent : Nat} (hpos : 0 < sent) (hle : sent ≤ scratchCap) :
    sent ≤ (sent + (pageSize - 1)) / pageSize * pageSize ∧
      (sent + (pageSize - 1)) / pageSize * pageSize ≤ scratchCap ∧
      0 < (sent + (pageSize - 1)) / pageSize * pageSize := by
  unfold scratchCap at hle ⊢
  unfold pageSize
  omega

theorem blockSize_cases (algo : ShaAlgo) : algo.blockSize = 64 ∨ algo.blockSize = 128 := by
  cases algo <;> simp [ShaAlgo.blockSize]

/-- The bytes that a round has put into the scratch memory, one part behind the other. -/
theorem take_scratch {mem a b : Bytes} {len : Nat} (hlen : (a ++ b).length = len)
    (hle : len ≤ mem.length) :
    (patch (patch mem 0 a) a.length b).length = mem.length ∧
      (patch (patch mem 0 a) a.length b).take len = a ++ b := by
  have ha : 0 + a.length ≤ mem.length := by
    rw [List.length_append] at hlen
    omega
  have hboth : 0 + (a ++ b).length ≤ mem.length := by omega
  have hpatch : patch (patch mem 0 a) a.length b = patch mem 0 (a ++ b) := by
    rw [← patch_patch ha, Nat.zero_add]
  have hpart := part_patch hboth
  rw [part, List.drop_zero, hlen] at hpart
  rw [hpatch]
  exact ⟨length_patch hboth, hpart⟩

/-- A round of the loop: the parts are written, and the bytes that waited wait no longer. -/
theorem hwRounds_more {rounds sent : Nat} {mem : Bytes}
    (hmore : self.algo.blockSize ≤ self.accumulator.length + remaining.length)
    (hsent : (self.accumulator.length +
      min (scratchCap - self.accumulator.length) remaining.length) / self.algo.blockSize *
        self.algo.blockSize = sent)
    (hmem : self.scratch = some mem) (hacc : self.accumulator.length ≤ sent)
    (hrem : sent - self.accumulator.length ≤ remaining.length) (hcap : sent ≤ mem.length)
    (hpages : (sent + (pageSize - 1)) / pageSize * pageSize ≤ mem.length)
    (hsome : 0 < (sent + (pageSize - 1)) / pageSize * pageSize) :
    hwRounds (rounds + 1) remaining self k =
      shaUpdate ((patch (patch mem 0 self.accumulator) self.accumulator.length
          (remaining.take (sent - self.accumulator.length))).take
            ((sent + (pageSize - 1)) / pageSize * pageSize)) sent
        { self with
          accumulator := []
          scratch := some (patch (patch mem 0 self.accumulator) self.accumulator.length
            (remaining.take (sent - self.accumulator.length))) }
        fun self' _ =>
          hwRounds rounds (remaining.drop (sent - self.accumulator.length)) self' k := by
  have hpart : (remaining.take (sent - self.accumulator.length)).length =
      sent - self.accumulator.length := List.length_take_of_le hrem
  have hfirst : (patch mem 0 self.accumulator).length = mem.length := length_patch (by omega)
  have hlength : (patch (patch mem 0 self.accumulator) self.accumulator.length
      (remaining.take (sent - self.accumulator.length))).length = mem.length :=
    (length_patch (by omega)).trans hfirst
  subst hsent
  show (if self.algo.blockSize ≤ self.accumulator.length + remaining.length then
    _ else _ : ShaClient Unit) self k = _
  rw [if_pos hmore]
  show writeScratch 0 self.accumulator self _ = _
  rw [writeScratch_eq hmem (by omega)]
  show (if _ ∧ _ then _ else _) = _
  rw [if_pos ⟨hacc, hrem⟩]
  show writeScratch _ _ _ _ = _
  rw [writeScratch_eq rfl (by omega)]
  simp only [bind_run, modify_run]
  rw [lendScratch_eq rfl (by omega) hsome]

theorem hwRounds_safe {rounds : Nat} {i : UInt32}
    (hrounds : self.accumulator.length + remaining.length < rounds)
    (hfit : Fit algo (some i) entry self)
    (hhw : self.serverAuthoritative = true) (hscratch : self.scratch ≠ none)
    (hfirst : self.accumulator.length = 0 ∨
      swThreshold ≤ self.accumulator.length + remaining.length)
    (hdone : F.good → Hashed C done self entry)
    (hfed : F.good → F.Between (done ++ self.accumulator) (done ++ (self.accumulator ++ remaining)))
    (hk : ∀ self' more newEntry, Fit algo (some i) newEntry self' →
      more ++ self'.accumulator = self.accumulator ++ remaining →
      (F.good → Hashed C (done ++ more) self' newEntry) →
      (k self' ()).Safe C algo F Q (some i) newEntry) :
    (hwRounds rounds remaining self k).Safe C algo F Q (some i) entry := by
  induction rounds generalizing self remaining done entry with
  | zero => exact absurd hrounds (Nat.not_lt_zero _)
  | succ rounds ih =>
    have hbs := blockSize_cases self.algo
    by_cases hmore : self.algo.blockSize ≤ self.accumulator.length + remaining.length
    · obtain ⟨sent, hsent⟩ : ∃ n, (self.accumulator.length +
          min (scratchCap - self.accumulator.length) remaining.length) / self.algo.blockSize *
            self.algo.blockSize = n := ⟨_, rfl⟩
      obtain ⟨hpos, hwhole, hacc, hrem, hcap⟩ :=
        sendLen_spec hbs hfit.accumulator hfirst hmore hsent
      obtain ⟨hpages, hinside, hsome⟩ := pages_spec hpos hcap
      obtain ⟨mem, hmem⟩ := Option.ne_none_iff_exists'.1 hscratch
      have hsize := hfit.scratch mem hmem
      have hjoined : (self.accumulator ++
          remaining.take (sent - self.accumulator.length)).length = sent := by
        rw [List.length_append, List.length_take_of_le hrem]
        omega
      obtain ⟨hlength, htake⟩ := take_scratch hjoined (hsize ▸ hcap)
      rw [hwRounds_more hmore hsent hmem hacc hrem (by omega) (by omega) hsome]
      refine @shaUpdate_safe C Q F done _ _ entry _ _ sent i
        ⟨hfit.algo_eq, hfit.entry_algo, hfit.serverId, hfit.authoritative,
          Nat.lt_of_lt_of_le Nat.zero_lt_one (by decide), ?_⟩ hhw hpos ?_ ?_ hwhole
        (fun hgood => (hdone hgood).keep _ _) (fun hgood => ?_) fun newEntry hnext hhashed => ?_
      · rintro mem' hmem'
        cases hmem'
        exact hlength.trans hsize
      · rw [List.length_take]
        omega
      · unfold scratchCap at hcap
        omega
      · rw [List.take_take, Nat.min_eq_left hpages, htake, List.append_nil]
        exact (hfed hgood).within (prefix_more _) (prefix_take _)
      · rw [List.take_take, Nat.min_eq_left hpages, htake] at hhashed
        refine ih ?_ hnext hhw (Option.some_ne_none _) (.inl rfl) hhashed (fun hgood => ?_) ?_
        · show 0 + (remaining.drop (sent - self.accumulator.length)).length < rounds
          rw [List.length_drop]
          omega
        · show F.Between (done ++ _ ++ [])
            (done ++ _ ++ ([] ++ remaining.drop (sent - self.accumulator.length)))
          rw [List.append_nil, List.nil_append, List.append_assoc, List.append_assoc,
            List.take_append_drop]
          exact (hfed hgood).within (prefix_more _) (List.prefix_refl _)
        · intro self' more newEntry' hfit' hbytes hhashed'
          refine hk self' (self.accumulator ++
            remaining.take (sent - self.accumulator.length) ++ more) newEntry' hfit' ?_ ?_
          · have hrest : more ++ self'.accumulator =
              remaining.drop (sent - self.accumulator.length) := hbytes
            rw [List.append_assoc, hrest, List.append_assoc, List.take_append_drop]
          · rwa [← List.append_assoc]
    · show ShaCall.Safe C algo F Q ((if self.algo.blockSize ≤ self.accumulator.length +
        remaining.length then _ else _ : ShaClient Unit) self k) (some i) entry
      rw [if_neg hmore]
      have hnone : self.accumulator = [] := by
        unfold swThreshold at hfirst
        exact List.eq_nil_of_length_eq_zero (by omega)
      refine hk _ [] entry (hfit.keep (by unfold swThreshold; omega)) ?_ fun hgood => ?_
      · rw [hnone]
      · rw [List.append_nil]
        exact (hdone hgood).keep remaining self.scratch

/-- The memory for the scratch bytes is there, or is mapped. -/
theorem scratchRange_safe (hfit : Fit algo id entry self)
    (hdone : F.good → Hashed C done self entry)
    (hfed : F.good → F.Between (done ++ self.accumulator) (done ++ self.accumulator))
    (hk : ∀ mem : Bytes, Fit algo id entry { self with scratch := some mem } →
      (F.good → Hashed C done { self with scratch := some mem } entry) →
      (k { self with scratch := some mem } ()).Safe C algo F Q id entry) :
    (scratchRange self k).Safe C algo F Q id entry := by
  have hmapped (mem : Bytes) (hmem : mem.length = scratchCap) :
      (k { self with scratch := some mem } ()).Safe C algo F Q id entry := by
    refine hk mem ⟨hfit.algo_eq, hfit.entry_algo, hfit.serverId, hfit.authoritative,
      hfit.accumulator, fun mem' h => ?_⟩
      fun hgood => (hdone hgood).keep self.accumulator (some mem)
    cases h
    exact hmem
  show ShaCall.Safe C algo F Q ((if self.scratch.isNone then _ else _ : ShaClient Unit) self k) id
    entry
  obtain ⟨ctxAlgo, accumulator, bytesCompressed, hashState, serverId, serverAuthoritative,
    scratch⟩ := self
  cases scratch with
  | none => exact ⟨hfit, Hashed.flows hdone hfed, hmapped⟩
  | some mem => exact hmapped mem (hfit.scratch mem rfl)

theorem updateHw_safe {slice : Slice} {i : UInt32}
    (hfit : Fit algo (some i) entry self)
    (hhw : self.serverAuthoritative = true)
    (hlong : swThreshold ≤ self.accumulator.length + slice.bytes.length)
    (hdone : F.good → Hashed C done self entry)
    (hfed : F.good → F.Between (done ++ self.accumulator)
      (done ++ (self.accumulator ++ slice.bytes)))
    (hk : ∀ self' more newEntry, Fit algo (some i) newEntry self' →
      more ++ self'.accumulator = self.accumulator ++ slice.bytes →
      (F.good → Hashed C (done ++ more) self' newEntry) →
      (k self' ()).Safe C algo F Q (some i) newEntry) :
    (updateHw C slice self k).Safe C algo F Q (some i) entry := by
  show ShaCall.Safe C algo F Q ((if _ ∧ _ ∧ _ then _ else _ : ShaClient Unit) self k)
    (some i) entry
  split
  · next haligned =>
    obtain ⟨hnone, -, hpage⟩ := haligned
    obtain ⟨hwLen, hlen⟩ : ∃ n, slice.bytes.length / pageSize * pageSize = n := ⟨_, rfl⟩
    have hshort := slice.short
    unfold pageSize at hpage hlen
    rw [pageSize, hlen]
    simp only [bind_run]
    unfold newMemoryRange
    split
    · exact hfit
    · refine @shaUpdate_safe C Q F done _ _ entry _ _ hwLen i hfit hhw (by omega) ?_
        (by omega) ?_ hdone (fun hgood => ?_) fun newEntry hnext hhashed => ?_
      · rw [List.length_take]
        omega
      · rcases blockSize_cases self.algo with h | h <;> rw [h] <;> omega
      · have hbytes := hfed hgood
        rw [hnone] at hbytes
        rw [hnone, List.append_nil, List.take_take, Nat.min_self]
        exact hbytes.within (prefix_more _) (@prefix_take done [] slice.bytes hwLen)
      · refine updateSw_safe hnext hhashed (fun hgood => ?_) ?_
          fun self' more hfit' hbytes hhashed' => ?_
        · have hbytes := hfed hgood
          show F.Between (done ++ _ ++ self.accumulator)
            (done ++ _ ++ (self.accumulator ++ slice.bytes.drop hwLen))
          rw [hnone] at hbytes ⊢
          rw [List.take_take, Nat.min_self, List.nil_append, List.append_nil, List.append_assoc,
            List.take_append_drop]
          exact hbytes.within (prefix_more _) (List.prefix_refl _)
        · show (self.accumulator ++ slice.bytes.drop hwLen).length < swThreshold
          rw [hnone, List.nil_append, List.length_drop]
          unfold swThreshold
          omega
        · refine hk self' ((slice.bytes.take hwLen).take hwLen ++ more) newEntry hfit' ?_ ?_
          · have hrest : more ++ self'.accumulator = slice.bytes.drop hwLen := by
              rw [hbytes, hnone, List.nil_append]
            rw [List.append_assoc, hrest, List.take_take, Nat.min_self, List.take_append_drop,
              hnone, List.nil_append]
          · rwa [← List.append_assoc]
  · refine scratchRange_safe hfit hdone (fun hgood => ?_) fun mem hmapped hhashed => ?_
    · exact (hfed hgood).within (List.prefix_refl _) (prefix_more _)
    · exact hwRounds_safe (Nat.lt_succ_self _) hmapped hhw (Option.some_ne_none mem) (.inr hlong)
        hhashed hfed hk

/-- Where a call on a context begins, with the bytes that have been hashed if nothing has failed. -/
theorem tracks_done (h : good → Tracks C fed self entry) :
    ∃ done, (good → done ++ self.accumulator = fed) ∧ (good → Hashed C done self entry) := by
  by_cases hgood : good
  · obtain ⟨done, hfed, hdone⟩ := h hgood
    exact ⟨done, fun _ => hfed, fun _ => hdone⟩
  · exact ⟨[], fun h => absurd h hgood, fun h => absurd h hgood⟩

/-- `update` -/
theorem update_safe (slice : Slice) (hfit : Fit algo id entry self)
    (htracks : good → Tracks C fed self entry) :
    (update C slice self fun self _ => .returned self (.ok [])).Safe C algo
      ⟨good, fed, fed ++ slice.bytes⟩ (fun self' _ newEntry => good →
        Tracks C (fed ++ slice.bytes) self' newEntry) id entry := by
  obtain ⟨done, hfed, hdone⟩ := tracks_done htracks
  have hend (self' : ShaStreamingContext) (more : Bytes) (newEntry : Option ShaContext)
      (hbytes : more ++ self'.accumulator = self.accumulator ++ slice.bytes)
      (hhashed : good → Hashed C (done ++ more) self' newEntry) (hgood : good) :
      Tracks C (fed ++ slice.bytes) self' newEntry := by
    refine ⟨done ++ more, ?_, hhashed hgood⟩
    rw [List.append_assoc, hbytes, ← List.append_assoc, hfed hgood]
  have hall (hgood : good) : Feed.Between ⟨good, fed, fed ++ slice.bytes⟩
      (done ++ self.accumulator) (done ++ (self.accumulator ++ slice.bytes)) := by
    rw [← List.append_assoc, hfed hgood]
    exact ⟨List.prefix_refl _, List.prefix_refl _⟩
  show ShaCall.Safe C algo _ _ ((if slice.bytes = [] then _ else _ : ShaClient Unit) self _) id
    entry
  split
  · next hempty =>
    refine ⟨hfit, fun hgood => ?_⟩
    rw [hempty, List.append_nil]
    exact htracks hgood
  · split
    · next hlong =>
      refine push_safe hfit hdone
        (fun hgood => (hall hgood).within (List.prefix_refl _) (prefix_more _))
        fun newId newEntry hpushed hhashed => ?_
      exact updateHw_safe hpushed rfl hlong hhashed hall
        fun self' more last hfit' hbytes hhashed' =>
          ⟨hfit', hend self' more last hbytes hhashed'⟩
    · next hshort =>
      refine updateSw_safe hfit hdone hall ?_ fun self' more hfit' hbytes hhashed =>
        ⟨hfit', hend self' more entry hbytes hhashed⟩
      rw [List.length_append]
      omega

/-- `finalize` -/
theorem finalize_safe (hfit : Fit algo id entry self)
    (htracks : good → Tracks C fed self entry) :
    (finalize C self fun self digest => .returned self (.ok digest)).Safe C algo ⟨good, fed, fed⟩
      (fun _ digest _ => good → fed.length < 2 ^ 61 → digest = algo.digest C fed) id entry := by
  obtain ⟨done, hfed, hdone⟩ := tracks_done htracks
  have hall (hgood : good) : Feed.Between ⟨good, fed, fed⟩ (done ++ self.accumulator)
      (done ++ self.accumulator) := by
    rw [hfed hgood]
    exact ⟨List.prefix_refl _, List.prefix_refl _⟩
  refine fetch_safe hfit hdone hall fun hashState hfetched hhashed => ?_
  refine ⟨⟨hfetched.algo_eq, hfetched.entry_algo, hfetched.serverId, hfetched.authoritative,
    hfetched.accumulator, hfetched.scratch⟩, fun hgood hshort => ?_⟩
  obtain rfl : self.algo = algo := hfit.algo_eq
  have hstate : hashState = self.algo.chain C done := (hhashed hgood).client rfl
  have hcount : self.bytesCompressed = UInt64.ofNat done.length := (hhashed hgood).count
  have hwhole : self.algo.blockSize ∣ done.length := (hhashed hgood).whole
  show (swCompressBlocks C hashState self.algo (shaPadding self.accumulator self.algo
    ((self.bytesCompressed + UInt64.ofNat self.accumulator.length) * 8))).take
      self.algo.hashSize = _
  rw [hstate, hcount, finalize_digest hwhole (by rwa [hfed hgood]), hfed hgood]

end Methods

end ShaClient

end Crypto
