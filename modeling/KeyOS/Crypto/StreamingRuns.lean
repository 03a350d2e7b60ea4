import KeyOS.Crypto.Clocks
import KeyOS.Crypto.ShaFrame

/-!
# Streaming SHA equals one-shot SHA

As long as the server gives a process no id that one of its contexts holds, each context alone
changes its hash state, and every digest is the digest of the bytes that were fed.
-/

namespace Crypto

open BlockModes Exec Prog

/-! ## 1. What holds of the contexts -/

/-- The peripheral and the software compress alike. -/
def Platform.Compresses (P : Platform) (C : Compression) : Prop :=
  ∀ algo hashState data, algo.blockSize ∣ data.length →
    P.shaBlocks algo hashState data = swCompressBlocks C hashState algo data

/-- What the context is fed by the call in which it is. -/
def Stream.feed (s : Stream) : Feed := ⟨s.failed = false, s.before, s.fed⟩

/-- How a call ends, if no call has failed. -/
def Stream.Ends (C : Compression) (s : Stream) (consumes : Bool) (self : ShaStreamingContext)
    (value : Bytes) (entry : Option ShaContext) : Prop :=
  s.failed = false →
    if consumes then s.fed.length < 2 ^ 61 → value = s.algo.digest C s.fed
    else Tracks C s.fed self entry

def Stream.Safe (C : Compression) (s : Stream) (entry : Option ShaContext) : Prop :=
  match s.phase with
  | .idle self => ∃ id, Fit s.algo id entry self ∧ (s.failed = false → Tracks C s.fed self entry)
  | .calling consumes call =>
    ∃ id, call.Safe C s.algo s.feed (s.Ends C consumes) id entry
  | .finished _ digest => ∀ value, digest = some value → s.failed = false →
      s.fed.length < 2 ^ 61 → value = s.algo.digest C s.fed

/-- The entry of a context is its own and what it has made it. -/
structure Streams.Inv (C : Compression) (S : Streams) : Prop where
  safe : ∀ i s, S.streams i = some s → s.Safe C (s.key.bind S.world.find)
  apart : ∀ i j s t key, S.streams i = some s → S.streams j = some t → s.key = some key →
    t.key = some key → i = j
  present : ∀ i s key, S.streams i = some s → s.key = some key → S.world.crashed = false →
    S.left key.1 = false → (S.world.find key).isSome

section Settle

variable {C : Compression} {s : Stream} {consumes : Bool} {call : ShaCall} {id : Option UInt32}
  {entry : Option ShaContext} {algo : ShaAlgo} {F : Feed}
  {Q : ShaStreamingContext → Bytes → Option ShaContext → Prop}

theorem Stream.Ends.lose {self : ShaStreamingContext} {value : Bytes}
    (h : s.Ends C consumes self value entry) : s.Ends C consumes self value none := by
  intro hok
  have hends := h hok
  revert hends
  cases consumes with
  | true => exact fun hends => hends
  | false => exact Tracks.lose

theorem Stream.Safe.lose (h : s.Safe C entry) : s.Safe C none := by
  unfold Stream.Safe at h ⊢
  revert h
  cases s.phase with
  | idle self =>
    rintro ⟨id, hfit, htracks⟩
    exact ⟨id, hfit.lose, fun hok => (htracks hok).lose⟩
  | calling consumes call =>
    rintro ⟨id, hcall⟩
    exact ⟨id, hcall.lose fun _ _ _ hends => hends.lose⟩
  | finished self digest => exact fun h => h

/-- A call that has not panicked is in its context. -/
theorem ShaCall.Safe.fit (h : call.Safe C algo F Q id entry) : Fit algo id entry call.self := by
  cases call with
  | returned self result =>
    cases result with
    | ok value => exact h.1
    | error e => exact h
  | panicked self => exact h.elim
  | setContext self msg next => exact h.1
  | update self contextId buf length next => exact h.1
  | getContext self contextId next => exact h.1
  | mapMemory self size next => exact h.1

theorem key_of_self {self : ShaStreamingContext} (h : s.phase.self = self)
    (hfit : Fit algo id entry self) : s.key = id.map fun id => (s.pid, id) := by
  rw [Stream.key, h, hfit.serverId]

@[simp] theorem settle_pid : (s.settle consumes call).pid = s.pid := by
  cases call with
  | returned self result => cases result <;> rfl
  | _ => rfl

/-- A context is dropped as the call leaves it. -/
@[simp] theorem settle_self : (s.settle consumes call).phase.self = call.self := by
  cases call with
  | returned self result => cases result <;> cases consumes <;> rfl
  | _ => rfl

theorem settle_key (h : call.Safe C algo F Q id entry) :
    (s.settle consumes call).key = id.map fun id => (s.pid, id) := by
  rw [key_of_self settle_self h.fit, settle_pid]

/-- What has become of a call. -/
theorem settle_safe (h : call.Safe C s.algo s.feed (s.Ends C consumes) id entry) :
    (s.settle consumes call).Safe C entry := by
  cases call with
  | returned self result =>
    cases result with
    | ok value =>
      cases consumes with
      | true =>
        intro value' hvalue hok
        cases hvalue
        exact h.2 hok
      | false => exact ⟨id, h.1, h.2⟩
    | error e =>
      cases consumes with
      | true =>
        intro value' hvalue
        cases hvalue
      | false => exact ⟨id, h, fun hok => by cases hok⟩
  | panicked self => exact h.elim
  | setContext self msg next => exact ⟨id, h⟩
  | update self contextId buf length next => exact ⟨id, h⟩
  | getContext self contextId next => exact ⟨id, h⟩
  | mapMemory self size next => exact ⟨id, h⟩

end Settle

/-! ## 2. One step -/

namespace Streams

variable {P : Platform} {C : Compression} {S S' : Streams} {i : Nat} {s : Stream} {fates : Fates}

/-- A context that a step leaves alone. -/
def Kept (S S' : Streams) (j : Nat) (t : Stream) : Prop :=
  S.streams j = some t ∧ ∀ key, t.key = some key →
    S'.world.find key = S.world.find key ∨
      S'.world.find key = none ∧ (S'.world.crashed = true ∨ S'.left key.1 = true)

/-- The context of a step. -/
structure Next (C : Compression) (S S' : Streams) (j : Nat) (t : Stream) : Prop where
  safe : t.Safe C (t.key.bind S'.world.find)
  holds : ∀ key, t.key = some key →
    (∃ s, S.streams j = some s ∧ s.key = some key) ∨ ¬S.Holds key
  present : ∀ key, t.key = some key → S'.world.crashed = false → S'.left key.1 = false →
    (S'.world.find key).isSome

theorem Inv.next (h : S.Inv C) (i : Nat)
    (hcrashed : S'.world.crashed = false → S.world.crashed = false)
    (hleft : ∀ pid, S'.left pid = false → S.left pid = false)
    (hnext : ∀ j t, S'.streams j = some t → Kept S S' j t ∨ j = i ∧ Next C S S' j t) :
    S'.Inv C where
  safe := by
    intro j t ht
    rcases hnext j t ht with ⟨hold, hfind⟩ | ⟨-, hnew⟩
    · have hsafe := h.safe j t hold
      cases hkey : t.key with
      | none =>
        rw [hkey] at hsafe
        exact hsafe
      | some key =>
        rw [hkey] at hsafe
        show t.Safe C (S'.world.find key)
        rcases hfind key hkey with hsame | ⟨hnone, -⟩
        · rw [hsame]
          exact hsafe
        · rw [hnone]
          exact hsafe.lose
    · exact hnew.safe
  apart := by
    intro j k t u key ht hu htkey hukey
    rcases hnext j t ht with ⟨hold, -⟩ | ⟨rfl, hnew⟩ <;>
      rcases hnext k u hu with ⟨hold', -⟩ | ⟨rfl, hnew'⟩
    · exact h.apart j k t u key hold hold' htkey hukey
    · rcases hnew'.holds key hukey with ⟨s, hs, hskey⟩ | hfree
      · exact h.apart j k t s key hold hs htkey hskey
      · exact absurd ⟨j, t, hold, htkey⟩ hfree
    · rcases hnew.holds key htkey with ⟨s, hs, hskey⟩ | hfree
      · exact h.apart j k s u key hs hold' hskey hukey
      · exact absurd ⟨k, u, hold', hukey⟩ hfree
    · rfl
  present := by
    intro j t key ht hkey hlive hstays
    rcases hnext j t ht with ⟨hold, hfind⟩ | ⟨-, hnew⟩
    · rcases hfind key hkey with hsame | ⟨-, hlost | hlost⟩
      · rw [hsame]
        exact h.present j t key hold hkey (hcrashed hlive) (hleft key.1 hstays)
      · rw [hlive] at hlost
        cases hlost
      · rw [hstays] at hlost
        cases hlost
    · exact hnew.present key hkey hlive hstays

theorem streams_update {j : Nat} {v : Option Stream} {u : Stream}
    (h : Function.update S.streams i v j = some u) :
    (j = i ∧ v = some u) ∨ (j ≠ i ∧ S.streams j = some u) := by
  by_cases hj : j = i
  · subst hj
    exact .inl ⟨rfl, by rwa [Function.update_self] at h⟩
  · exact .inr ⟨hj, by rwa [Function.update_of_ne hj] at h⟩

/-- A step of one context alone. -/
theorem Inv.put (h : S.Inv C) (hs : S.streams i = some s) {t : Stream}
    (hsafe : t.Safe C (s.key.bind S.world.find))
    (hkey : ∀ key, t.key = some key → s.key = some key) : (S.put i (some t)).Inv C := by
  refine h.next i (fun h => h) (fun _ h => h) fun j u hu => ?_
  rcases streams_update hu with ⟨rfl, hnew⟩ | ⟨-, hold⟩
  · cases hnew
    refine .inr ⟨rfl, ?_, fun key hk => .inl ⟨s, hs, hkey key hk⟩,
      fun key hk => h.present j s key hs (hkey key hk)⟩
    cases hk : t.key with
    | none => exact hsafe.lose
    | some key =>
      rw [hkey key hk] at hsafe
      exact hsafe
  · exact .inl ⟨hold, fun key _ => .inl rfl⟩

theorem Inv.put_none (h : S.Inv C) : (S.put i none).Inv C := by
  refine h.next i (fun h => h) (fun _ h => h) fun j u hu => ?_
  rcases streams_update hu with ⟨rfl, hnew⟩ | ⟨-, hold⟩
  · cases hnew
  · exact .inl ⟨hold, fun key _ => .inl rfl⟩

theorem Inv.init (h : S.Inv C) (pid : Pid) (algo : ShaAlgo) :
    (S.put i (some ⟨pid, algo, [], [], false, .idle (ShaClient.shaInit algo)⟩)).Inv C := by
  refine h.next i (fun h => h) (fun _ h => h) fun j u hu => ?_
  rcases streams_update hu with ⟨rfl, hnew⟩ | ⟨-, hold⟩
  · cases hnew
    refine .inr ⟨rfl, ⟨none, shaInit_fit algo, fun _ => shaInit_tracks algo⟩, fun key hk => ?_,
      fun key hk => ?_⟩
    · cases hk
    · cases hk
  · exact .inl ⟨hold, fun key _ => .inl rfl⟩

/-- A request that changes nothing but the entry of its context, whose id no other context holds. -/
theorem Inv.answer {α : Type} {x : Serve α} {next : α → ShaCall} {w : World} {consumes : Bool}
    {self : ShaStreamingContext} {id : Option UInt32} (h : S.Inv C) (hs : S.streams i = some s)
    (hskey : s.key = id.map fun id => (s.pid, id)) (hlive : S.world.crashed = false)
    (hw : w.machine.shaContexts = S.world.machine.shaContexts) (hwlive : w.crashed = false)
    (hfit : Fit s.algo id (s.key.bind S.world.find) self)
    (hx : Triple (· = w.machine) x
      (fun a m => ∃ newId context, OnlyAt w.machine (s.pid, newId) m ∧
        (id = some newId ∨ ¬S.Holds (s.pid, newId)) ∧
        findSha m.shaContexts (s.pid, newId) = some context ∧
        (next a).Safe C s.algo s.feed (s.Ends C consumes) (some newId)
          (some context))
      (fun _ m => m.shaContexts = w.machine.shaContexts) fun _ => True) :
    (S.answer i s consumes self w x next).Inv C := by
  have hrun := hx w.machine rfl
  have hfound (key : Pid × UInt32) :
      S.world.find key = findSha w.machine.shaContexts key := by
    rw [find_of_live hlive, hw]
  unfold Streams.answer World.serve
  revert hrun
  rcases x w.machine with ⟨o, m⟩
  cases o with
  | ok a =>
    rintro ⟨newId, context, honly, hid, hcontext, hsafe⟩
    dsimp only
    have hfind (key : Pid × UInt32) : ({ w with
        machine := m, used := fun s => w.used s || m.securamSlotOccupied s } : World).find key =
        findSha m.shaContexts key := find_of_live hwlive
    have hsettled := settle_safe hsafe
    have hkey : (s.settle consumes (next a)).key = some (s.pid, newId) := settle_key hsafe
    refine h.next i (fun _ => hlive) (fun _ h => h) fun j t ht => ?_
    rcases streams_update ht with ⟨rfl, hnew⟩ | ⟨hj, ht'⟩
    · cases hnew
      refine .inr ⟨rfl, ?_, fun key hk => ?_, fun key hk _ _ => ?_⟩
      · rw [hkey]
        exact Eq.mpr (congrArg (Stream.Safe C _) ((hfind _).trans hcontext)) hsettled
      · cases hkey.symm.trans hk
        refine hid.imp_left fun hid => ⟨s, hs, ?_⟩
        rw [hskey, hid]
        rfl
      · cases hkey.symm.trans hk
        exact Option.isSome_iff_exists.2 ⟨context, (hfind _).trans hcontext⟩
    · refine .inl ⟨ht', fun key hk => .inl ((hfind key).trans ((honly key ?_).trans
        (hfound key).symm))⟩
      rintro rfl
      rcases hid with hid | hfree
      · refine hj (h.apart j i t s _ ht' hs hk ?_)
        rw [hskey, hid]
        rfl
      · exact hfree ⟨j, t, ht', hk⟩
  | err e =>
    intro hm
    dsimp only
    have hfind (key : Pid × UInt32) :
        ({ w with machine := m } : World).find key = S.world.find key := by
      rw [hfound, ← hm]
      exact find_of_live hwlive
    have herror : ShaCall.Safe C s.algo s.feed (s.Ends C consumes) (.returned self (.error e)) id
        (s.key.bind S.world.find) := hfit
    have hsettled := settle_safe herror
    have hkey : (s.settle consumes (.returned self (.error e))).key =
        id.map fun id => (s.pid, id) := settle_key herror
    refine h.next i (fun _ => hlive) (fun _ h => h) fun j t ht => ?_
    rcases streams_update ht with ⟨rfl, hnew⟩ | ⟨-, ht'⟩
    · cases hnew
      have hheld (key : Pid × UInt32)
          (hk : (s.settle consumes (.returned self (.error e))).key = some key) :
          s.key = some key := hskey.trans (hkey.symm.trans hk)
      refine .inr ⟨rfl, ?_, fun key hk => .inl ⟨s, hs, hheld key hk⟩, fun key hk _ hstays => ?_⟩
      · cases hk : (s.settle consumes (.returned self (.error e))).key with
        | none => exact hsettled.lose
        | some key =>
          rw [hheld key hk] at hsettled
          exact Eq.mpr (congrArg (Stream.Safe C _) (hfind key)) hsettled
      · exact Eq.mpr (congrArg (fun entry => Option.isSome entry = true) (hfind key))
          (h.present j s key hs (hheld key hk) hlive hstays)
    · exact .inl ⟨ht', fun key _ => .inl (hfind key)⟩
  | panic p =>
    intro _
    dsimp only
    refine h.next i (fun hcrash => by cases hcrash) (fun _ h => h) fun j t ht => ?_
    have ht' : S.streams j = some t := by
      rcases streams_update ht with ⟨rfl, hnew⟩ | ⟨-, ht'⟩
      · rw [hs, hnew]
      · exact ht'
    exact .inl ⟨ht', fun key _ => .inr ⟨find_crashed rfl, .inl rfl⟩⟩

theorem onIdle_keeps {f : Stream → ShaStreamingContext → Streams} (h : S.Inv C)
    (hf : ∀ s self, S.streams i = some s → s.phase = .idle self → (f s self).Inv C) :
    (S.onIdle i f).Inv C := by
  unfold onIdle
  split
  · next s hs =>
    split
    · next self hself => exact hf s self hs hself
    · exact h
  · exact h

theorem onCall_keeps {f : Stream → Bool → ShaCall → Streams} (h : S.Inv C)
    (hf : ∀ s consumes call, S.streams i = some s → s.phase = .calling consumes call →
      (f s consumes call).Inv C) : (S.onCall i f).Inv C := by
  unfold onCall
  split
  · next s hs =>
    split
    · next consumes call hcall => exact hf s consumes call hs hcall
    · exact h
  · exact h

theorem onFinished_keeps {f : Stream → ShaStreamingContext → Streams} (h : S.Inv C)
    (hf : ∀ s self digest, S.streams i = some s → s.phase = .finished self digest →
      (f s self).Inv C) : (S.onFinished i f).Inv C := by
  unfold onFinished
  split
  · next s hs =>
    split
    · next self digest hself => exact hf s self digest hs hself
    · exact h
  · exact h

/-- A call in which a context is. -/
theorem Inv.call {consumes : Bool} {call : ShaCall} (h : S.Inv C) (hs : S.streams i = some s)
    (hcall : s.phase = .calling consumes call) :
    ∃ id, s.key = id.map (fun id => (s.pid, id)) ∧
      call.Safe C s.algo s.feed (s.Ends C consumes) id (s.key.bind S.world.find) := by
  have hsafe := h.safe i s hs
  unfold Stream.Safe at hsafe
  rw [hcall] at hsafe
  obtain ⟨id, hsafe⟩ := hsafe
  exact ⟨id, key_of_self (by rw [hcall]; rfl) hsafe.fit, hsafe⟩

/-- A call goes on. -/
theorem Inv.settle {consumes : Bool} {call : ShaCall} {id : Option UInt32} {t : Stream}
    (h : S.Inv C) (hs : S.streams i = some s) (hskey : s.key = id.map fun id => (t.pid, id))
    (hcall : call.Safe C t.algo t.feed (t.Ends C consumes) id (s.key.bind S.world.find)) :
    (S.put i (some (t.settle consumes call))).Inv C :=
  h.put hs (settle_safe hcall) fun _ hk => hskey.trans ((settle_key hcall).symm.trans hk)

/-- A call of an idle context begins. -/
theorem Inv.begin {self : ShaStreamingContext} {consumes : Bool} {call : ShaCall} {t : Stream}
    (h : S.Inv C) (hs : S.streams i = some s) (hself : s.phase = .idle self)
    (ht : t.pid = s.pid)
    (hcall : ∀ id, Fit s.algo id (s.key.bind S.world.find) self →
      (s.failed = false → Tracks C s.fed self (s.key.bind S.world.find)) →
      call.Safe C t.algo t.feed (t.Ends C consumes) id (s.key.bind S.world.find)) :
    (S.put i (some (t.settle consumes call))).Inv C := by
  have hsafe := h.safe i s hs
  unfold Stream.Safe at hsafe
  rw [hself] at hsafe
  obtain ⟨id, hfit, htracks⟩ := hsafe
  refine h.settle hs ?_ (hcall id hfit htracks)
  rw [key_of_self (by rw [hself]; rfl) hfit, ht]

/-- The server takes a request. -/
theorem Inv.serve {consumes : Bool} {call : ShaCall} (hP : P.Compresses C) (h : S.Inv C)
    (hs : S.streams i = some s) (hcall : s.phase = .calling consumes call)
    (hlive : S.world.crashed = false) (hfresh : S.Fresh (.serve i fates)) :
    (S.serve P fates i s consumes call).Inv C := by
  obtain ⟨id, hskey, hsafe⟩ := h.call hs hcall
  have hentry : s.key.bind S.world.find =
      id.bind fun id => findSha S.world.machine.shaContexts (s.pid, id) := by
    rw [hskey]
    cases id with
    | none => rfl
    | some id => exact find_of_live hlive
  cases call with
  | setContext self msg next =>
    obtain ⟨hfit, -, hid, hnext⟩ := hsafe
    refine h.answer hs hskey hlive rfl hlive hfit (shaSetContext_spec.post fun newId m hm => ?_)
    obtain ⟨honly, hnew, hanswered⟩ := hm
    rw [hid, ← hentry] at hanswered
    have hnext' := hnext newId _ hanswered
    obtain ⟨context, hcontext⟩ :
        ∃ context, findSha m.shaContexts (s.pid, newId) = some context := by
      rcases hanswered with ⟨-, hinserted⟩ | ⟨-, old, -, hset⟩
      · exact ⟨_, hinserted⟩
      · exact ⟨_, hset⟩
    refine ⟨newId, context, honly, ?_, hcontext, hcontext ▸ hnext'⟩
    rcases hanswered with ⟨hnone, -⟩ | ⟨hsome, -⟩
    · refine .inr ?_
      rw [hnew hnone]
      exact hfresh s consumes self msg next hs hcall hnone
    · exact .inl (hid ▸ hsome)
  | update self contextId buf length next =>
    obtain ⟨hfit, -, rfl, hrange, hnext⟩ := hsafe
    refine @Inv.answer C S i s _ _ _ (S.world.lend buf) consumes self _ h hs hskey hlive rfl hlive
      hfit (shaUpdate_spec.post fun length' m hm => ?_)
    obtain ⟨honly, context, hcontext, hset⟩ := hm
    have halgo := hfit.entry_algo context (hentry.trans hcontext)
    have hwhole : context.algo.blockSize ∣ (buf.take length.toNat).length := by
      rw [List.length_take_of_le hrange.inside, halgo]
      exact hrange.whole
    refine ⟨contextId, _, honly, .inl rfl, hset, ?_⟩
    rw [show P.shaBlocks context.algo context.hashState ((S.world.lend buf).machine.lent.take
      length.toNat) = _ from hP context.algo context.hashState (buf.take length.toNat) hwhole]
    exact hnext context (hentry.trans hcontext)
  | getContext self contextId next =>
    obtain ⟨hfit, -, rfl, hnext⟩ := hsafe
    refine h.answer hs hskey hlive rfl hlive hfit (shaGetContext_spec.post fun context m hm => ?_)
    obtain ⟨rfl, hcontext⟩ := hm
    have hsame := hnext context (hentry.trans hcontext)
    rw [hentry.trans hcontext] at hsame
    exact ⟨contextId, context, fun _ _ => rfl, .inl rfl, hcontext, hsame⟩
  | returned self result => exact h
  | panicked self => exact h
  | mapMemory self size next => exact h

/-- The kernel answers. -/
theorem Inv.map {consumes : Bool} {call : ShaCall} (h : S.Inv C) (hs : S.streams i = some s)
    (hcall : s.phase = .calling consumes call) (result : Except UInt32 Bytes) :
    (S.map i s consumes result call).Inv C := by
  obtain ⟨id, hskey, hsafe⟩ := h.call hs hcall
  cases call with
  | mapMemory self size next =>
    cases result with
    | ok mem =>
      show Inv C (if mem.length = size then _ else _)
      split
      · next hsize =>
        exact h.settle hs hskey (hsafe.2.2 mem hsize)
      · exact h
    | error e =>
      have herror : ShaCall.Safe C s.algo s.feed (s.Ends C consumes)
          (.returned self (.error (.xousError e))) id (s.key.bind S.world.find) := hsafe.1
      exact h.settle hs hskey herror
  | returned self result => exact h
  | panicked self => exact h
  | setContext self msg next => exact h
  | update self contextId buf length next => exact h
  | getContext self contextId next => exact h

/-- A context that has been dropped goes, with its entry. -/
theorem Inv.dropped {id : UInt32} (h : S.Inv C) (hs : S.streams i = some s)
    (hkey : s.key = some (s.pid, id)) :
    ({ S.put i none with world := S.world.step P (.shaDrop s.pid id fates) } : Streams).Inv C := by
  refine h.next i live_of_step (fun _ h => h) fun j t ht => ?_
  rcases streams_update ht with ⟨rfl, hnew⟩ | ⟨hj, hold⟩
  · cases hnew
  · refine .inl ⟨hold, fun key hk => (shaDrop_find ?_).imp_right fun hlost =>
      ⟨hlost.1, .inl hlost.2⟩⟩
    rintro rfl
    exact hj (h.apart j i t s _ hold hs hk hkey)

/-- A request that no context has sent. -/
theorem Inv.other {act : Act} (h : S.Inv C) (hother : act.streaming = false) :
    ({ S with
      world := S.world.step P act
      left := fun pid => S.left pid || act.leaves = some pid } : Streams).Inv C := by
  refine h.next 0 live_of_step (fun pid hleft => ?_) fun j t ht => .inl ⟨ht, fun key hk => ?_⟩
  · simp only [Bool.or_eq_false_iff] at hleft
    exact hleft.1
  · refine (step_lost hother key).imp_right fun hlost =>
      ⟨hlost.1, hlost.2.imp_right fun hgone => ?_⟩
    show (S.left key.1 || decide (act.leaves = some key.1)) = true
    rw [hgone]
    simp

theorem Inv.step (hP : P.Compresses C) (h : S.Inv C) {act : StreamAct} (hfresh : S.Fresh act) :
    (S.step P C act).Inv C := by
  cases act with
  | init i pid algo =>
    show Inv C (if (S.streams i).isSome then _ else _)
    split
    · exact h
    · exact h.init pid algo
  | update i slice =>
    exact onIdle_keeps h fun s self hs hself => h.begin hs hself rfl fun id hfit htracks =>
      ShaClient.update_safe slice hfit htracks
  | finalize i =>
    exact onIdle_keeps h fun s self hs hself => h.begin hs hself rfl fun id hfit htracks =>
      ShaClient.finalize_safe hfit htracks
  | drop i =>
    refine onIdle_keeps h fun s self hs hself => h.put hs (fun value hvalue => ?_) fun key hk => ?_
    · cases hvalue
    · rw [← hk, Stream.key, hself]
      rfl
  | serve i fates =>
    show Inv C (if S.world.crashed then _ else _)
    split
    · exact h
    · next hlive =>
      exact onCall_keeps h fun s consumes call hs hcall =>
        h.serve hP hs hcall (by simpa using hlive) hfresh
  | mapMemory i result =>
    exact onCall_keeps h fun s consumes call hs hcall => h.map hs hcall result
  | undelivered i =>
    refine onCall_keeps h fun s consumes call hs hcall =>
      h.put hs (fun value hvalue => ?_) fun key hk => ?_
    · cases hvalue
    · rw [← hk, Stream.key, hcall]
      rfl
  | shaDrop i fates =>
    refine onFinished_keeps h fun s self digest hs hself => ?_
    cases hid : self.serverId with
    | some id =>
      refine h.dropped hs ?_
      rw [Stream.key, hself]
      show self.serverId.map _ = _
      rw [hid]
      rfl
    | none => exact h.put_none
  | other act =>
    show Inv C (if act.streaming then _ else _)
    split
    · exact h
    · next hother => exact h.other (by simpa using hother)

theorem Inv.run (hP : P.Compresses C) (h : S.Inv C) {acts : List StreamAct}
    (hfresh : FreshRun P C S acts) : (S.run P C acts).Inv C := by
  induction acts generalizing S with
  | nil => exact h
  | cons act acts ih => exact ih (h.step hP hfresh.1) hfresh.2

theorem started_inv (aesKeys : Fin 32 → AesKey) (diskEncryptionKeys : Bytes × Bytes) :
    (started aesKeys diskEncryptionKeys).Inv C where
  safe := fun i s hs => by cases hs
  apart := fun i j s t key hs => by cases hs
  present := fun i s key hs => by cases hs

end Streams

/-! ## 3. What a context owes its user -/

/-- The request for which a call waits: its context, and the bytes that are lent. -/
def ShaCall.request : ShaCall → Option (ShaStreamingContext × Bytes)
  | .returned _ _ | .panicked _ => none
  | .setContext self _ _ => some (self, [])
  | .update self _ buf length _ => some (self, buf.take length.toNat)
  | .getContext self _ _ => some (self, [])
  | .mapMemory self _ _ => some (self, [])

/-- Whatever has failed, each `ShaUpdate` covers whole blocks of what it lends. As long as no call
has failed, the bytes that are hashed and those that wait are the bytes that were fed, between the
calls and at each request, and the digest is the digest of the bytes that were fed. -/
structure Stream.Exact (C : Compression) (s : Stream) (entry : Option ShaContext) : Prop where
  updates : ∀ consumes self contextId buf length next,
    s.phase = .calling consumes (.update self contextId buf length next) →
      InRange s.algo buf length
  fed : ∀ self, s.phase = .idle self → s.failed = false → Tracks C s.fed self entry
  flows : ∀ consumes call self lent, s.phase = .calling consumes call →
    call.request = some (self, lent) → Flows C s.feed lent self entry
  digest : ∀ self digest, s.phase = .finished self (some digest) → s.failed = false →
    s.fed.length < 2 ^ 61 → digest = s.algo.digest C s.fed

/-- All contexts are exact, and the server has the state of each as long as it runs and has not seen
its process go. -/
structure Streams.Exact (C : Compression) (S : Streams) : Prop where
  exact : ∀ i s, S.streams i = some s → s.Exact C (s.key.bind S.world.find)
  held : ∀ i s key, S.streams i = some s → s.key = some key → S.world.crashed = false →
    S.left key.1 = false → (S.world.find key).isSome

theorem ShaCall.Safe.flows {C : Compression} {algo : ShaAlgo} {F : Feed}
    {Q : ShaStreamingContext → Bytes → Option ShaContext → Prop} {call : ShaCall}
    {id : Option UInt32} {entry : Option ShaContext} {self : ShaStreamingContext} {lent : Bytes}
    (h : call.Safe C algo F Q id entry) (hrequest : call.request = some (self, lent)) :
    Flows C F lent self entry := by
  cases call with
  | returned self result => cases hrequest
  | panicked self => cases hrequest
  | setContext self msg next =>
    cases hrequest
    exact h.2.1
  | update self contextId buf length next =>
    cases hrequest
    exact h.2.1
  | getContext self contextId next =>
    cases hrequest
    exact h.2.1
  | mapMemory self size next =>
    cases hrequest
    exact h.2.1

theorem Stream.Safe.exact {C : Compression} {s : Stream} {entry : Option ShaContext}
    (h : s.Safe C entry) : s.Exact C entry := by
  unfold Stream.Safe at h
  constructor
  · intro consumes self contextId buf length next hphase
    rw [hphase] at h
    obtain ⟨id, hcall⟩ := h
    exact hcall.2.2.2.1
  · intro self hphase hok
    rw [hphase] at h
    obtain ⟨id, -, htracks⟩ := h
    exact htracks hok
  · intro consumes call self lent hphase hrequest
    rw [hphase] at h
    obtain ⟨id, hcall⟩ := h
    exact hcall.flows hrequest
  · intro self digest hphase hok hshort
    rw [hphase] at h
    exact h digest rfl hok hshort

namespace Streams

theorem Inv.exact {C : Compression} {S : Streams} (h : S.Inv C) : S.Exact C :=
  ⟨fun i s hs => (h.safe i s hs).exact, h.present⟩

/-- In every run in which no context is given an id that another context of its process has, each
context is exact, whatever is served in between. -/
theorem exact_fresh {P : Platform} {C : Compression} {aesKeys : Fin 32 → AesKey}
    {diskEncryptionKeys : Bytes × Bytes} {acts : List StreamAct} (hP : P.Compresses C)
    (hfresh : FreshRun P C (started aesKeys diskEncryptionKeys) acts) :
    ((started aesKeys diskEncryptionKeys).run P C acts).Exact C :=
  ((started_inv aesKeys diskEncryptionKeys).run hP hfresh).exact

/-- The device, whose build wraps, with the compression functions of the standard. -/
def shaDevice : Platform :=
  { World.device with
    shaBlocks := fun algo hashState data => swCompressBlocks .standard hashState algo data }

def zeroPage : Slice where
  addr := 0x1000
  bytes := List.replicate pageSize 0
  short := List.length_replicate.trans_lt (by decide)

theorem length_zeroPage : zeroPage.bytes.length = pageSize := List.length_replicate

theorem zeroPage_call : (ShaClient.update .standard zeroPage (ShaClient.shaInit .sha512)
    fun self _ => .returned self (.ok [])).self.serverId = none := by
  have hlong : swThreshold ≤ (ShaClient.shaInit .sha512).accumulator.length +
      zeroPage.bytes.length := by
    rw [length_zeroPage]
    decide
  have hsome : zeroPage.bytes ≠ [] := by
    rw [← List.length_pos_iff, length_zeroPage]
    decide
  unfold ShaClient.update
  simp only [ShaClient.bind_run, ShaClient.get_run]
  rw [if_neg hsome, if_pos hlong]
  rfl

/-- The server gives a context its id. -/
theorem exact_fresh_page : ((started (fun _ => ⟨0, zeroes⟩) ([], [])).run shaDevice .standard
    [.init 0 1 .sha512, .update 0 zeroPage, .serve 0 .quiet]).Exact .standard := by
  refine exact_fresh (fun _ _ _ _ => rfl) ⟨trivial, trivial, ?_, trivial⟩
  rintro s consumes self msg next - - - ⟨j, t, ht, hkey⟩
  rcases streams_update ht with ⟨-, ht⟩ | ⟨hj, ht⟩
  · obtain rfl := Option.some_inj.1 ht
    rw [Stream.key, settle_self, zeroPage_call] at hkey
    cases hkey
  · rcases streams_update (S := started _ _) ht with ⟨rfl, -⟩ | ⟨-, ht⟩
    · exact hj rfl
    · cases ht

end Streams

end Crypto
