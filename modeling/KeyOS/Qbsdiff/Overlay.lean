import KeyOS.Qbsdiff.Gather

/-!
# Laying the delta and the extra bytes

Where the source bytes of a batch have landed, the overlay makes of the buffer what the reference
algorithm makes of the batch.
-/

namespace Qbsdiff

open Exec Prog Slices

/-! ## 1. The reads of a batch -/

/-- Every read is inside the source, and its bytes are in the buffer. -/
def Landed (source buf : Bytes) (reads : List SourceRead) : Prop :=
  ∀ read ∈ reads, read.sourceEnd ≤ source.length ∧
    slice buf read.bufferOffset read.len = slice source read.sourceOffset read.len

section Reads

variable {source buf : Bytes} {ctrl : Control} {cs : List Control} {s s' : Place} {pos : Int}
  {used len : Nat} {read : SourceRead}

theorem mem_readAt : read ∈ readAt pos used len ↔ 0 < len ∧ read = ⟨asU64 pos, used, len⟩ := by
  unfold readAt
  split
  · next hlen => exact List.mem_singleton.trans ⟨fun h => ⟨hlen, h⟩, And.right⟩
  · next hlen => exact ⟨nofun, fun h => absurd h.1 hlen⟩

theorem readsOf_bounds (h : read ∈ readsOf cs pos used) :
    used ≤ read.bufferOffset ∧ read.bufferEnd ≤ used + total cs := by
  induction cs generalizing pos used with
  | nil => cases h
  | cons ctrl cs ih =>
    rw [total_cons]
    rcases List.mem_append.1 h with hread | hread
    · obtain ⟨-, rfl⟩ := mem_readAt.1 hread
      refine ⟨Nat.le_refl _, ?_⟩
      show used + ctrl.add ≤ _
      omega
    · have hbounds := ih hread
      omega

theorem readsOf_apart : (readsOf cs pos used).Pairwise Apart := by
  induction cs generalizing pos used with
  | nil => exact .nil
  | cons ctrl cs ih =>
    refine List.pairwise_append.2 ⟨?_, ih, fun a ha b hb => .inl ?_⟩
    · unfold readAt
      split
      · exact List.pairwise_singleton _ _
      · exact .nil
    · obtain ⟨-, rfl⟩ := mem_readAt.1 ha
      have hbounds := readsOf_bounds hb
      show used + ctrl.add ≤ _
      omega

/-- A read is inside the source where the reference algorithm says so. -/
theorem source_read_iff (hpos : FitsI64 pos) (hsource : source.length < 2 ^ 63) (hlen : 0 < len) :
    asU64 pos + len ≤ source.length ↔ 0 ≤ pos ∧ pos + len ≤ source.length := by
  rcases Int.lt_or_le pos 0 with hneg | hpositive
  · have hfar := le_asU64_of_neg hpos hneg
    omega
  · rw [asU64_of_nonneg hpos hpositive]
    omega

/-- What the reference algorithm can make reads inside the source only. -/
theorem reads_inside (hpos : FitsI64 s.pos) (hfits : PositionsFit cs s.pos)
    (hsource : source.length < 2 ^ 63) (h : (patchControls source cs s).2 = some s')
    (hread : read ∈ readsOf cs s.pos used) : read.sourceEnd ≤ source.length := by
  induction cs generalizing s used with
  | nil => cases hread
  | cons ctrl cs ih =>
    obtain ⟨-, hseek, hrest⟩ := hfits
    rcases hpatch : patchControl source ctrl s with ⟨out, next⟩
    simp only [patchControls, hpatch] at h
    cases next with
    | none => cases h
    | some t =>
      have hsupplied := supplied_of_patch hpatch
      have hnext : t = ctrl.next s := by
        rw [hsupplied.patch] at hpatch
        cases hpatch
        rfl
      rcases List.mem_append.1 hread with hread | hread
      · obtain ⟨hadd, rfl⟩ := mem_readAt.1 hread
        exact (source_read_iff hpos hsource hadd).2 (hsupplied.add hadd)
      · subst hnext
        exact ih (s := ctrl.next s) hseek hrest h hread

theorem Landed.slice_eq (h : Landed source buf (readsOf (ctrl :: cs) pos used)) (hpos : FitsI64 pos)
    (hsource : source.length < 2 ^ 63) :
    (0 < ctrl.add → 0 ≤ pos ∧ pos + ctrl.add ≤ source.length) ∧
      slice buf used ctrl.add = slice source pos.toNat ctrl.add := by
  rcases Nat.eq_zero_or_pos ctrl.add with hzero | hadd
  · rw [hzero]
    exact ⟨fun h => absurd h (Nat.lt_irrefl 0), rfl⟩
  · obtain ⟨hend, hslice⟩ := h _ (List.mem_append_left _ (mem_readAt.2 ⟨hadd, rfl⟩))
    obtain ⟨hpositive, hle⟩ := (source_read_iff hpos hsource hadd).1 hend
    refine ⟨fun _ => ⟨hpositive, hle⟩, ?_⟩
    rw [asU64_of_nonneg hpos hpositive] at hslice
    exact hslice

end Reads

/-! ## 2. The delta -/

section Add

variable {B : Build} {A : Panic → Prop} {m : Context} {dlt rounds offset len add : Nat}

theorem readDelta_spec : Triple (· = m) (readDelta len)
    (fun bytes m' => len ≤ m.delta.length ∧ bytes = m.delta.take len ∧
      m' = { m with delta := m.delta.drop len })
    (fun _ m' => m.delta.length < len ∧ m'.target = m.target) A := by
  refine Triple.get_bind fun s hs => ?_
  subst hs
  by_cases hlen : len ≤ s.delta.length
  · have hread : ByteStream.readExact len s.delta = some (s.delta.take len, s.delta.drop len) :=
      if_pos hlen
    rw [hread]
    exact Triple.bind (Q := fun _ t => t = { s with delta := s.delta.drop len })
      (Triple.modify fun t ht => by rw [ht]) fun _ => Triple.pure fun t ht => ⟨hlen, rfl, ht⟩
  · have hread : ByteStream.readExact len s.delta = none := if_neg hlen
    rw [hread]
    exact Triple.throw fun t ht => ⟨Nat.lt_of_not_le hlen, by rw [ht]⟩

theorem readExtra_spec : Triple (· = m) (readExtra len)
    (fun bytes m' => len ≤ m.extra.length ∧ bytes = m.extra.take len ∧
      m' = { m with extra := m.extra.drop len })
    (fun _ m' => m.extra.length < len ∧ m'.target = m.target) A := by
  refine Triple.get_bind fun s hs => ?_
  subst hs
  by_cases hlen : len ≤ s.extra.length
  · have hread : ByteStream.readExact len s.extra = some (s.extra.take len, s.extra.drop len) :=
      if_pos hlen
    rw [hread]
    exact Triple.bind (Q := fun _ t => t = { s with extra := s.extra.drop len })
      (Triple.modify fun t ht => by rw [ht]) fun _ => Triple.pure fun t ht => ⟨hlen, rfl, ht⟩
  · have hread : ByteStream.readExact len s.extra = none := if_neg hlen
    rw [hread]
    exact Triple.throw fun t ht => ⟨Nat.lt_of_not_le hlen, by rw [ht]⟩

theorem length_addBytes {xs ys : Bytes} (h : xs.length = ys.length) :
    (addBytes xs ys).length = ys.length := by
  rw [addBytes, List.length_zipWith, h, Nat.min_self]

/-- The buffer with delta added, in two steps. -/
theorem addBytes_steps {buf delta : Bytes} {n k : Nat} (hbuf : offset + (n + k) ≤ buf.length)
    (hdelta : n ≤ delta.length) (buf' : Bytes)
    (hbuf' : buf' = splice buf offset (addBytes (slice buf offset n) (delta.take n))) :
    splice buf' (offset + n) (addBytes (slice buf' (offset + n) k) ((delta.drop n).take k)) =
      splice buf offset (addBytes (slice buf offset (n + k)) (delta.take (n + k))) := by
  have hleft : (slice buf offset n).length = (delta.take n).length := by
    rw [length_slice (by omega), List.length_take, Nat.min_eq_left hdelta]
  have hlen : (addBytes (slice buf offset n) (delta.take n)).length = n := by
    rw [length_addBytes hleft, List.length_take, Nat.min_eq_left hdelta]
  have hafter : slice buf' (offset + n) k = slice buf (offset + n) k := by
    rw [hbuf', slice_splice_after (by omega) (by omega)]
  have hsplit : addBytes (slice buf offset (n + k)) (delta.take (n + k)) =
      addBytes (slice buf offset n) (delta.take n) ++
        addBytes (slice buf (offset + n) k) ((delta.drop n).take k) := by
    rw [slice_append, List.take_add, addBytes, List.zipWith_append hleft]
    rfl
  rw [hafter, hsplit, hbuf', ← splice_append (by omega), hlen]

theorem overlayAdd_spec (hdlt : 0 < dlt) (hrounds : add ≤ rounds)
    (hbuf : offset + add ≤ m.buf.length) :
    Triple (· = m) (overlayAdd dlt rounds offset add)
      (fun _ m' => add ≤ m.delta.length ∧ m' = { m with
        buf := splice m.buf offset (addBytes (slice m.buf offset add) (m.delta.take add))
        delta := m.delta.drop add })
      (fun _ m' => m.delta.length < add ∧ m'.target = m.target) A := by
  induction rounds generalizing m offset add with
  | zero =>
    obtain rfl : add = 0 := Nat.eq_zero_of_le_zero hrounds
    refine Triple.pure fun s hs => ⟨Nat.zero_le _, ?_⟩
    rw [hs, slice_zero, addBytes, List.zipWith_nil_left, splice_nil, List.drop_zero]
  | succ rounds ih =>
    cases add with
    | zero =>
      refine Triple.pure fun s hs => ⟨Nat.zero_le _, ?_⟩
      rw [hs, slice_zero, addBytes, List.zipWith_nil_left, splice_nil, List.drop_zero]
    | succ left =>
      unfold overlayAdd
      dsimp only
      generalize hlen : min (left + 1) dlt = len
      have hpos : 0 < len ∧ len ≤ left + 1 := by omega
      refine Triple.bind (readDelta_spec.conseq (fun _ hs => hs) (fun _ _ hs => hs)
        (fun _ s hs => ⟨Nat.lt_of_lt_of_le hs.1 hpos.2, hs.2⟩) fun _ => id) fun bytes => ?_
      rintro s ⟨hdelta, rfl, rfl⟩
      refine (?_ : Triple (· = { m with delta := m.delta.drop len }) _ _ _ _) _ rfl
      refine Triple.get_bind fun s hs => ?_
      subst hs
      refine Triple.bind (Q := fun _ t => t = { m with delta := m.delta.drop len })
        (Triple.require (fun _ _ hs => hs) fun hc =>
          absurd (by dsimp only; omega) (of_decide_eq_false hc)) fun _ => ?_
      have hbytes : (addBytes (slice m.buf offset len) (m.delta.take len)).length = len := by
        have htake : (m.delta.take len).length = len := by
          rw [List.length_take, Nat.min_eq_left hdelta]
        rw [length_addBytes (by rw [htake, length_slice (by omega)]), htake]
      refine Triple.bind (writeBuf_spec (by dsimp only; rw [hbytes]; omega)) fun _ => ?_
      dsimp only
      refine (ih (m := { m with
        delta := m.delta.drop len
        buf := splice m.buf offset (addBytes (slice m.buf offset len) (m.delta.take len)) })
        (by omega) ?_).conseq (fun _ hs => hs) (fun _ s hs => ?_) (fun _ s hs => ?_) fun _ => id
      · dsimp only
        rw [length_splice (by rw [hbytes]; omega)]
        omega
      · obtain ⟨hrest, rfl⟩ := hs
        dsimp only at hrest ⊢
        rw [List.length_drop] at hrest
        have hsum : len + (left + 1 - len) = left + 1 := by omega
        refine ⟨by omega, ?_⟩
        rw [addBytes_steps (by omega) hdelta _ rfl, List.drop_drop, hsum]
      · obtain ⟨hrest, htarget⟩ := hs
        dsimp only at hrest
        rw [List.length_drop] at hrest
        exact ⟨by omega, htarget⟩

end Add

/-! ## 3. A batch -/

/-- The records of a batch are in the buffer, as the reference algorithm makes them. -/
structure Overlaid (m : Context) (cs : List Control) (pos : Int) (offset : Nat) (out : Bytes)
    (s : Place) (m' : Context) : Prop where
  patch : patchControls m.source cs ⟨m.delta, m.extra, pos⟩ = (out, some s)
  length : out.length = total cs
  pos : s.pos = posAfter cs pos
  state : m' = { m with buf := splice m.buf offset out, delta := s.delta, extra := s.extra }

/-- A record of a batch lacks bytes. -/
structure Lacking (m : Context) (cs : List Control) (pos : Int) (m' : Context) : Prop where
  patch : (patchControls m.source cs ⟨m.delta, m.extra, pos⟩).2 = none
  target : m'.target = m.target

section Overlay

variable {A : Panic → Prop} {m m' : Context} {ctrl : Control} {cs : List Control} {pos : Int}
  {offset : Nat} {out : Bytes} {s s' : Place}

theorem patchControls_none {source : Bytes} (h : ¬Supplied source ctrl s) :
    (patchControls source (ctrl :: cs) s).2 = none := by
  have hnone := patch_eq_none h
  rcases hpatch : patchControl source ctrl s with ⟨out, next⟩
  rw [hpatch] at hnone
  simp only [patchControls, hpatch]
  rw [show next = none from hnone]

theorem patchControls_supplied {source : Bytes} (h : Supplied source ctrl s) :
    patchControls source (ctrl :: cs) s =
      (addBytes (slice source s.pos.toNat ctrl.add) (s.delta.take ctrl.add) ++
        s.extra.take ctrl.copy ++ (patchControls source cs (ctrl.next s)).1,
        (patchControls source cs (ctrl.next s)).2) := by
  simp only [patchControls, h.patch]

theorem length_supplied {source : Bytes} (h : Supplied source ctrl s) :
    (addBytes (slice source s.pos.toNat ctrl.add) (s.delta.take ctrl.add)).length = ctrl.add ∧
      (s.extra.take ctrl.copy).length = ctrl.copy := by
  have htake : (s.delta.take ctrl.add).length = ctrl.add := by
    rw [List.length_take, Nat.min_eq_left h.delta]
  have hslice : (slice source s.pos.toNat ctrl.add).length = ctrl.add := by
    rcases Nat.eq_zero_or_pos ctrl.add with hzero | hadd
    · rw [hzero]
      rfl
    · obtain ⟨hpos, hle⟩ := h.add hadd
      exact length_slice (by omega)
  refine ⟨?_, by rw [List.length_take, Nat.min_eq_left h.extra]⟩
  rw [length_addBytes (hslice.trans htake.symm), htake]

/-- One record is in the buffer, and then those after it. -/
theorem Overlaid.cons {u : Context}
    (hsupplied : Supplied m.source ctrl ⟨m.delta, m.extra, pos⟩)
    (hbuf : offset + ctrl.add + ctrl.copy ≤ m.buf.length)
    (hu : u = { m with
      buf := splice m.buf offset (addBytes (slice m.source pos.toNat ctrl.add)
        (m.delta.take ctrl.add) ++ m.extra.take ctrl.copy)
      delta := m.delta.drop ctrl.add
      extra := m.extra.drop ctrl.copy })
    (h : Overlaid u cs (pos + ctrl.add + ctrl.seek) (offset + ctrl.add + ctrl.copy) out s m') :
    Overlaid m (ctrl :: cs) pos offset (addBytes (slice m.source pos.toNat ctrl.add)
      (m.delta.take ctrl.add) ++ m.extra.take ctrl.copy ++ out) s m' := by
  subst hu
  obtain ⟨hpatch, hlength, hpos, hstate⟩ := h
  obtain ⟨hadd, hcopy⟩ := length_supplied hsupplied
  dsimp only at hpatch hstate hadd hcopy
  have hlen : (addBytes (slice m.source pos.toNat ctrl.add) (m.delta.take ctrl.add) ++
      m.extra.take ctrl.copy).length = ctrl.add + ctrl.copy := by
    rw [List.length_append, hadd, hcopy]
  refine ⟨?_, ?_, hpos, ?_⟩
  · rw [patchControls_supplied hsupplied]
    show (_ ++ (patchControls m.source cs ⟨m.delta.drop ctrl.add, m.extra.drop ctrl.copy, _⟩).1,
      (patchControls m.source cs ⟨m.delta.drop ctrl.add, m.extra.drop ctrl.copy, _⟩).2) = _
    rw [hpatch]
  · rw [List.length_append, hlen, hlength, total_cons]
  · have hjoin := @splice_append _ m.buf (addBytes (slice m.source pos.toNat ctrl.add)
      (m.delta.take ctrl.add) ++ m.extra.take ctrl.copy) offset out (by omega)
    rw [hlen] at hjoin
    rw [hstate, Nat.add_assoc, hjoin]

theorem Lacking.cons {u : Context} (hsupplied : Supplied m.source ctrl ⟨m.delta, m.extra, pos⟩)
    (hsource : u.source = m.source) (hdelta : u.delta = m.delta.drop ctrl.add)
    (hextra : u.extra = m.extra.drop ctrl.copy) (htarget : u.target = m.target)
    (h : Lacking u cs (pos + ctrl.add + ctrl.seek) m') : Lacking m (ctrl :: cs) pos m' := by
  obtain ⟨hpatch, hsame⟩ := h
  rw [hsource, hdelta, hextra] at hpatch
  refine ⟨?_, hsame.trans htarget⟩
  rw [patchControls_supplied hsupplied]
  exact hpatch

theorem overlayFrom_spec (hdlt : 0 < m.dlt) (hpos : FitsI64 pos) (hfits : PositionsFit cs pos)
    (hsource : m.source.length < 2 ^ 63) (hbuf : offset + total cs ≤ m.buf.length)
    (hlanded : Landed m.source m.buf (readsOf cs pos offset)) :
    Triple (· = m) (overlayFrom offset (segmentsOf cs))
      (fun _ m' => ∃ out s, Overlaid m cs pos offset out s m') (fun _ => Lacking m cs pos) A := by
  induction cs generalizing m pos offset with
  | nil =>
    refine Triple.pure fun t ht => ⟨[], ⟨m.delta, m.extra, pos⟩, rfl, rfl, rfl, ?_⟩
    rw [splice_nil, ht]
  | cons ctrl cs ih =>
    obtain ⟨hadd, hseek, hrest⟩ := hfits
    obtain ⟨hinside, hbytes⟩ := hlanded.slice_eq hpos hsource
    rw [total_cons] at hbuf
    have hlater : Landed m.source m.buf
        (readsOf cs (pos + ctrl.add + ctrl.seek) (offset + ctrl.add + ctrl.copy)) :=
      fun r hr => hlanded r (List.mem_append_right _ hr)
    rw [segmentsOf_cons]
    by_cases hsome : 0 < ctrl.add ∨ 0 < ctrl.copy
    · rw [if_pos hsome, List.singleton_append, overlayFrom]
      refine Triple.get_bind fun u hu => ?_
      subst hu
      refine Triple.bind ((overlayAdd_spec hdlt (Nat.le_refl _) (by omega)).conseq
        (fun _ hs => hs) (fun _ _ hs => hs) (fun _ v hv => ?_) fun _ => id) fun _ => ?_
      · exact ⟨patchControls_none fun h => Nat.not_le.2 hv.1 h.delta, hv.2⟩
      rintro v ⟨hdelta, rfl⟩
      refine (?_ : Triple (· = { u with
        buf := splice u.buf offset (addBytes (slice u.buf offset ctrl.add) (u.delta.take ctrl.add))
        delta := u.delta.drop ctrl.add }) _ _ _ _) _ rfl
      rw [hbytes]
      refine Triple.bind (readExtra_spec.conseq (fun _ hs => hs) (fun _ _ hs => hs)
        (fun _ v hv => ?_) fun _ => id) fun bytes => ?_
      · exact ⟨patchControls_none fun h => Nat.not_le.2 hv.1 h.extra, hv.2⟩
      rintro v ⟨hextra, rfl, rfl⟩
      have hsupplied : Supplied u.source ctrl ⟨u.delta, u.extra, pos⟩ := ⟨hinside, hdelta, hextra⟩
      obtain ⟨hlenAdd, hlenCopy⟩ := length_supplied hsupplied
      dsimp only at hlenAdd hlenCopy hextra ⊢
      generalize hA : addBytes (slice u.source pos.toNat ctrl.add) (u.delta.take ctrl.add) = A'
        at *
      generalize hE : u.extra.take ctrl.copy = E' at *
      have hjoin := @splice_append _ u.buf A' offset E' (by omega)
      rw [hlenAdd] at hjoin
      have hlen : (splice u.buf offset A').length = u.buf.length := length_splice (by omega)
      have hlen' : (splice u.buf offset (A' ++ E')).length = u.buf.length :=
        length_splice (by rw [List.length_append]; omega)
      refine (?_ : Triple (· = { u with
        buf := splice u.buf offset A'
        delta := u.delta.drop ctrl.add
        extra := u.extra.drop ctrl.copy }) _ _ _ _) _ rfl
      refine Triple.bind (writeBuf_spec (by dsimp only; omega)) fun _ => ?_
      dsimp only
      rw [hjoin]
      refine (ih (m := { u with
        buf := splice u.buf offset (A' ++ E')
        delta := u.delta.drop ctrl.add
        extra := u.extra.drop ctrl.copy }) hdlt hseek hrest hsource (by dsimp only; omega)
        ?_).conseq (fun _ hs => hs) (fun _ v hv => ?_) (fun _ v hv => ?_) fun _ => id
      · intro r hr
        obtain ⟨hend, hslice⟩ := hlater r hr
        have hbounds := readsOf_bounds hr
        refine ⟨hend, ?_⟩
        rw [← hslice]
        exact slice_splice_after (by omega) (by rw [List.length_append]; omega)
      · obtain ⟨out, s, h⟩ := hv
        refine ⟨A' ++ E' ++ out, s, ?_⟩
        rw [← hA, ← hE]
        exact Overlaid.cons hsupplied (by omega) (by rw [hA, hE]) h
      · refine Lacking.cons hsupplied ?_ ?_ ?_ ?_ hv <;> rfl
    · obtain ⟨hzero, hnone⟩ : ctrl.add = 0 ∧ ctrl.copy = 0 := by omega
      have hsupplied : Supplied m.source ctrl ⟨m.delta, m.extra, pos⟩ :=
        ⟨hinside, hzero ▸ Nat.zero_le _, hnone ▸ Nat.zero_le _⟩
      have hsame : m = { m with
          buf := splice m.buf offset (addBytes (slice m.source pos.toNat ctrl.add)
            (m.delta.take ctrl.add) ++ m.extra.take ctrl.copy)
          delta := m.delta.drop ctrl.add
          extra := m.extra.drop ctrl.copy } := by
        rw [hzero, hnone, slice_zero, addBytes, List.zipWith_nil_left, List.take_zero,
          List.append_nil, splice_nil, List.drop_zero, List.drop_zero]
      rw [if_neg hsome, List.nil_append]
      have hoffset : offset = offset + ctrl.add + ctrl.copy := by omega
      have hrun := @ih m _ (offset + ctrl.add + ctrl.copy) hdlt hseek hrest hsource (by omega) hlater
      rw [← hoffset] at hrun
      refine hrun.conseq (fun _ hs => hs) (fun _ v hv => ?_) (fun _ v hv => ?_) fun _ => id
      · obtain ⟨out, s, h⟩ := hv
        rw [hoffset] at h
        exact ⟨_, s, Overlaid.cons hsupplied (by omega) hsame h⟩
      · refine hv.cons hsupplied rfl ?_ ?_ rfl
        · rw [hzero, List.drop_zero]
        · rw [hnone, List.drop_zero]

end Overlay

end Qbsdiff
