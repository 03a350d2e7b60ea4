import KeyOS.Qbsdiff.Overlay

/-!
# Batched patching is plain patching

The batches make what the reference algorithm makes, as long as no sum of positions or lengths
leaves its type. Where one does, a build that checks arithmetic panics, and one that does not may
take other bytes of the source for those of the record.
-/

namespace Qbsdiff

open Exec Prog Slices

/-! ## 1. What is asked of a patch -/

/-- The outcome is that of the reference algorithm. -/
def Ideal (B : Build) (input : Input) : Prop :=
  match apply B input with
  | (.ok count, m) => (reference input).2 = true ∧ m.target = (reference input).1 ∧
      count = m.target.length
  | (.err _, m) => (reference input).2 = false ∧ m.target <+: (reference input).1
  | (.panic _, _) => False

section Lengths

variable {source out : Bytes} {ctrl : Control} {cs : List Control} {s s' : Place} {n : Nat}

/-- The target bytes of the records come out of the delta and the extra bytes. -/
theorem length_patchControls (h : patchControls source cs s = (out, some s')) :
    s'.delta.length + s'.extra.length + total cs = s.delta.length + s.extra.length := by
  induction cs generalizing s out with
  | nil =>
    cases h
    rfl
  | cons ctrl cs ih =>
    by_cases hsupplied : Supplied source ctrl s
    · rw [patchControls_supplied hsupplied] at h
      have hsome : (patchControls source cs (ctrl.next s)).2 = some s' := congrArg Prod.snd h
      have hrest := ih (s := ctrl.next s) (Prod.ext rfl hsome)
      have hdelta : (ctrl.next s).delta.length = s.delta.length - ctrl.add := List.length_drop
      have hextra : (ctrl.next s).extra.length = s.extra.length - ctrl.copy := List.length_drop
      have hadd := hsupplied.delta
      have hcopy := hsupplied.extra
      rw [total_cons]
      omega
    · have hnone := @patchControls_none _ cs _ _ hsupplied
      rw [h] at hnone
      cases hnone

/-- Records without bytes make nothing. -/
theorem patchControls_of_total (h : total cs = 0) :
    ∃ s', patchControls source cs s = ([], some s') := by
  induction cs generalizing s with
  | nil => exact ⟨s, rfl⟩
  | cons ctrl cs ih =>
    rw [total_cons] at h
    have hsupplied : Supplied source ctrl s := ⟨by omega, by omega, by omega⟩
    obtain ⟨s', hrest⟩ := ih (s := ctrl.next s) (by omega)
    obtain ⟨hadd, hcopy⟩ := length_supplied hsupplied
    refine ⟨s', ?_⟩
    rw [patchControls_supplied hsupplied, hrest, List.eq_nil_of_length_eq_zero (hadd.trans (by omega)),
      List.eq_nil_of_length_eq_zero (hcopy.trans (by omega))]
    rfl

/-- What a batch and the records after it make. -/
theorem patchControls_batch (h : patchControls source (cut n cs).1 s = (out, some s')) :
    patchControls source cs s =
      (out ++ (patchControls source (cut n cs).2 s').1, (patchControls source (cut n cs).2 s').2) := by
  rw [← patchControls_cut (n := n), patchControls_append, h]

theorem patchControls_batch_none (h : (patchControls source (cut n cs).1 s).2 = none) :
    (patchControls source cs s).2 = none := by
  rcases hpatch : patchControls source (cut n cs).1 s with ⟨out, next⟩
  rw [hpatch] at h
  obtain rfl : next = none := h
  rw [← patchControls_cut (n := n), patchControls_append, hpatch]

end Lengths

/-! ## 2. The sums of a patch -/

/-- No sum leaves its type in any of the batches that the patch comes to: neither the positions of
the records, nor where the reads and the runs end, nor the count of the target bytes. -/
def BatchesFit (sort : List SourceRead → List SourceRead) (input : Input) (cs : List Control)
    (s : Place) (count : Nat) : Prop :=
  PositionsFit (cut (atLeast128 input.bufferSize) cs).1 s.pos ∧
    if 0 < total (cut (atLeast128 input.bufferSize) cs).1 then
      (total (cut (atLeast128 input.bufferSize) cs).1 < atLeast128 input.bufferSize →
        input.ctrls.length % 24 = 0) →
      RunsFit input.source.length input.scratch.length
          (sort (readsOf (cut (atLeast128 input.bufferSize) cs).1 s.pos 0)) ∧
        ∀ s', (patchControls input.source (cut (atLeast128 input.bufferSize) cs).1 s).2 = some s' →
          count + total (cut (atLeast128 input.bufferSize) cs).1 < 2 ^ 64 ∧
            BatchesFit sort input (cut (atLeast128 input.bufferSize) cs).2 s'
              (count + total (cut (atLeast128 input.bufferSize) cs).1)
    else True
termination_by total cs
decreasing_by
  have hcut := @total_cut cs (atLeast128 input.bufferSize)
  omega

section Apply

variable {B : Build} {A : Panic → Prop} {input : Input} {m m' : Context} {rounds : Nat}

/-- Where the reference algorithm stands when a batch begins. -/
def Context.place (m : Context) : Place := ⟨m.delta, m.extra, m.sourcePos⟩

/-- Between two batches. -/
structure Standing (input : Input) (m : Context) : Prop where
  source : m.source = input.source
  buf : m.buf.length = atLeast128 input.bufferSize
  dlt : 0 < m.dlt
  scratch : m.scratch.length = input.scratch.length
  aligned : m.ctrls.length % 24 = input.ctrls.length % 24
  pos : FitsI64 m.sourcePos
  total : m.total = m.target.length

/-- The patch has ended, and all of its target has been written. -/
structure Finished (input : Input) (m : Context) (count : Nat) (m' : Context) : Prop where
  patch : (patchControls input.source (controlsOf m) m.place).2.isSome
  aligned : input.ctrls.length % 24 = 0
  target : m'.target = m.target ++ (patchControls input.source (controlsOf m) m.place).1
  count : count = m'.target.length

/-- The patch has run out of bytes, and a beginning of its target has been written. -/
structure Failed (input : Input) (m m' : Context) : Prop where
  patch : (patchControls input.source (controlsOf m) m.place).2 = none ∨
    input.ctrls.length % 24 ≠ 0
  target : ∃ out, out <+: (patchControls input.source (controlsOf m) m.place).1 ∧
    m'.target = m.target ++ out

theorem atLeast128_pos (size : Nat) : 0 < atLeast128 size := by
  unfold atLeast128
  split <;> omega

theorem Failed.of_same (hpatch : (patchControls input.source (controlsOf m) m.place).2 = none ∨
    input.ctrls.length % 24 ≠ 0) (htarget : m'.target = m.target) : Failed input m m' :=
  ⟨hpatch, [], List.nil_prefix, by rw [htarget, List.append_nil]⟩

/-- What the gathering of a batch finds outside the source, the reference algorithm finds too. -/
theorem Outside.lacking {cs : List Control} {t : Context} (hsource : m.source.length < 2 ^ 63)
    (hpos : FitsI64 m.sourcePos) (hfits : PositionsFit cs m.sourcePos)
    (h : Outside t (B.sort (readsOf cs m.sourcePos 0)) m') (ht : t.source = m.source) :
    (patchControls m.source cs m.place).2 = none := by
  obtain ⟨read, hread, hlt⟩ := h.read
  rw [ht] at hlt
  cases hpatch : (patchControls m.source cs m.place).2 with
  | none => rfl
  | some s =>
    have hmem := (B.sort_perm _).mem_iff.1 hread
    exact absurd (reads_inside (s := m.place) hpos hfits hsource hpatch hmem) (Nat.not_le.2 hlt)

/-- What has been gathered has landed. -/
theorem Gathered.landed {cs : List Control} {pos : Int}
    (hbuf : total cs ≤ m.buf.length) (h : Gathered m (B.sort (readsOf cs pos 0)) m') :
    Landed m'.source m'.buf (readsOf cs pos 0) ∧ m'.buf.length = m.buf.length := by
  have hperm := B.sort_perm (readsOf cs pos 0)
  have hinside : Inside m.source.length m.buf.length (B.sort (readsOf cs pos 0)) := by
    intro read hread
    have hbounds := readsOf_bounds (hperm.mem_iff.1 hread)
    exact ⟨h.inside read hread, by omega⟩
  have hapart : (B.sort (readsOf cs pos 0)).Pairwise Apart :=
    (hperm.pairwise_iff fun hab => hab.symm).2 readsOf_apart
  have hsource : m'.source = m.source := by rw [h.state]
  have hgathered : m'.buf = (B.sort (readsOf cs pos 0)).foldl (land m.source) m.buf := by
    rw [h.state]
  rw [hsource, hgathered, length_foldl_land hinside]
  refine ⟨fun read hread => ⟨h.inside read (hperm.mem_iff.2 hread), ?_⟩, rfl⟩
  exact slice_foldl_land hinside hapart (hperm.mem_iff.2 hread)

/-- A batch has been written, and then the rest. -/
theorem Finished.of_batch {out : Bytes} {count : Nat} {w : Context}
    (hbatch : patchControls input.source (controlsOf m) m.place =
      (out ++ (patchControls input.source (controlsOf w) w.place).1,
        (patchControls input.source (controlsOf w) w.place).2))
    (htarget : w.target = m.target ++ out) (h : Finished input w count m') :
    Finished input m count m' := by
  obtain ⟨hpatch, haligned, hwritten, hcount⟩ := h
  refine ⟨?_, haligned, ?_, hcount⟩
  · rw [hbatch]
    exact hpatch
  · rw [hwritten, htarget, hbatch, List.append_assoc]

theorem Failed.of_batch {out : Bytes} {w : Context}
    (hbatch : patchControls input.source (controlsOf m) m.place =
      (out ++ (patchControls input.source (controlsOf w) w.place).1,
        (patchControls input.source (controlsOf w) w.place).2))
    (htarget : w.target = m.target ++ out) (h : Failed input w m') : Failed input m m' := by
  obtain ⟨hpatch, rest, hrest, hwritten⟩ := h
  refine ⟨?_, out ++ rest, ?_, ?_⟩
  · rw [hbatch]
    exact hpatch
  · rw [hbatch]
    exact (List.prefix_append_right_inj out).2 hrest
  · rw [hwritten, htarget, List.append_assoc]

theorem applyRounds_spec (hm : Standing input m)
    (hrounds : m.delta.length + m.extra.length < rounds)
    (h : Guarded B A (BatchesFit B.sort input (controlsOf m) m.place m.total)) :
    Triple (· = m) (applyRounds B rounds)
      (fun count m' => BatchesFit B.sort input (controlsOf m) m.place m.total ∧
        Finished input m count m')
      (fun _ m' => BatchesFit B.sort input (controlsOf m) m.place m.total ∧ Failed input m m') A := by
  induction rounds generalizing m with
  | zero => exact absurd hrounds (Nat.not_lt_zero _)
  | succ rounds ih =>
    have hsource : m.source.length < 2 ^ 63 := by
      rw [hm.source]
      exact input.source_short
    have hbsize := atLeast128_pos input.bufferSize
    have hfull := @total_cut_eq (controlsOf m) (atLeast128 input.bufferSize)
    have hplan := plan_spec (B := B) (A := A) (m := m) hm.pos
    have hbatch := fun out s' => @patchControls_batch input.source out (controlsOf m)
      m.place s' (atLeast128 input.bufferSize)
    have hnone := @patchControls_batch_none input.source (controlsOf m) m.place
      (atLeast128 input.bufferSize)
    rw [BatchesFit] at h ⊢
    rw [hm.buf] at hplan
    generalize hcut : cut (atLeast128 input.bufferSize) (controlsOf m) = batch at *
    refine Triple.bind ((hplan (h.mono And.left)).conseq (fun _ hs => hs) (fun _ _ hs => hs)
      (fun _ t ht => ?_) fun _ => id) fun planned => ?_
    · obtain ⟨hfits, htarget, hshort, hbroken⟩ := ht
      rw [Nat.sub_zero, hm.buf, hcut] at hfits hshort
      rw [hm.aligned] at hbroken
      refine ⟨⟨hfits, ?_⟩, .of_same (.inr hbroken) htarget⟩
      split
      · exact fun haligned => absurd (haligned hshort) hbroken
      · trivial
    · intro t ht
      obtain ⟨hfits, hplanned, hout, hleft, hpos, haligned, hended⟩ := ht
      rw [Nat.sub_zero, hm.buf, hcut] at hfits hout hleft hpos hended
      rw [hm.aligned] at hended haligned
      have hused : planned.used = total batch.1 := by
        rw [hout]
        exact Nat.zero_add _
      have hreads : planned.reads = readsOf batch.1 m.sourcePos 0 := by
        rw [hout]
        rfl
      have hsegments : planned.segments = segmentsOf batch.1 := by
        rw [hout]
        rfl
      refine (?_ : Triple (· = t) _ _ _ _) t rfl
      refine Triple.ite (fun hzero => ?_) fun hsome => ?_
      · rw [hused] at hzero
        obtain ⟨hshort, hnil⟩ := hfull.resolve_left (by omega)
        obtain ⟨s', hpatch⟩ := @patchControls_of_total input.source _ m.place hzero
        have hwhole := hbatch [] s' hpatch
        rw [hnil] at hwhole
        refine Triple.get_bind fun u hu => Triple.pure fun v hv => ?_
        subst hu hv
        have htarget : v.target = m.target := by rw [hplanned]
        refine ⟨⟨hfits, ?_⟩, ?_, hended hshort, ?_, ?_⟩
        · rw [if_neg (by omega)]
          trivial
        · rw [hwhole]
          rfl
        · rw [hwhole, htarget]
          exact (List.append_nil _).symm
        · rw [hplanned]
          exact hm.total
      · rw [hused] at hsome
        have hpositive : 0 < total batch.1 := Nat.pos_of_ne_zero hsome
        rw [if_pos hpositive] at h ⊢
        have hroom : total batch.1 ≤ atLeast128 input.bufferSize := by omega
        have hsame : t.source = m.source ∧ t.buf = m.buf ∧ t.delta = m.delta ∧ t.extra = m.extra ∧
            t.dlt = m.dlt ∧ t.scratch = m.scratch ∧ t.target = m.target ∧ t.total = m.total := by
          rw [hplanned]
          exact ⟨rfl, rfl, rfl, rfl, rfl, rfl, rfl, rfl⟩
        obtain ⟨htsource, htbuf, htdelta, htextra, htdlt, htscratch, httarget, httotal⟩ := hsame
        have hgather := @gather_spec B A t
          (readsOf batch.1 m.sourcePos 0) (htsource ▸ hsource)
          (fun read hread => by
            have hbounds := readsOf_bounds hread
            rw [htbuf, hm.buf]
            omega)
          (h.mono fun h => by
            rw [htsource, hm.source, htscratch, hm.scratch]
            exact (h.2 hended).1)
        rw [hreads, hsegments, hused]
        refine Triple.bind (hgather.conseq (fun _ hs => hs) (fun _ _ hs => hs)
          (fun _ u hu => ?_) fun _ => id) fun _ u hu => ?_
        · have hlacking := hu.lacking hsource hm.pos hfits htsource
          have hruns := hu.fits
          rw [htsource, hm.source, htscratch, hm.scratch] at hruns
          rw [hm.source] at hlacking
          refine ⟨⟨hfits, fun _ => ⟨hruns, fun s' hs' => ?_⟩⟩, .of_same (.inl (hnone hlacking)) ?_⟩
          · exact absurd (hlacking.symm.trans hs') nofun
          · rw [hu.target, httarget]
        · have hruns := hu.fits
          rw [htsource, hm.source, htscratch, hm.scratch] at hruns
          obtain ⟨hlanded, hulen⟩ := hu.gathered.landed (by rw [htbuf, hm.buf]; exact hroom)
          have hustate := hu.gathered.state
          have huscratch := hu.gathered.scratch
          have husource : u.source = m.source := by rw [hustate, htsource]
          have hudelta : u.delta = m.delta := by rw [hustate, htdelta]
          have huextra : u.extra = m.extra := by rw [hustate, htextra]
          have hudlt : u.dlt = m.dlt := by rw [hustate, htdlt]
          have hutarget : u.target = m.target := by rw [hustate, httarget]
          have hutotal : u.total = m.total := by rw [hustate, httotal]
          rw [htbuf, hm.buf] at hulen
          refine (?_ : Triple (· = u) _ _ _ _) u rfl
          refine Triple.bind ((overlayFrom_spec (hudlt ▸ hm.dlt) hm.pos hfits
            (husource ▸ hsource) (by rw [hulen, Nat.zero_add]; exact hroom) hlanded).conseq
            (fun _ hs => hs) (fun _ _ hs => hs) (fun _ v hv => ?_) fun _ => id) fun _ => ?_
          · have hlacking := hv.patch
            rw [husource, hudelta, huextra, hm.source] at hlacking
            refine ⟨⟨hfits, fun _ => ⟨hruns, fun s' hs' => ?_⟩⟩, .of_same (.inl (hnone hlacking)) ?_⟩
            · exact absurd (hlacking.symm.trans hs') nofun
            · rw [hv.target, hutarget]
          rintro v ⟨out, s, hpatch, hlength, hspos, hv⟩
          rw [husource, hudelta, huextra, hm.source] at hpatch
          have hwritten : v.buf.take (total batch.1) = out := by
            rw [hv, ← hlength]
            exact take_splice_zero
          refine (?_ : Triple (· = v) _ _ _ _) v rfl
          refine Triple.bind (Q := fun _ w => w = { v with target := m.target ++ out })
            (Triple.modify fun w hw => ?_) fun _ => ?_
          · rw [hw, hwritten, hv, hutarget]
          refine Triple.get_bind fun w hw => ?_
          subst hw
          have hvtotal : v.total = m.total := by rw [hv, hutotal]
          have hnext : (patchControls input.source batch.1 m.place).2 = some s :=
            congrArg Prod.snd hpatch
          have hg := h.mono fun h => (h.2 hended).2 s hnext
          refine Triple.bind (addU64_spec (hvtotal ▸ hg.mono And.left)) fun count => ?_
          rintro w ⟨hcount, rfl, rfl⟩
          refine (?_ : Triple (· = { v with target := m.target ++ out }) _ _ _ _) _ rfl
          refine Triple.bind (Q := fun _ w => w = { v with
            target := m.target ++ out
            total := v.total + total batch.1 }) (Triple.modify fun w hw => by rw [hw]) fun _ => ?_
          have hplace : Context.place { v with
              target := m.target ++ out
              total := v.total + total batch.1 } = s := by
            have hvpos : v.sourcePos = t.sourcePos := by rw [hv, hustate]
            have hvdelta : v.delta = s.delta := by rw [hv]
            have hvextra : v.extra = s.extra := by rw [hv]
            show (⟨v.delta, v.extra, v.sourcePos⟩ : Place) = s
            rw [hvdelta, hvextra, hvpos, hpos, ← hspos]
          have hcontrols : controlsOf { v with
              target := m.target ++ out
              total := v.total + total batch.1 } = batch.2 := by
            rw [← hleft, hv, hustate]
            rfl
          have hwhole := hbatch out s hpatch
          rw [← hplace, ← hcontrols] at hwhole
          refine (ih (m := { v with
            target := m.target ++ out
            total := v.total + total batch.1 }) ?_ ?_ ?_).conseq (fun _ hs => hs)
              (fun _ w hw => ?_) (fun _ w hw => ?_) fun _ => id
          · refine ⟨?_, ?_, ?_, ?_, ?_, ?_, ?_⟩
            · rw [hv]
              exact husource.trans hm.source
            · rw [hv]
              refine (length_splice ?_).trans hulen
              omega
            · rw [hv]
              exact hudlt ▸ hm.dlt
            · rw [hv]
              exact huscratch.trans (htscratch ▸ hm.scratch)
            · rw [hv, hustate]
              exact haligned
            · rw [hv, hustate]
              show FitsI64 t.sourcePos
              rw [hpos]
              exact fits_posAfter hm.pos hfits
            · show v.total + total batch.1 = (m.target ++ out).length
              rw [List.length_append, hlength, hvtotal, hm.total]
          · have hconsumed := length_patchControls hpatch
            have hvdelta : v.delta = s.delta := by rw [hv]
            have hvextra : v.extra = s.extra := by rw [hv]
            show v.delta.length + v.extra.length < rounds
            rw [hvdelta, hvextra]
            dsimp only at hconsumed
            omega
          · rw [hcontrols, hplace, hvtotal]
            exact hg.mono And.right
          · obtain ⟨hrest, hfinished⟩ := hw
            rw [hcontrols, hplace, hvtotal] at hrest
            refine ⟨⟨hfits, fun _ => ⟨hruns, fun s' hs' => ?_⟩⟩, hfinished.of_batch hwhole rfl⟩
            obtain rfl : s = s' := Option.some.inj (hnext.symm.trans hs')
            exact ⟨hvtotal ▸ hcount, hrest⟩
          · obtain ⟨hrest, hfailed⟩ := hw
            rw [hcontrols, hplace, hvtotal] at hrest
            refine ⟨⟨hfits, fun _ => ⟨hruns, fun s' hs' => ?_⟩⟩, hfailed.of_batch hwhole rfl⟩
            obtain rfl : s = s' := Option.some.inj (hnext.symm.trans hs')
            exact ⟨hvtotal ▸ hcount, hrest⟩

end Apply

/-! ## 3. The whole patch -/

section Whole

variable {B : Build} {A : Panic → Prop} {input : Input}

theorem standing_context : Standing input input.context where
  source := rfl
  buf := List.length_replicate
  dlt := Nat.lt_min.2 ⟨atLeast128_pos _, atLeast128_pos _⟩
  scratch := rfl
  aligned := rfl
  pos := (by decide : FitsI64 0)
  total := rfl

/-- The sums of a patch from its beginning. -/
def Fits (B : Build) (input : Input) : Prop :=
  BatchesFit B.sort input (controls input.ctrls) ⟨input.delta, input.extra, 0⟩ 0

theorem apply_spec (h : Guarded B A (Fits B input)) :
    Triple (· = input.context) (applyRounds B (input.delta.length + input.extra.length + 1))
      (fun count m => Fits B input ∧ Finished input input.context count m)
      (fun _ m => Fits B input ∧ Failed input input.context m) A :=
  applyRounds_spec standing_context (Nat.lt_succ_self _) h

theorem ideal_of_fits (h : Fits B input) : Ideal B input := by
  have hrun := apply_spec (A := fun _ => False) (.inr h) input.context rfl
  unfold Ideal apply
  revert hrun
  rcases applyRounds B (input.delta.length + input.extra.length + 1) input.context with ⟨o, m⟩
  cases o with
  | ok count =>
    rintro ⟨-, hpatch, haligned, htarget, hcount⟩
    refine ⟨?_, htarget, hcount⟩
    exact Bool.and_eq_true_iff.2 ⟨hpatch, decide_eq_true haligned⟩
  | err e =>
    rintro ⟨-, hpatch, out, hout, htarget⟩
    refine ⟨?_, ?_⟩
    · refine Bool.and_eq_false_iff.2 (hpatch.imp (fun hnone => ?_) decide_eq_false)
      exact Option.isSome_eq_false_iff.2 (Option.isNone_iff_eq_none.2 hnone)
    · rw [htarget]
      exact hout
  | panic p => exact id

/-- A build that checks its arithmetic panics where a sum leaves its type. -/
theorem fits_of_ideal (hchecks : B.overflowChecks = true) (h : Ideal B input) : Fits B input := by
  have hrun := @apply_spec B (fun _ => True) input (.inl ⟨hchecks, trivial⟩)
    input.context rfl
  unfold Ideal apply at h
  revert hrun h
  rcases applyRounds B (input.delta.length + input.extra.length + 1) input.context with ⟨o, m⟩
  cases o with
  | ok count => exact fun _ hrun => hrun.1
  | err e => exact fun _ hrun => hrun.1
  | panic p => exact fun h _ => h.elim

/-- Patching by batches is plain patching, with and without checks for overflow, if and only if no
sum that the batches come to leaves its type. -/
theorem ideal_iff (B : Build) (input : Input) :
    (∀ checks, Ideal { B with overflowChecks := checks } input) ↔ Fits B input :=
  ⟨fun h => fits_of_ideal (B := { B with overflowChecks := true }) rfl (h true),
    fun h _ => ideal_of_fits h⟩

theorem not_ideal_of_panic {p : Panic} (h : (apply B input).1 = .panic p) : ¬Ideal B input := by
  unfold Ideal
  revert h
  rcases apply B input with ⟨o, m⟩
  rintro rfl
  exact id

theorem not_ideal_of_ok {count : Nat} (h : (apply B input).1 = .ok count)
    (href : (reference input).2 = false) : ¬Ideal B input := by
  unfold Ideal
  revert h
  rcases apply B input with ⟨o, m⟩
  rintro rfl ⟨hcomplete, -⟩
  rw [href] at hcomplete
  cases hcomplete

/-- A build that sorts by insertion. -/
def insertionBuild (checks : Bool) : Build where
  overflowChecks := checks
  sort := List.insertionSort fun a b => a.sourceOffset ≤ b.sourceOffset
  sort_perm := fun reads => List.perm_insertionSort _ reads
  sort_sorted := fun reads =>
    have : Std.Total fun a b : SourceRead => a.sourceOffset ≤ b.sourceOffset :=
      ⟨fun a b => Nat.le_total a.sourceOffset b.sourceOffset⟩
    have : IsTrans SourceRead fun a b => a.sourceOffset ≤ b.sourceOffset :=
      ⟨fun _ _ _ => Nat.le_trans⟩
    List.pairwise_insertionSort _ reads

/-- Two seeks that lead behind `2 ^ 64`, and a record that adds one byte there. -/
def farSeeks : Input where
  source := [5]
  ctrls := ByteStream.le 8 0 ++ ByteStream.le 8 0 ++ ByteStream.le 8 (2 ^ 63 - 1) ++
    (ByteStream.le 8 0 ++ ByteStream.le 8 0 ++ ByteStream.le 8 (2 ^ 63 - 1)) ++
    (ByteStream.le 8 0 ++ ByteStream.le 8 0 ++ ByteStream.le 8 2) ++
    (ByteStream.le 8 1 ++ ByteStream.le 8 0 ++ ByteStream.le 8 0)
  delta := [2]
  extra := []
  bufferSize := 128
  deltaMin := 128
  scratch := []
  source_short := by decide
  buffer_short := by decide

theorem far_seeks_wrap :
    reference farSeeks = ([], false) ∧
      (apply (insertionBuild false) farSeeks).1 = .ok 1 ∧
      (apply (insertionBuild false) farSeeks).2.target = [7] ∧
      (apply (insertionBuild true) farSeeks).1 = .panic .overflow ∧
      ∀ checks, ¬Ideal (insertionBuild checks) farSeeks := by
  have hreference : reference farSeeks = ([], false) := by decide +kernel
  have hok : (apply (insertionBuild false) farSeeks).1 = .ok 1 := by decide +kernel
  have hpanics : (apply (insertionBuild true) farSeeks).1 = .panic .overflow := by decide +kernel
  refine ⟨hreference, hok, by decide +kernel, hpanics, fun checks => ?_⟩
  cases checks with
  | false => exact not_ideal_of_ok hok (congrArg Prod.snd hreference)
  | true => exact not_ideal_of_panic hpanics

end Whole

end Qbsdiff
