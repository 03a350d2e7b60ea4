import KeyOS.Qbsdiff.Reference

/-!
# Planning a batch

A batch takes the records that the buffer has room for, the last one cut, and the next batch opens
with what is left of it.
-/

namespace Qbsdiff

open Exec Prog Slices

/-! ## 1. Arithmetic that may overflow -/

section Arithmetic

variable {B : Build} {A : Panic → Prop} {E : Error → Context → Prop} {m : Context}
  {fits fits' : Prop}

/-- Either the build checks for overflow, and may panic for it, or there is none. -/
def Guarded (B : Build) (A : Panic → Prop) (fits : Prop) : Prop :=
  B.overflowChecks = true ∧ A .overflow ∨ fits

theorem Guarded.mono (h : Guarded B A fits) (himp : fits → fits') : Guarded B A fits' :=
  h.imp_right himp

theorem asI64_asU64 {x : Int} (h : FitsI64 x) : asI64 (asU64 x) = x := by
  obtain ⟨hlow, hhigh⟩ := h
  unfold asI64 asU64
  split <;> omega

theorem asU64_of_nonneg {x : Int} (h : FitsI64 x) (hpos : 0 ≤ x) : asU64 x = x.toNat := by
  obtain ⟨-, hhigh⟩ := h
  unfold asU64
  omega

/-- A position before the source lies behind it. -/
theorem le_asU64_of_neg {x : Int} (h : FitsI64 x) (hneg : x < 0) : 2 ^ 63 ≤ asU64 x := by
  obtain ⟨hlow, -⟩ := h
  unfold asU64
  omega

theorem addI64_spec {a b : Int} (h : Guarded B A (FitsI64 (a + b))) :
    Triple (· = m) (addI64 B a b) (fun r m' => FitsI64 (a + b) ∧ r = a + b ∧ m' = m) E A := by
  refine Triple.bind (Q := fun _ m' => FitsI64 (a + b) ∧ m' = m) ?_ fun _ => ?_
  · refine Triple.require (fun hc s hs => ⟨?_, hs⟩) fun hc => ?_
    · rcases h with ⟨hchecks, -⟩ | hfits
      · rw [hchecks] at hc
        simpa using hc
      · exact hfits
    · rcases h with ⟨-, hA⟩ | hfits
      · exact hA
      · rw [decide_eq_true hfits] at hc
        simp at hc
  · exact Triple.pure fun s hs => ⟨hs.1, asI64_asU64 hs.1, hs.2⟩

theorem addU64_spec {a b : Nat} (h : Guarded B A (a + b < 2 ^ 64)) :
    Triple (· = m) (addU64 B a b) (fun r m' => a + b < 2 ^ 64 ∧ r = a + b ∧ m' = m) E A := by
  refine Triple.bind (Q := fun _ m' => a + b < 2 ^ 64 ∧ m' = m) ?_ fun _ => ?_
  · refine Triple.require (fun hc s hs => ⟨?_, hs⟩) fun hc => ?_
    · rcases h with ⟨hchecks, -⟩ | hfits
      · rw [hchecks] at hc
        simpa using hc
      · exact hfits
    · rcases h with ⟨-, hA⟩ | hfits
      · exact hA
      · rw [decide_eq_false (Nat.not_le.2 hfits)] at hc
        simp at hc
  · exact Triple.pure fun s hs => ⟨hs.1, Nat.mod_eq_of_lt hs.1, hs.2⟩

theorem subU64_spec {a b : Nat} (hle : b ≤ a) (hlt : a < 2 ^ 64) :
    Triple (· = m) (subU64 B a b) (fun r m' => r = a - b ∧ m' = m) E A := by
  refine Triple.bind (Q := fun _ m' => m' = m) ?_ fun _ => ?_
  · refine Triple.require (fun hc s hs => hs) fun hc => ?_
    rw [decide_eq_false (Nat.not_lt.2 hle)] at hc
    simp at hc
  · refine Triple.pure fun s hs => ⟨?_, hs⟩
    omega

end Arithmetic

/-! ## 2. Records -/

/-- The records that are still to come. -/
def controlsOf (m : Context) : List Control := m.pending.toList ++ controls m.ctrls

/-- Planning changes nothing but the records and the position. -/
def Planned (m m' : Context) : Prop :=
  m' = { m with pending := m'.pending, ctrls := m'.ctrls, sourcePos := m'.sourcePos }

section Records

variable {A : Panic → Prop} {m m' m'' : Context}

theorem Planned.refl (m : Context) : Planned m m := rfl

theorem Planned.trans (h : Planned m m') (h' : Planned m' m'') : Planned m m'' := by
  unfold Planned at *
  rw [h', h]

theorem length_controls (ctrls : Bytes) : (controls ctrls).length = ctrls.length / 24 := by
  rw [controls, List.length_map, List.length_range]

/-- A record has been taken, or the records have ended. -/
structure Taken (m : Context) (next : Option Control) (m' : Context) : Prop where
  planned : Planned m m'
  pos : m'.sourcePos = m.sourcePos
  pending : m'.pending = none
  aligned : m'.ctrls.length % 24 = m.ctrls.length % 24
  controls : controlsOf m = next.toList ++ controlsOf m'
  ended : next = none → m.ctrls.length % 24 = 0 ∧ controlsOf m' = []

theorem nextControl_spec (hpending : m.pending = none) :
    Triple (· = m) nextControl
      (Taken m)
      (fun _ m' => m'.target = m.target ∧ controlsOf m = [] ∧ m.ctrls.length % 24 ≠ 0) A := by
  refine Triple.get_bind fun s hs => ?_
  subst hs
  have hof : controlsOf s = controls s.ctrls := by
    rw [controlsOf, hpending]
    rfl
  split
  · next hnil =>
    refine Triple.pure fun t ht => ?_
    subst ht
    refine ⟨Planned.refl t, rfl, hpending, rfl, rfl, fun _ => ⟨?_, ?_⟩⟩
    · rw [hnil]
      rfl
    · rw [hof, hnil]
      rfl
  · next hsome =>
    by_cases hlen : 24 ≤ s.ctrls.length
    · have hread : ByteStream.readExact 24 s.ctrls = some (s.ctrls.take 24, s.ctrls.drop 24) :=
        if_pos hlen
      rw [hread]
      refine Triple.bind (Q := fun _ t => t = { s with ctrls := s.ctrls.drop 24 })
        (Triple.modify fun t ht => by rw [ht]) fun _ => Triple.pure fun t ht => ?_
      subst ht
      have hrest : controlsOf { s with ctrls := s.ctrls.drop 24 } = controls (s.ctrls.drop 24) := by
        rw [controlsOf, hpending]
        rfl
      refine ⟨rfl, rfl, hpending, ?_, ?_, nofun⟩
      · show (s.ctrls.drop 24).length % 24 = _
        rw [List.length_drop]
        omega
      · rw [hof, hrest, controls_cons hlen]
        rfl
    · have hread : ByteStream.readExact 24 s.ctrls = none := if_neg hlen
      rw [hread]
      refine Triple.throw fun t ht => ?_
      subst ht
      have hpos : 0 < t.ctrls.length := List.length_pos_iff.2 hsome
      refine ⟨rfl, ?_, by omega⟩
      rw [hof, controls_short (Nat.lt_of_not_le hlen)]

theorem takeControl_spec :
    Triple (· = m) takeControl
      (Taken m)
      (fun _ m' => m'.target = m.target ∧ controlsOf m = [] ∧ m.ctrls.length % 24 ≠ 0) A := by
  refine Triple.get_bind fun s hs => ?_
  subst hs
  split
  · next ctrl hpending =>
    refine Triple.bind (Q := fun _ t => t = { s with pending := none })
      (Triple.modify fun t ht => by rw [ht]) fun _ => Triple.pure fun t ht => ?_
    subst ht
    refine ⟨rfl, rfl, rfl, rfl, ?_, nofun⟩
    rw [controlsOf, hpending]
    rfl
  · next hpending => exact nextControl_spec hpending

end Records

/-! ## 3. What a batch is -/

section Batches

def segmentsOf (cs : List Control) : List (Nat × Nat) :=
  (cs.map fun ctrl => (ctrl.add, ctrl.copy)).filter fun segment => 0 < segment.1 ∨ 0 < segment.2

/-- The source bytes of `len` bytes of target at `used`, if any. -/
def readAt (pos : Int) (used len : Nat) : List SourceRead :=
  if 0 < len then [⟨asU64 pos, used, len⟩] else []

def readsOf : List Control → Int → Nat → List SourceRead
  | [], _, _ => []
  | ctrl :: cs, pos, used =>
    readAt pos used ctrl.add ++
      readsOf cs (pos + ctrl.add + ctrl.seek) (used + ctrl.add + ctrl.copy)

/-- Where the records leave the source. -/
def posAfter : List Control → Int → Int
  | [], pos => pos
  | ctrl :: cs, pos => posAfter cs (pos + ctrl.add + ctrl.seek)

/-- No position of the records leaves the range of an `i64`. -/
def PositionsFit : List Control → Int → Prop
  | [], _ => True
  | ctrl :: cs, pos => FitsI64 (pos + ctrl.add) ∧ FitsI64 (pos + ctrl.add + ctrl.seek) ∧
      PositionsFit cs (pos + ctrl.add + ctrl.seek)

/-- A batch with more records. -/
def Batch.laid (batch : Batch) (cs : List Control) (pos : Int) : Batch where
  segments := batch.segments ++ segmentsOf cs
  reads := batch.reads ++ readsOf cs pos batch.used
  used := batch.used + total cs

variable {B : Build} {A : Panic → Prop} {E : Error → Context → Prop} {m m' : Context}
  {batch : Batch} {ctrl : Control} {cs : List Control} {pos : Int} {n rounds : Nat}

theorem Batch.laid_nil : batch.laid [] pos = batch := by
  unfold laid segmentsOf readsOf
  simp

theorem segmentsOf_cons : segmentsOf (ctrl :: cs) =
    (if 0 < ctrl.add ∨ 0 < ctrl.copy then [(ctrl.add, ctrl.copy)] else []) ++ segmentsOf cs := by
  unfold segmentsOf
  rw [List.map_cons, List.filter_cons]
  split <;> split <;> simp_all

theorem Batch.laid_cons : batch.laid (ctrl :: cs) pos =
    (batch.laid [ctrl] pos).laid cs (pos + ctrl.add + ctrl.seek) := by
  unfold laid
  rw [segmentsOf_cons, @segmentsOf_cons _ [], readsOf, readsOf, readsOf, total_cons, total_cons,
    total_nil]
  simp [segmentsOf, Nat.add_assoc]

/-- One record, as the loop lays it. -/
theorem Batch.laid_one : batch.laid [ctrl] pos =
    { segments := if 0 < ctrl.add ∨ 0 < ctrl.copy then batch.segments ++ [(ctrl.add, ctrl.copy)]
        else batch.segments
      reads := batch.reads ++ readAt pos batch.used ctrl.add
      used := batch.used + ctrl.add + ctrl.copy } := by
  unfold laid
  rw [segmentsOf_cons, readsOf, readsOf, total_cons, total_nil, List.append_nil]
  split <;> simp [segmentsOf, Nat.add_assoc]

theorem planAdd_spec {add : Nat} (hpos : FitsI64 m.sourcePos)
    (h : Guarded B A (FitsI64 (m.sourcePos + add))) :
    Triple (· = m) (planAdd B add batch)
      (fun out m' => FitsI64 (m.sourcePos + add) ∧
        m' = { m with sourcePos := m.sourcePos + add } ∧
        out = { batch with
          reads := batch.reads ++ readAt m.sourcePos batch.used add
          used := batch.used + add }) E A := by
  refine Triple.ite (fun hadd => Triple.get_bind fun s hs => ?_) fun hadd => ?_
  · subst hs
    refine Triple.bind (addI64_spec h) fun pos => ?_
    refine Triple.bind (Q := fun _ t => FitsI64 (s.sourcePos + add) ∧
      t = { s with sourcePos := s.sourcePos + add }) ?_ fun _ => Triple.pure fun t ht => ?_
    · refine Triple.modify fun t ht => ?_
      obtain ⟨hfits, rfl, rfl⟩ := ht
      exact ⟨hfits, rfl⟩
    · refine ⟨ht.1, ht.2, ?_⟩
      rw [readAt, if_pos hadd]
  · obtain rfl : add = 0 := by omega
    refine Triple.pure fun s hs => ?_
    subst hs
    rw [Int.natCast_zero, Int.add_zero]
    refine ⟨hpos, rfl, ?_⟩
    rw [readAt, if_neg hadd, List.append_nil, Nat.add_zero]

theorem fits_posAfter (hpos : FitsI64 pos) (h : PositionsFit cs pos) : FitsI64 (posAfter cs pos) := by
  induction cs generalizing pos with
  | nil => exact hpos
  | cons ctrl cs ih => exact ih h.2.1 h.2.2

theorem cut_fits (hn : 0 < n) (h : ctrl.add + ctrl.copy ≤ n) : cut n (ctrl :: cs) =
    (ctrl :: (cut (n - (ctrl.add + ctrl.copy)) cs).1, (cut (n - (ctrl.add + ctrl.copy)) cs).2) := by
  rw [cut, if_neg (Nat.ne_of_gt hn), if_pos h]

theorem cut_long (hn : 0 < n) (h : n < ctrl.add + ctrl.copy) :
    cut n (ctrl :: cs) = ([ctrl.head n], ctrl.rest n :: cs) := by
  rw [cut, if_neg (Nat.ne_of_gt hn), if_neg (Nat.not_le.2 h)]

/-- A batch has been planned. -/
structure Laid (m : Context) (batch out : Batch) (m' : Context) : Prop where
  fits : PositionsFit (cut (m.buf.length - batch.used) (controlsOf m)).1 m.sourcePos
  planned : Planned m m'
  out_eq : out = batch.laid (cut (m.buf.length - batch.used) (controlsOf m)).1 m.sourcePos
  left : controlsOf m' = (cut (m.buf.length - batch.used) (controlsOf m)).2
  pos : m'.sourcePos = posAfter (cut (m.buf.length - batch.used) (controlsOf m)).1 m.sourcePos
  aligned : m'.ctrls.length % 24 = m.ctrls.length % 24
  ended : total (cut (m.buf.length - batch.used) (controlsOf m)).1 < m.buf.length - batch.used →
    m.ctrls.length % 24 = 0

/-- The records break off before the batch is full. -/
structure BrokenOff (m : Context) (batch : Batch) (m' : Context) : Prop where
  fits : PositionsFit (cut (m.buf.length - batch.used) (controlsOf m)).1 m.sourcePos
  target : m'.target = m.target
  short : total (cut (m.buf.length - batch.used) (controlsOf m)).1 < m.buf.length - batch.used
  broken : m.ctrls.length % 24 ≠ 0

/-- The next record is in the batch, and so are those after it that fit. -/
theorem cut_taken {s t : Context} (ht : Taken s (some ctrl) t) (hn : 0 < s.buf.length - batch.used)
    (hfits : ctrl.add + ctrl.copy ≤ s.buf.length - batch.used) :
    cut (s.buf.length - batch.used) (controlsOf s) =
      (ctrl :: (cut (s.buf.length - (batch.laid [ctrl] pos).used) (controlsOf t)).1,
        (cut (s.buf.length - (batch.laid [ctrl] pos).used) (controlsOf t)).2) := by
  have hleft : s.buf.length - batch.used - (ctrl.add + ctrl.copy) =
      s.buf.length - (batch.laid [ctrl] pos).used := by
    show _ = s.buf.length - (batch.used + total [ctrl])
    rw [total_cons, total_nil]
    omega
  rw [ht.controls, Option.toList_some, List.singleton_append, cut_fits hn hfits, hleft]

section Moved

variable {s t u : Context} {out : Batch}

theorem Laid.of_moved (ht : Taken s (some ctrl) t) (hn : 0 < s.buf.length - batch.used)
    (hfits : ctrl.add + ctrl.copy ≤ s.buf.length - batch.used)
    (hadd : FitsI64 (s.sourcePos + ctrl.add)) (hseek : FitsI64 (s.sourcePos + ctrl.add + ctrl.seek))
    (hu : u = { t with sourcePos := s.sourcePos + ctrl.add + ctrl.seek })
    (h : Laid u (batch.laid [ctrl] s.sourcePos) out m') : Laid s batch out m' := by
  subst hu
  obtain ⟨hpositions, hplanned, hout, hleft, hpos, haligned, hended⟩ := h
  have hbuf : t.buf = s.buf := by rw [ht.planned]
  have hcut := @cut_taken _ _ s.sourcePos _ _ ht hn hfits
  have hused : (batch.laid [ctrl] s.sourcePos).used = batch.used + (ctrl.add + ctrl.copy) := by
    show batch.used + total [ctrl] = _
    rw [total_cons, total_nil, Nat.add_zero]
  dsimp only at hpositions hout hleft hpos haligned hended
  rw [hbuf] at hpositions hout hleft hpos hended
  refine ⟨?_, ?_, ?_, ?_, ?_, haligned.trans ht.aligned, fun h => ?_⟩
  · rw [hcut]
    exact ⟨hadd, hseek, hpositions⟩
  · exact ht.planned.trans hplanned
  · rw [hcut, Batch.laid_cons]
    exact hout
  · rw [hcut]
    exact hleft
  · rw [hcut]
    exact hpos
  · rw [hcut, total_cons] at h
    refine ht.aligned.symm.trans (hended ?_)
    show total (cut _ (controlsOf t)).1 < _
    omega

theorem BrokenOff.of_moved (ht : Taken s (some ctrl) t) (hn : 0 < s.buf.length - batch.used)
    (hfits : ctrl.add + ctrl.copy ≤ s.buf.length - batch.used)
    (hadd : FitsI64 (s.sourcePos + ctrl.add)) (hseek : FitsI64 (s.sourcePos + ctrl.add + ctrl.seek))
    (hu : u = { t with sourcePos := s.sourcePos + ctrl.add + ctrl.seek })
    (h : BrokenOff u (batch.laid [ctrl] s.sourcePos) m') : BrokenOff s batch m' := by
  subst hu
  obtain ⟨hpositions, htarget, hshort, hbroken⟩ := h
  have hbuf : t.buf = s.buf := by rw [ht.planned]
  have hsame : t.target = s.target := by rw [ht.planned]
  have hcut := @cut_taken _ _ s.sourcePos _ _ ht hn hfits
  have hused : (batch.laid [ctrl] s.sourcePos).used = batch.used + (ctrl.add + ctrl.copy) := by
    show batch.used + total [ctrl] = _
    rw [total_cons, total_nil, Nat.add_zero]
  dsimp only at hpositions htarget hshort hbroken
  rw [hbuf] at hpositions hshort
  refine ⟨?_, htarget.trans hsame, ?_, ht.aligned ▸ hbroken⟩
  · rw [hcut]
    exact ⟨hadd, hseek, hpositions⟩
  · rw [hcut, total_cons]
    have hless : total (cut (s.buf.length - (batch.laid [ctrl] s.sourcePos).used)
        (controlsOf t)).1 < _ := hshort
    omega

/-- The buffer is full before the next record ends. -/
theorem Laid.of_cut (ht : Taken s (some ctrl) t) (hn : 0 < s.buf.length - batch.used)
    (hlong : s.buf.length - batch.used < ctrl.add + ctrl.copy)
    (hadd : FitsI64 (s.sourcePos + (ctrl.head (s.buf.length - batch.used)).add))
    (hu : u = { t with
      pending := some (ctrl.rest (s.buf.length - batch.used))
      sourcePos := s.sourcePos + (ctrl.head (s.buf.length - batch.used)).add }) :
    Laid s batch (batch.laid [ctrl.head (s.buf.length - batch.used)] s.sourcePos) u := by
  subst hu
  have hcut : cut (s.buf.length - batch.used) (controlsOf s) =
      ([ctrl.head (s.buf.length - batch.used)],
        ctrl.rest (s.buf.length - batch.used) :: controlsOf t) := by
    rw [ht.controls, Option.toList_some, List.singleton_append, cut_long hn hlong]
  obtain ⟨hsize, -, -, -, hstay, -⟩ := Control.head_rest hlong
  have hmoved : s.sourcePos + (ctrl.head (s.buf.length - batch.used)).add +
      (ctrl.head (s.buf.length - batch.used)).seek =
        s.sourcePos + (ctrl.head (s.buf.length - batch.used)).add := by
    rw [hstay, Int.add_zero]
  refine ⟨?_, ?_, ?_, ?_, ?_, ht.aligned, fun h => ?_⟩
  · rw [hcut]
    exact ⟨hadd, by rw [hmoved]; exact hadd, trivial⟩
  · exact ht.planned.trans rfl
  · rw [hcut]
  · rw [hcut, controlsOf, controlsOf, ht.pending]
    rfl
  · rw [hcut]
    exact hmoved.symm
  · rw [hcut, total_cons, total_nil] at h
    omega

end Moved

theorem planRounds_spec (hpos : FitsI64 m.sourcePos) (hrounds : (controlsOf m).length < rounds)
    (h : Guarded B A
      (PositionsFit (cut (m.buf.length - batch.used) (controlsOf m)).1 m.sourcePos)) :
    Triple (· = m) (planRounds B rounds batch) (Laid m batch) (fun _ => BrokenOff m batch) A := by
  induction rounds generalizing m batch with
  | zero => exact absurd hrounds (Nat.not_lt_zero _)
  | succ rounds ih =>
    refine Triple.get_bind fun s hs => ?_
    subst hs
    refine Triple.ite (fun hroom => ?_) fun hfull => ?_
    · have hn : 0 < s.buf.length - batch.used := by omega
      refine Triple.bind (takeControl_spec.conseq (fun _ => id) (fun _ _ => id)
        (fun e t ht => ?_) fun _ => id) fun next => ?_
      · obtain ⟨htarget, hnil, hbroken⟩ := ht
        have hcut : cut (s.buf.length - batch.used) (controlsOf s) = ([], []) := by
          rw [hnil]
          rfl
        refine ⟨?_, htarget, ?_, hbroken⟩
        · rw [hcut]
          trivial
        · rw [hcut]
          exact hn
      · intro t ht
        cases next with
        | none =>
          obtain ⟨haligned, hnil⟩ := ht.ended rfl
          have hcut : cut (s.buf.length - batch.used) (controlsOf s) = ([], []) := by
            rw [ht.controls, hnil]
            rfl
          show Laid s batch batch t
          refine ⟨?_, ht.planned, ?_, ?_, ?_, ht.aligned, fun _ => haligned⟩
          · rw [hcut]
            trivial
          · rw [hcut]
            exact Batch.laid_nil.symm
          · rw [hcut, hnil]
          · rw [hcut]
            exact ht.pos
        | some ctrl =>
          refine (?_ : Triple (· = t) _ _ _ _) t rfl
          have htpos : FitsI64 t.sourcePos := ht.pos ▸ hpos
          by_cases hfits : ctrl.add + ctrl.copy ≤ s.buf.length - batch.used
          · rw [@cut_taken _ _ s.sourcePos _ _ ht hn hfits] at h
            have hadd : min ctrl.add (s.buf.length - batch.used) = ctrl.add := by omega
            dsimp only
            rw [hadd]
            refine Triple.bind (planAdd_spec htpos (ht.pos ▸ h.mono fun h => h.1)) fun added => ?_
            rintro u ⟨hfitsAdd, rfl, rfl⟩
            have hcopy : min ctrl.copy (s.buf.length - (batch.used + ctrl.add)) = ctrl.copy := by omega
            dsimp only
            rw [hcopy, ← Batch.laid_one]
            refine (?_ : Triple (· = { t with sourcePos := t.sourcePos + ctrl.add }) _ _ _ _) _ rfl
            refine Triple.ite (fun hcut => absurd hcut (by omega)) fun _ => ?_
            refine Triple.get_bind fun v hv => ?_
            subst hv
            refine Triple.bind (addI64_spec (ht.pos ▸ h.mono fun h => h.2.1)) fun pos => ?_
            rintro v ⟨hfitsSeek, rfl, rfl⟩
            refine (?_ : Triple (· = { t with sourcePos := t.sourcePos + ctrl.add }) _ _ _ _) _ rfl
            refine Triple.bind (Q := fun _ v => v = { t with
              sourcePos := t.sourcePos + ctrl.add + ctrl.seek }) (Triple.modify fun v hv => by rw [hv])
              fun _ => ?_
            rw [ht.pos]
            refine (ih ?_ ?_ ?_).conseq (fun _ hv => hv) (fun _ _ hv => ?_) (fun _ _ hv => ?_)
              fun _ => id
            · exact ht.pos ▸ hfitsSeek
            · rw [ht.controls] at hrounds
              exact Nat.lt_of_succ_lt_succ hrounds
            · have hbuf : t.buf = s.buf := by rw [ht.planned]
              dsimp only
              rw [hbuf]
              exact h.mono fun h => h.2.2
            · exact Laid.of_moved ht hn hfits (ht.pos ▸ hfitsAdd) (ht.pos ▸ hfitsSeek) rfl hv
            · exact BrokenOff.of_moved ht hn hfits (ht.pos ▸ hfitsAdd) (ht.pos ▸ hfitsSeek) rfl hv
          · have hlong : s.buf.length - batch.used < ctrl.add + ctrl.copy := Nat.lt_of_not_le hfits
            rw [ht.controls, Option.toList_some, List.singleton_append, cut_long hn hlong] at h
            dsimp only
            refine Triple.bind (planAdd_spec htpos (ht.pos ▸ h.mono fun h => h.1)) fun added => ?_
            rintro u ⟨hfitsAdd, rfl, rfl⟩
            dsimp only
            rw [← Nat.sub_sub]
            refine (?_ : Triple (· = { t with
              sourcePos := t.sourcePos + (ctrl.head (s.buf.length - batch.used)).add }) _ _ _ _) _ rfl
            obtain ⟨-, hadd, hcopy, -, -, -⟩ := Control.head_rest hlong
            refine Triple.ite (fun _ => ?_) fun hwhole => absurd hwhole (by omega)
            refine Triple.bind (Q := fun _ v => v = { t with
              pending := some (ctrl.rest (s.buf.length - batch.used))
              sourcePos := t.sourcePos + (ctrl.head (s.buf.length - batch.used)).add })
              (Triple.modify fun v hv => by rw [hv]; rfl) fun _ => Triple.pure fun v hv => ?_
            have hlaid := @Laid.of_cut batch _ _ _ _ ht hn hlong (ht.pos ▸ hfitsAdd) (ht.pos ▸ hv)
            rw [Batch.laid_one, ← ht.pos] at hlaid
            exact hlaid
    · have hzero : s.buf.length - batch.used = 0 := by omega
      have hcut : cut (s.buf.length - batch.used) (controlsOf s) = ([], controlsOf s) := by
        rw [hzero]
        cases controlsOf s with
        | nil => rfl
        | cons ctrl cs => rfl
      refine Triple.pure fun t ht => ?_
      subst ht
      refine ⟨?_, Planned.refl t, ?_, ?_, ?_, rfl, ?_⟩
      · rw [hcut]
        trivial
      · rw [hcut]
        exact Batch.laid_nil.symm
      · rw [hcut]
      · rw [hcut]
        rfl
      · rw [hcut, hzero]
        exact fun h => absurd h (Nat.lt_irrefl 0)

theorem length_controlsOf : (controlsOf m).length < m.ctrls.length + 2 := by
  rw [controlsOf, List.length_append, length_controls]
  have hone : m.pending.toList.length ≤ 1 := by
    cases m.pending with
    | none => exact Nat.zero_le 1
    | some ctrl => exact Nat.le_refl 1
  omega

theorem plan_spec (hpos : FitsI64 m.sourcePos)
    (h : Guarded B A (PositionsFit (cut m.buf.length (controlsOf m)).1 m.sourcePos)) :
    Triple (· = m) (plan B) (Laid m ⟨[], [], 0⟩) (fun _ => BrokenOff m ⟨[], [], 0⟩) A := by
  refine Triple.get_bind fun s hs => ?_
  subst hs
  exact planRounds_spec hpos length_controlsOf h

end Batches

end Qbsdiff
