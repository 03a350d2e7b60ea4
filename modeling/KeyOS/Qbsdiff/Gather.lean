import KeyOS.Qbsdiff.Plan

/-!
# Gathering the source bytes

The reads are sorted and merged into runs, and what a run reads is scattered over the buffer. The
buffer then holds what a read per record would have put there.
-/

namespace Qbsdiff

open Exec Prog Slices

/-! ## 1. Runs -/

def SourceRead.sourceEnd (read : SourceRead) : Nat := read.sourceOffset + read.len

/-- Where a run ends after one more read. -/
def joined (runEnd : Nat) (candidate : SourceRead) : Nat := max runEnd candidate.sourceEnd

/-- A read does not join a run: the gap is too wide, or the scratch too short. -/
def Stops (scratchLen : Nat) (first : SourceRead) (runEnd : Nat) (candidate : SourceRead) : Prop :=
  runEnd + coalesceGap < candidate.sourceOffset ∨
    scratchLen < joined runEnd candidate - first.sourceOffset

instance (scratchLen : Nat) (first : SourceRead) (runEnd : Nat) (candidate : SourceRead) :
    Decidable (Stops scratchLen first runEnd candidate) := inferInstanceAs (Decidable (_ ∨ _))

/-- A run as `extendRun` extends it. -/
def extend (scratchLen : Nat) (first : SourceRead) : Nat → List SourceRead → Run
  | runEnd, [] => ⟨runEnd, [], []⟩
  | runEnd, candidate :: rest =>
    if Stops scratchLen first runEnd candidate then ⟨runEnd, [], candidate :: rest⟩
    else
      { extend scratchLen first (joined runEnd candidate) rest with
        taken := candidate :: (extend scratchLen first (joined runEnd candidate) rest).taken }

/-- No sum overflows while a run is extended. -/
def ExtendFits (scratchLen : Nat) (first : SourceRead) : Nat → List SourceRead → Prop
  | _, [] => True
  | runEnd, candidate :: rest =>
    candidate.sourceEnd < 2 ^ 64 ∧ runEnd + coalesceGap < 2 ^ 64 ∧
      (¬Stops scratchLen first runEnd candidate →
        ExtendFits scratchLen first (joined runEnd candidate) rest)

section Extend

variable {B : Build} {A : Panic → Prop} {E : Error → Context → Prop} {m : Context}
  {first read : SourceRead} {reads rest : List SourceRead} {scratchLen runEnd len : Nat}

theorem extend_append :
    (extend scratchLen first runEnd rest).taken ++ (extend scratchLen first runEnd rest).left =
      rest := by
  induction rest generalizing runEnd with
  | nil => rfl
  | cons candidate rest ih =>
    unfold extend
    split
    · rfl
    · exact congrArg (candidate :: ·) ih

theorem length_extend_left :
    (extend scratchLen first runEnd rest).left.length ≤ rest.length := by
  have happend := congrArg List.length
    (@extend_append first rest scratchLen runEnd)
  rw [List.length_append] at happend
  omega

/-- A run ends where the last of its reads does. -/
theorem extend_le_iff :
    (extend scratchLen first runEnd rest).runEnd ≤ len ↔
      runEnd ≤ len ∧ ∀ read ∈ (extend scratchLen first runEnd rest).taken, read.sourceEnd ≤ len := by
  induction rest generalizing runEnd with
  | nil => exact ⟨fun h => ⟨h, nofun⟩, And.left⟩
  | cons candidate rest ih =>
    unfold extend
    split
    · exact ⟨fun h => ⟨h, nofun⟩, And.left⟩
    · dsimp only
      rw [ih, joined, Nat.max_le, List.forall_mem_cons, and_assoc]

theorem extend_short (h : (extend scratchLen first runEnd rest).taken ≠ []) :
    (extend scratchLen first runEnd rest).runEnd - first.sourceOffset ≤ scratchLen := by
  induction rest generalizing runEnd with
  | nil => exact absurd rfl h
  | cons candidate rest ih =>
    unfold extend at h ⊢
    split at h
    · exact absurd rfl h
    · next hstays =>
      rw [if_neg hstays]
      by_cases htaken : (extend scratchLen first (joined runEnd candidate) rest).taken = []
      · have hend : (extend scratchLen first (joined runEnd candidate) rest).runEnd ≤
            joined runEnd candidate := extend_le_iff.2 ⟨Nat.le_refl _, by rw [htaken]; nofun⟩
        have hjoined : ¬scratchLen < joined runEnd candidate - first.sourceOffset :=
          fun hlt => hstays (.inr hlt)
        dsimp only
        omega
      · exact ih htaken

theorem extend_lt (hlt : runEnd < 2 ^ 64) (h : ExtendFits scratchLen first runEnd rest) :
    (extend scratchLen first runEnd rest).runEnd < 2 ^ 64 := by
  induction rest generalizing runEnd with
  | nil => exact hlt
  | cons candidate rest ih =>
    obtain ⟨hend, -, hrest⟩ := h
    unfold extend
    split
    · exact hlt
    · next hstays => exact ih (Nat.max_lt.2 ⟨hlt, hend⟩) (hrest hstays)

theorem extendRun_spec (hle : first.sourceOffset ≤ runEnd) (hlt : runEnd < 2 ^ 64)
    (h : Guarded B A (ExtendFits scratchLen first runEnd rest)) :
    Triple (· = m) (extendRun B scratchLen first runEnd rest)
      (fun run m' => ExtendFits scratchLen first runEnd rest ∧
        run = extend scratchLen first runEnd rest ∧ m' = m) E A := by
  induction rest generalizing runEnd with
  | nil => exact Triple.pure fun s hs => ⟨trivial, rfl, hs⟩
  | cons candidate rest ih =>
    refine Triple.bind (addU64_spec (h.mono fun h => h.1)) fun candidateEnd => ?_
    rintro s ⟨hend, rfl, hs⟩
    refine (?_ : Triple (· = m) _ _ _ _) s hs
    refine Triple.bind (addU64_spec (h.mono fun h => h.2.1)) fun reach => ?_
    rintro s ⟨hreach, rfl, hs⟩
    refine (?_ : Triple (· = m) _ _ _ _) s hs
    refine Triple.ite (fun hgap => ?_) fun hgap => ?_
    · have hstops : Stops scratchLen first runEnd candidate := .inl hgap
      refine Triple.pure fun s hs => ⟨⟨hend, hreach, fun h => absurd hstops h⟩, ?_, hs⟩
      rw [extend, if_pos hstops]
    · have hnew : max runEnd (candidate.sourceOffset + candidate.len) = joined runEnd candidate := rfl
      have hjoined : first.sourceOffset ≤ joined runEnd candidate :=
        Nat.le_trans hle (Nat.le_max_left _ _)
      have hfits : joined runEnd candidate < 2 ^ 64 := Nat.max_lt.2 ⟨hlt, hend⟩
      rw [hnew]
      refine Triple.bind (subU64_spec hjoined hfits) fun len => ?_
      rintro s ⟨rfl, hs⟩
      refine (?_ : Triple (· = m) _ _ _ _) s hs
      refine Triple.ite (fun hlong => ?_) fun hshort => ?_
      · have hstops : Stops scratchLen first runEnd candidate := .inr hlong
        refine Triple.pure fun s hs => ⟨⟨hend, hreach, fun h => absurd hstops h⟩, ?_, hs⟩
        rw [extend, if_pos hstops]
      · have hstays : ¬Stops scratchLen first runEnd candidate := fun h => h.elim hgap hshort
        refine Triple.bind (ih hjoined hfits (h.mono fun h => h.2.2 hstays)) fun run => ?_
        rintro s ⟨hrest, rfl, hs⟩
        refine ⟨⟨hend, hreach, fun _ => hrest⟩, ?_, hs⟩
        rw [extend, if_neg hstays]

end Extend

/-! ## 2. Where the reads land -/

/-- The buffer after one read. -/
def land (source buf : Bytes) (read : SourceRead) : Bytes :=
  splice buf read.bufferOffset (slice source read.sourceOffset read.len)

def SourceRead.bufferEnd (read : SourceRead) : Nat := read.bufferOffset + read.len

/-- Two reads land beside each other. -/
def Apart (a b : SourceRead) : Prop := a.bufferEnd ≤ b.bufferOffset ∨ b.bufferEnd ≤ a.bufferOffset

theorem Apart.symm {a b : SourceRead} (h : Apart a b) : Apart b a := Or.symm h

/-- The reads are inside the source, and what they land on inside the buffer. -/
def Inside (sourceLen bufLen : Nat) (reads : List SourceRead) : Prop :=
  ∀ read ∈ reads, read.sourceEnd ≤ sourceLen ∧ read.bufferEnd ≤ bufLen

section Land

variable {source buf : Bytes} {read : SourceRead} {reads : List SourceRead} {offset len : Nat}

theorem length_landed (hread : read.sourceEnd ≤ source.length) :
    (slice source read.sourceOffset read.len).length = read.len := length_slice hread

theorem length_land (hread : read.sourceEnd ≤ source.length) (hbuf : read.bufferEnd ≤ buf.length) :
    (land source buf read).length = buf.length := by
  refine length_splice ?_
  rw [length_landed hread]
  exact hbuf

theorem length_foldl_land (h : Inside source.length buf.length reads) :
    (reads.foldl (land source) buf).length = buf.length := by
  induction reads generalizing buf with
  | nil => rfl
  | cons read reads ih =>
    obtain ⟨hsource, hbuf⟩ := h read List.mem_cons_self
    have hlen := length_land hsource hbuf
    rw [List.foldl_cons, ih, hlen]
    rw [hlen]
    exact fun r hr => h r (List.mem_cons_of_mem _ hr)

/-- What the reads do not land on is as it was. -/
theorem slice_foldl_land_apart (h : Inside source.length buf.length reads)
    (hapart : ∀ read ∈ reads, offset + len ≤ read.bufferOffset ∨ read.bufferEnd ≤ offset) :
    slice (reads.foldl (land source) buf) offset len = slice buf offset len := by
  induction reads generalizing buf with
  | nil => rfl
  | cons read reads ih =>
    obtain ⟨hsource, hbuf⟩ := h read List.mem_cons_self
    rw [List.foldl_cons, ih]
    · refine slice_splice_apart (Nat.le_trans (Nat.le_add_right _ _) hbuf) ?_
      rw [length_landed hsource]
      exact hapart read List.mem_cons_self
    · rw [length_land hsource hbuf]
      exact fun r hr => h r (List.mem_cons_of_mem _ hr)
    · exact fun r hr => hapart r (List.mem_cons_of_mem _ hr)

/-- Reads that land apart are all in the buffer. -/
theorem slice_foldl_land (h : Inside source.length buf.length reads)
    (hapart : reads.Pairwise Apart) (hread : read ∈ reads) :
    slice (reads.foldl (land source) buf) read.bufferOffset read.len =
      slice source read.sourceOffset read.len := by
  induction reads generalizing buf with
  | nil => exact absurd hread List.not_mem_nil
  | cons first reads ih =>
    obtain ⟨hsource, hbuf⟩ := h first List.mem_cons_self
    obtain ⟨hfirst, hrest⟩ := List.pairwise_cons.1 hapart
    have hinside : Inside source.length (land source buf first).length reads := by
      rw [length_land hsource hbuf]
      exact fun r hr => h r (List.mem_cons_of_mem _ hr)
    rw [List.foldl_cons]
    rcases List.mem_cons.1 hread with rfl | hread
    · rw [slice_foldl_land_apart hinside hfirst]
      have hwritten := @slice_splice _ _ (slice source read.sourceOffset read.len) _
        (Nat.le_trans (Nat.le_add_right _ _) hbuf)
      rw [length_landed hsource] at hwritten
      exact hwritten
    · exact ih hinside hrest hread

end Land

/-! ## 3. Gathering -/

/-- No sum overflows in any of the runs, up to the first that does not end in the source. -/
def RunsFit (sourceLen scratchLen : Nat) : List SourceRead → Prop
  | [] => True
  | first :: rest =>
    first.sourceEnd < 2 ^ 64 ∧ ExtendFits scratchLen first first.sourceEnd rest ∧
      ((extend scratchLen first first.sourceEnd rest).runEnd ≤ sourceLen →
        RunsFit sourceLen scratchLen (extend scratchLen first first.sourceEnd rest).left)
termination_by reads => reads.length
decreasing_by exact Nat.lt_succ_of_le length_extend_left

/-- The reads have landed. -/
structure Gathered (m : Context) (reads : List SourceRead) (m' : Context) : Prop where
  inside : ∀ read ∈ reads, read.sourceEnd ≤ m.source.length
  state : m' = { m with buf := reads.foldl (land m.source) m.buf, scratch := m'.scratch }
  scratch : m'.scratch.length = m.scratch.length

section Gather

variable {B : Build} {A : Panic → Prop} {E : Error → Context → Prop} {m m' m'' : Context}
  {first read : SourceRead} {reads rest : List SourceRead} {offset len : Nat}

theorem readSource_spec : Triple (· = m) (readSource offset len)
    (fun bytes m' => offset + len ≤ m.source.length ∧ bytes = slice m.source offset len ∧ m' = m)
    (fun _ m' => m.source.length < offset + len ∧ m'.target = m.target) A := by
  refine Triple.get_bind fun s hs => ?_
  subst hs
  refine Triple.ite (fun hle => Triple.pure fun t ht => ⟨hle, rfl, ht⟩) fun hlong =>
    Triple.throw fun t ht => ⟨Nat.lt_of_not_le hlong, by rw [ht]⟩

theorem writeBuf_spec {bytes : Bytes} (h : offset + bytes.length ≤ m.buf.length) :
    Triple (· = m) (writeBuf offset bytes)
      (fun _ m' => m' = { m with buf := splice m.buf offset bytes }) E A := by
  refine Triple.get_bind fun s hs => ?_
  subst hs
  refine Triple.bind (Q := fun _ t => t = s) ?_ fun _ => Triple.modify fun t ht => by rw [ht]
  exact Triple.require (fun _ _ hs => hs) fun hc => absurd h (of_decide_eq_false hc)

/-- The reads of a run land out of the scratch. -/
theorem scatterAll_spec {runLen : Nat} (hrun : runLen ≤ m.scratch.length)
    (hscratch : m.scratch.take runLen = slice m.source first.sourceOffset runLen)
    (hend : first.sourceOffset + runLen < 2 ^ 64)
    (hfrom : ∀ read ∈ reads, first.sourceOffset ≤ read.sourceOffset ∧
      read.sourceEnd ≤ first.sourceOffset + runLen)
    (hinside : Inside m.source.length m.buf.length reads) :
    Triple (· = m) (forEach reads (scatter B first))
      (fun _ m' => m' = { m with buf := reads.foldl (land m.source) m.buf }) E A := by
  induction reads generalizing m with
  | nil => exact Triple.pure fun s hs => hs
  | cons read reads ih =>
    obtain ⟨hfirst, hlast⟩ := hfrom read List.mem_cons_self
    obtain ⟨hsource, hbuf⟩ := hinside read List.mem_cons_self
    have hsum : read.sourceEnd = read.sourceOffset + read.len := rfl
    have hbytes : slice m.scratch (read.sourceOffset - first.sourceOffset) read.len =
        slice m.source read.sourceOffset read.len := by
      rw [← slice_take (n := runLen) (by omega), hscratch, slice_slice (by omega)]
      congr 1
      omega
    refine Triple.bind (Q := fun _ t => t = { m with buf := land m.source m.buf read }) ?_
      fun _ => ?_
    · refine Triple.bind (subU64_spec hfirst (by omega)) fun start => ?_
      rintro s ⟨rfl, hs⟩
      refine (?_ : Triple (· = m) _ _ _ _) s hs
      refine Triple.get_bind fun s hs => ?_
      subst hs
      refine Triple.bind (Q := fun _ t => t = s) ?_ fun _ => ?_
      · refine Triple.require (fun _ _ hs => hs) fun hc => absurd ?_ (of_decide_eq_false hc)
        omega
      · rw [hbytes]
        refine writeBuf_spec ?_
        rw [length_landed hsource]
        exact hbuf
    · refine (ih (m := { m with buf := land m.source m.buf read }) hrun hscratch
        (fun r hr => hfrom r (List.mem_cons_of_mem _ hr)) ?_).post fun _ t ht => ht
      dsimp only
      rw [length_land hsource hbuf]
      exact fun r hr => hinside r (List.mem_cons_of_mem _ hr)

theorem runsFit_cons {sourceLen scratchLen : Nat} : RunsFit sourceLen scratchLen (first :: rest) ↔
    first.sourceEnd < 2 ^ 64 ∧ ExtendFits scratchLen first first.sourceEnd rest ∧
      ((extend scratchLen first first.sourceEnd rest).runEnd ≤ sourceLen →
        RunsFit sourceLen scratchLen (extend scratchLen first first.sourceEnd rest).left) := by
  rw [RunsFit]

/-- The run is in the source, and all of its reads land, or one of them is outside. -/
theorem readRun_spec (hsource : m.source.length < 2 ^ 63)
    (hend : (extend m.scratch.length first first.sourceEnd rest).runEnd < 2 ^ 64)
    (hsorted : ∀ read ∈ rest, first.sourceOffset ≤ read.sourceOffset)
    (hbuf : ∀ read ∈ first :: rest, read.bufferEnd ≤ m.buf.length) :
    Triple (· = m) (readRun B first (extend m.scratch.length first first.sourceEnd rest))
      (fun _ m' => Gathered m
        (first :: (extend m.scratch.length first first.sourceEnd rest).taken) m')
      (fun _ m' => m.source.length < (extend m.scratch.length first first.sourceEnd rest).runEnd ∧
        m'.target = m.target) A := by
  have happend := @extend_append first rest m.scratch.length first.sourceEnd
  have hshort := @extend_short first rest m.scratch.length first.sourceEnd
  have hiff := fun len => @extend_le_iff first rest m.scratch.length first.sourceEnd len
  generalize extend m.scratch.length first first.sourceEnd rest = run at *
  obtain ⟨hfirst, htaken⟩ := (hiff run.runEnd).1 (Nat.le_refl _)
  have hinside : run.runEnd ≤ m.source.length →
      Inside m.source.length m.buf.length (first :: run.taken) := by
    intro hle read hread
    rcases List.mem_cons.1 hread with rfl | hmem
    · exact ⟨Nat.le_trans hfirst hle, hbuf read List.mem_cons_self⟩
    · refine ⟨Nat.le_trans (htaken read hmem) hle, hbuf read (List.mem_cons_of_mem _ ?_)⟩
      exact happend ▸ List.mem_append_left _ hmem
  refine Triple.ite (fun halone => ?_) fun hmerged => ?_
  · have hrun : run.runEnd = first.sourceEnd :=
      Nat.le_antisymm ((hiff _).2 ⟨Nat.le_refl _, by rw [halone]; nofun⟩) hfirst
    refine Triple.bind (readSource_spec.conseq (fun _ hs => hs) (fun _ _ hs => hs)
      (fun _ s hs => ⟨hrun ▸ hs.1, hs.2⟩) fun _ => id) fun bytes => ?_
    rintro s ⟨hle, rfl, hs⟩
    refine (?_ : Triple (· = m) _ _ _ _) s hs
    have hbytes := @length_landed _ first hle
    refine (writeBuf_spec ?_).post fun _ t ht => ⟨fun read hread => ?_, ?_, ?_⟩
    · rw [hbytes]
      exact hbuf first List.mem_cons_self
    · exact (hinside (hrun ▸ hle) read hread).1
    · rw [halone, ht]
      rfl
    · rw [ht]
  · refine Triple.bind (subU64_spec (Nat.le_trans (Nat.le_add_right _ _) hfirst) hend) fun len => ?_
    rintro s ⟨rfl, hs⟩
    refine (?_ : Triple (· = m) _ _ _ _) s hs
    refine Triple.get_bind fun s hs => ?_
    subst hs
    have hlen := hshort hmerged
    have hsum : first.sourceOffset + (run.runEnd - first.sourceOffset) = run.runEnd :=
      Nat.add_sub_cancel' (Nat.le_trans (Nat.le_add_right _ _) hfirst)
    refine Triple.bind (Q := fun _ t => t = s)
      (Triple.require (fun _ _ hs => hs) fun hc => absurd hlen (of_decide_eq_false hc)) fun _ => ?_
    refine Triple.bind (readSource_spec.conseq (fun _ hs => hs) (fun _ _ hs => hs)
      (fun _ s hs => ⟨hsum ▸ hs.1, hs.2⟩) fun _ => id) fun bytes => ?_
    rintro t ⟨hle, rfl, ht⟩
    refine (?_ : Triple (· = s) _ _ _ _) t ht
    have hbytes : (slice s.source first.sourceOffset (run.runEnd - first.sourceOffset)).length =
        run.runEnd - first.sourceOffset := length_slice hle
    generalize hread : slice s.source first.sourceOffset (run.runEnd - first.sourceOffset) = bytes
      at *
    have hscratch : (splice s.scratch 0 bytes).length = s.scratch.length :=
      length_splice (by omega)
    refine Triple.bind (Q := fun _ u => u = { s with scratch := splice s.scratch 0 bytes })
      (Triple.modify fun u hu => by rw [hu]) fun _ => ?_
    refine (@scatterAll_spec _ _ _ _ _ _ (run.runEnd - first.sourceOffset) ?_ ?_ ?_ ?_ ?_).post
      fun _ u hu => ⟨fun read hmem => ?_, ?_, ?_⟩
    · dsimp only
      omega
    · dsimp only
      rw [hread, ← hbytes, take_splice_zero]
    · omega
    · intro read hmem
      rcases List.mem_cons.1 hmem with rfl | hmem
      · exact ⟨Nat.le_refl _, by omega⟩
      · have hold := htaken read hmem
        exact ⟨hsorted read (happend ▸ List.mem_append_left _ hmem), by omega⟩
    · exact hinside (by omega)
    · exact (hinside (by omega) read hmem).1
    · rw [hu]
    · rw [hu]
      exact hscratch

theorem Gathered.append {more : List SourceRead} (h : Gathered m reads m')
    (h' : Gathered m' more m'') : Gathered m (reads ++ more) m'' := by
  obtain ⟨hinside, hstate, hscratch⟩ := h
  obtain ⟨hinside', hstate', hscratch'⟩ := h'
  have hsource : m'.source = m.source := by rw [hstate]
  have hbuf : m'.buf = reads.foldl (land m.source) m.buf := by rw [hstate]
  refine ⟨fun read hread => ?_, ?_, hscratch'.trans hscratch⟩
  · rcases List.mem_append.1 hread with hread | hread
    · exact hinside read hread
    · exact hsource ▸ hinside' read hread
  · rw [hstate', List.foldl_append, hsource, hbuf, hstate]

/-- What a gathering ends in. -/
structure Ends (m : Context) (reads : List SourceRead) (m' : Context) : Prop where
  fits : RunsFit m.source.length m.scratch.length reads
  gathered : Gathered m reads m'

/-- What a gathering fails in. -/
structure Outside (m : Context) (reads : List SourceRead) (m' : Context) : Prop where
  fits : RunsFit m.source.length m.scratch.length reads
  read : ∃ read ∈ reads, m.source.length < read.sourceEnd
  target : m'.target = m.target

theorem gatherRounds_nil (rounds : Nat) :
    Triple (· = m) (gatherRounds B rounds []) (fun _ => Ends m []) E A := by
  have hrun : gatherRounds B rounds [] = pure () := by
    cases rounds with
    | zero => rfl
    | succ rounds => rfl
  rw [hrun]
  refine Triple.pure fun s hs => ?_
  subst hs
  refine ⟨?_, nofun, rfl, rfl⟩
  rw [RunsFit]
  trivial

theorem gatherRounds_spec {rounds : Nat} (hrounds : reads.length ≤ rounds)
    (hsorted : reads.Pairwise fun a b => a.sourceOffset ≤ b.sourceOffset)
    (hsource : m.source.length < 2 ^ 63) (hbuf : ∀ read ∈ reads, read.bufferEnd ≤ m.buf.length)
    (h : Guarded B A (RunsFit m.source.length m.scratch.length reads)) :
    Triple (· = m) (gatherRounds B rounds reads) (fun _ => Ends m reads)
      (fun _ => Outside m reads) A := by
  induction rounds generalizing m reads with
  | zero =>
    obtain rfl : reads = [] := List.eq_nil_of_length_eq_zero (Nat.eq_zero_of_le_zero hrounds)
    exact gatherRounds_nil 0
  | succ rounds ih =>
    cases reads with
    | nil => exact gatherRounds_nil (rounds + 1)
    | cons first rest =>
      have h' := h.mono runsFit_cons.1
      have hsum : first.sourceOffset + first.len = first.sourceEnd := rfl
      obtain ⟨hfirst, hrest⟩ := List.pairwise_cons.1 hsorted
      unfold gatherRounds
      refine Triple.bind (addU64_spec (h'.mono fun h => h.1)) fun firstEnd => ?_
      rw [hsum]
      rintro s ⟨hend, rfl, hs⟩
      refine (?_ : Triple (· = m) _ _ _ _) s hs
      refine Triple.get_bind fun s hs => ?_
      subst hs
      refine Triple.bind (extendRun_spec (Nat.le_add_right _ _) hend (h'.mono fun h => h.2.1))
        fun run => ?_
      rintro t ⟨hextend, rfl, ht⟩
      refine (?_ : Triple (· = s) _ _ _ _) t ht
      have happend := @extend_append first rest s.scratch.length first.sourceEnd
      refine Triple.bind (Q := fun _ => Gathered s
        (first :: (extend s.scratch.length first first.sourceEnd rest).taken)) ?_ fun _ t ht => ?_
      · refine (readRun_spec hsource (extend_lt hend hextend) hfirst hbuf).conseq
          (fun _ hs => hs) (fun _ _ ht => ht) (fun _ t ht => ?_) fun _ => id
        refine ⟨runsFit_cons.2 ⟨hend, hextend, fun hle => absurd hle (Nat.not_le.2 ht.1)⟩, ?_, ht.2⟩
        by_contra hnone
        have hall : ∀ r ∈ first :: rest, r.sourceEnd ≤ s.source.length :=
          fun r hr => Nat.le_of_not_lt fun hlt => hnone ⟨r, hr, hlt⟩
        refine Nat.not_le.2 ht.1 (extend_le_iff.2 ⟨hall first List.mem_cons_self, fun r hr => ?_⟩)
        exact hall r (List.mem_cons_of_mem _ (happend ▸ List.mem_append_left _ hr))
      · have hle : (extend s.scratch.length first first.sourceEnd rest).runEnd ≤ s.source.length :=
          extend_le_iff.2 ⟨ht.inside first List.mem_cons_self,
            fun r hr => ht.inside r (List.mem_cons_of_mem _ hr)⟩
        have hsame : t.source = s.source := by rw [ht.state]
        have hlen : t.buf.length = s.buf.length := by
          rw [ht.state]
          refine length_foldl_land fun r hr => ⟨ht.inside r hr, hbuf r ?_⟩
          rw [← happend]
          exact List.mem_append_left _ hr
        refine (ih (m := t) ?_ ?_ ?_ ?_ ?_).conseq (fun _ hs => hs) (fun _ u hu => ?_)
          (fun _ u hu => ?_) (fun _ => id) t rfl
        · have hleft := @length_extend_left first rest s.scratch.length first.sourceEnd
          exact Nat.le_trans hleft (Nat.le_of_succ_le_succ hrounds)
        · rw [← happend] at hrest
          exact (List.pairwise_append.1 hrest).2.1
        · exact hsame ▸ hsource
        · intro r hr
          rw [hlen]
          refine hbuf r (List.mem_cons_of_mem _ ?_)
          rw [← happend]
          exact List.mem_append_right _ hr
        · rw [hsame, ht.scratch]
          exact h'.mono fun h => h.2.2 hle
        · obtain ⟨hfits, hgathered⟩ := hu
          rw [hsame, ht.scratch] at hfits
          refine ⟨runsFit_cons.2 ⟨hend, hextend, fun _ => hfits⟩, ?_⟩
          rw [← happend]
          exact ht.append hgathered
        · obtain ⟨hfits, ⟨r, hr, hlt⟩, htarget⟩ := hu
          rw [hsame, ht.scratch] at hfits
          refine ⟨runsFit_cons.2 ⟨hend, hextend, fun _ => hfits⟩, ⟨r, ?_, hsame ▸ hlt⟩, ?_⟩
          · rw [← happend]
            exact List.mem_cons_of_mem _ (List.mem_append_right _ hr)
          · rw [htarget, ht.state]

theorem gather_spec (hsource : m.source.length < 2 ^ 63)
    (hbuf : ∀ read ∈ reads, read.bufferEnd ≤ m.buf.length)
    (h : Guarded B A (RunsFit m.source.length m.scratch.length (B.sort reads))) :
    Triple (· = m) (gather B reads) (fun _ => Ends m (B.sort reads))
      (fun _ => Outside m (B.sort reads)) A := by
  have hperm := B.sort_perm reads
  refine gatherRounds_spec (Nat.le_of_eq hperm.length_eq) (B.sort_sorted reads) hsource
    (fun read hread => hbuf read (hperm.mem_iff.1 hread)) h

end Gather

end Qbsdiff
