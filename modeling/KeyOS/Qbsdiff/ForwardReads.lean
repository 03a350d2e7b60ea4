import KeyOS.Qbsdiff.Forward

/-!
# Records that move forward

Where no record seeks back, the reads of a batch are in order as they are planned, so that sorting
leaves them as they are, merging never reaches over a later one, and no batch reads before the end
of the one before it. Nor does any sum leave its type.
-/

namespace Qbsdiff.Forward

/-! ## 1. Positions -/

/-- From `pos` on, no record seeks back or leaves a source of `len` bytes. -/
def Ahead (len : Nat) : List Control → Int → Prop
  | [], _ => True
  | ctrl :: cs, pos => 0 ≤ ctrl.seek ∧ pos + ctrl.add + ctrl.seek ≤ len ∧
      Ahead len cs (pos + ctrl.add + ctrl.seek)

/-- A position inside a source. -/
def InSource (len : Nat) (pos : Int) : Prop := 0 ≤ pos ∧ pos ≤ len

section Positions

variable {len n : Nat} {cs ds : List Control} {pos : Int} {ctrl : Control}

theorem posAfter_append : posAfter (cs ++ ds) pos = posAfter ds (posAfter cs pos) := by
  induction cs generalizing pos with
  | nil => rfl
  | cons ctrl cs ih => exact ih

theorem ahead_append :
    Ahead len (cs ++ ds) pos ↔ Ahead len cs pos ∧ Ahead len ds (posAfter cs pos) := by
  induction cs generalizing pos with
  | nil => exact ⟨fun h => ⟨trivial, h⟩, And.right⟩
  | cons ctrl cs ih =>
    show 0 ≤ ctrl.seek ∧ _ ∧ Ahead len (cs ++ ds) _ ↔ (0 ≤ ctrl.seek ∧ _ ∧ _) ∧ Ahead len ds _
    rw [ih, and_assoc, and_assoc]
    rfl

theorem InSource.next (hpos : InSource len pos) (h : Ahead len (ctrl :: cs) pos) :
    InSource len (pos + ctrl.add + ctrl.seek) := by
  obtain ⟨hzero, -⟩ := hpos
  obtain ⟨hseek, hle, -⟩ := h
  exact ⟨by omega, hle⟩

theorem InSource.posAfter (hpos : InSource len pos) (h : Ahead len cs pos) :
    pos ≤ Qbsdiff.posAfter cs pos ∧ InSource len (Qbsdiff.posAfter cs pos) := by
  induction cs generalizing pos with
  | nil => exact ⟨Int.le_refl pos, hpos⟩
  | cons ctrl cs ih =>
    obtain ⟨hle, hafter⟩ := ih (hpos.next h) h.2.2
    have hseek := h.1
    refine ⟨?_, hafter⟩
    show pos ≤ Qbsdiff.posAfter cs (pos + ctrl.add + ctrl.seek)
    omega

theorem InSource.fits (hlen : len < 2 ^ 63) (hpos : InSource len pos) : FitsI64 pos := by
  obtain ⟨hzero, hle⟩ := hpos
  exact ⟨by omega, by omega⟩

theorem Ahead.positionsFit (hlen : len < 2 ^ 63) (hpos : InSource len pos)
    (h : Ahead len cs pos) : PositionsFit cs pos := by
  induction cs generalizing pos with
  | nil => trivial
  | cons ctrl cs ih =>
    have hnext := hpos.next h
    obtain ⟨hseek, hle, hrest⟩ := h
    obtain ⟨hzero, -⟩ := hpos
    exact ⟨InSource.fits hlen ⟨by omega, by omega⟩, hnext.fits hlen, ih hnext hrest⟩

/-- The records of a batch, and those that are left. -/
theorem Ahead.cut (h : Ahead len cs pos) : Ahead len (Qbsdiff.cut n cs).1 pos ∧
    Ahead len (Qbsdiff.cut n cs).2 (Qbsdiff.posAfter (Qbsdiff.cut n cs).1 pos) := by
  induction cs generalizing n pos with
  | nil => exact ⟨trivial, trivial⟩
  | cons ctrl cs ih =>
    obtain ⟨hseek, hle, hrest⟩ := h
    unfold Qbsdiff.cut
    split
    · exact ⟨trivial, hseek, hle, hrest⟩
    · split
      · obtain ⟨hfirst, hsecond⟩ := ih (n := n - (ctrl.add + ctrl.copy)) hrest
        exact ⟨⟨hseek, hle, hfirst⟩, hsecond⟩
      · next hlong =>
        obtain ⟨-, hadd, -, -, hstay, hsame⟩ := Control.head_rest (Nat.lt_of_not_le hlong)
        have hend : pos + (ctrl.head n).add + (ctrl.head n).seek + (ctrl.rest n).add +
            (ctrl.rest n).seek = pos + ctrl.add + ctrl.seek := by
          rw [hstay, hsame]
          omega
        refine ⟨⟨by omega, by omega, trivial⟩, ?_⟩
        show 0 ≤ (ctrl.rest n).seek ∧ pos + (ctrl.head n).add + (ctrl.head n).seek +
          (ctrl.rest n).add + (ctrl.rest n).seek ≤ len ∧ Ahead len cs (pos + (ctrl.head n).add +
            (ctrl.head n).seek + (ctrl.rest n).add + (ctrl.rest n).seek)
        rw [hend, hsame]
        exact ⟨hseek, hle, hrest⟩

/-- Where the reference algorithm stands behind the records. -/
theorem pos_patchControls {source : Bytes} {s s' : Place}
    (h : (patchControls source cs s).2 = some s') : s'.pos = posAfter cs s.pos := by
  induction cs generalizing s with
  | nil =>
    obtain rfl := Option.some.inj h
    rfl
  | cons ctrl cs ih =>
    by_cases hsupplied : Supplied source ctrl s
    · rw [patchControls_supplied hsupplied] at h
      exact ih h
    · rw [patchControls_none hsupplied] at h
      cases h

end Positions

/-! ## 2. The reads of a batch -/

/-- The reads are in order, apart from each other, and none is empty. -/
structure InOrder (reads : List SourceRead) : Prop where
  forward : reads.Pairwise fun a b => a.sourceEnd ≤ b.sourceOffset
  nonempty : ∀ read ∈ reads, 0 < read.len

section Reads

variable {len used : Nat} {cs : List Control} {pos : Int} {reads rest : List SourceRead}
  {first read : SourceRead} {scratchLen runEnd sourceLen : Nat}

theorem readsOf_ahead (hlen : len < 2 ^ 63) (hpos : InSource len pos) (h : Ahead len cs pos) :
    InOrder (readsOf cs pos used) ∧ ∀ read ∈ readsOf cs pos used,
      pos ≤ read.sourceOffset ∧ (read.sourceEnd : Int) ≤ posAfter cs pos := by
  induction cs generalizing pos used with
  | nil => exact ⟨⟨.nil, nofun⟩, nofun⟩
  | cons ctrl cs ih =>
    have hnext := hpos.next h
    obtain ⟨hle, -⟩ := hnext.posAfter h.2.2
    obtain ⟨hseek, -, hrest⟩ := h
    obtain ⟨⟨hforward, hnonempty⟩, hbounds⟩ := @ih (used + ctrl.add + ctrl.copy) _ hnext hrest
    have hnat := asU64_of_nonneg (hpos.fits hlen) hpos.1
    have hzero := hpos.1
    have hfirst : ∀ read ∈ readAt pos used ctrl.add, 0 < read.len ∧
        pos ≤ read.sourceOffset ∧ (read.sourceEnd : Int) = pos + ctrl.add := by
      intro read hread
      obtain ⟨hadd, rfl⟩ := mem_readAt.1 hread
      refine ⟨hadd, ?_, ?_⟩
      · show pos ≤ (asU64 pos : Int)
        omega
      · show ((asU64 pos + ctrl.add : Nat) : Int) = _
        omega
    refine ⟨⟨List.pairwise_append.2 ⟨?_, hforward, fun a ha b hb => ?_⟩, fun read hread => ?_⟩,
      fun read hread => ?_⟩
    · unfold readAt
      split
      · exact List.pairwise_singleton _ _
      · exact .nil
    · obtain ⟨-, -, hend⟩ := hfirst a ha
      have hfrom := (hbounds b hb).1
      omega
    · exact (List.mem_append.1 hread).elim (fun hread => (hfirst read hread).1) (hnonempty read)
    · show _ ∧ _ ≤ posAfter cs (pos + ctrl.add + ctrl.seek)
      rcases List.mem_append.1 hread with hread | hread
      · obtain ⟨-, hfrom, hend⟩ := hfirst read hread
        exact ⟨hfrom, by omega⟩
      · obtain ⟨hfrom, hto⟩ := hbounds read hread
        exact ⟨by omega, hto⟩

/-- Sorting leaves reads in order as they are. -/
theorem InOrder.sort_eq (B : Build) (h : InOrder reads) : B.sort reads = reads := by
  have hstrict : reads.Pairwise fun a b => a.sourceOffset < b.sourceOffset :=
    h.forward.imp_of_mem fun {a b} ha _ hab => by
      have hlen := h.nonempty a ha
      unfold SourceRead.sourceEnd at hab
      omega
  have hinj : ∀ a ∈ reads, ∀ b ∈ reads, a.sourceOffset = b.sourceOffset → a = b := by
    refine List.Pairwise.forall_of_forall_of_flip (fun _ _ _ => rfl) ?_ ?_
    · exact hstrict.imp fun hlt heq => absurd heq (Nat.ne_of_lt hlt)
    · exact hstrict.imp fun hlt heq => absurd heq (Nat.ne_of_gt hlt)
  refine List.Perm.eq_of_pairwise (fun a b ha hb hab hba => ?_) (B.sort_sorted reads)
    (hstrict.imp Nat.le_of_lt) (B.sort_perm reads)
  exact hinj a ((B.sort_perm reads).mem_iff.1 ha) b hb (Nat.le_antisymm hab hba)

theorem extendFits_of_inside (hlen : sourceLen < 2 ^ 63) (hend : runEnd ≤ sourceLen)
    (h : ∀ read ∈ rest, read.sourceEnd ≤ sourceLen) :
    ExtendFits scratchLen first runEnd rest := by
  induction rest generalizing runEnd with
  | nil => trivial
  | cons candidate rest ih =>
    obtain ⟨hcandidate, hrest⟩ := List.forall_mem_cons.1 h
    unfold ExtendFits coalesceGap
    refine ⟨by omega, by omega, fun _ => ih (Nat.max_le.2 ⟨hend, hcandidate⟩) hrest⟩

/-- What is left of the reads behind a run. -/
theorem mem_of_left (h : read ∈ (extend scratchLen first runEnd rest).left) : read ∈ rest := by
  rw [← @extend_append first rest scratchLen runEnd]
  exact List.mem_append_right _ h

theorem runsFit_of_inside (hlen : sourceLen < 2 ^ 63)
    (h : ∀ read ∈ reads, read.sourceEnd ≤ sourceLen) : RunsFit sourceLen scratchLen reads := by
  fun_induction RunsFit sourceLen scratchLen reads with
  | case1 => trivial
  | case2 first rest ih =>
    obtain ⟨hfirst, hrest⟩ := List.forall_mem_cons.1 h
    exact ⟨by omega, extendFits_of_inside hlen hfirst hrest,
      fun _ => ih fun read hread => hrest read (mem_of_left hread)⟩

/-- The runs of reads in order go forward. -/
theorem gatherSeeks_forward {s : Source} {limit : Nat} (h : InOrder reads)
    (hfrom : ∀ read ∈ reads, s.readEnd ≤ read.sourceOffset)
    (hto : ∀ read ∈ reads, read.sourceEnd ≤ limit) (hs : s.readEnd ≤ limit) :
    ∃ s', (gatherSeeks scratchLen reads).foldlM Source.read s = .ok s' ∧ s'.readEnd ≤ limit := by
  fun_induction gatherSeeks scratchLen reads generalizing s with
  | case1 => exact ⟨s, rfl, hs⟩
  | case2 first rest ih =>
    have happend := @extend_append first rest scratchLen first.sourceEnd
    have hends : ∀ {x : Nat}, (extend scratchLen first first.sourceEnd rest).runEnd ≤ x ↔
        first.sourceEnd ≤ x ∧
          ∀ read ∈ (extend scratchLen first first.sourceEnd rest).taken, read.sourceEnd ≤ x :=
      extend_le_iff
    generalize extend scratchLen first first.sourceEnd rest = run at *
    obtain ⟨hbehind, hforward⟩ := List.pairwise_cons.1 h.forward
    rw [← happend] at hbehind hforward hto hfrom
    obtain ⟨-, hleft, hacross⟩ := List.pairwise_append.1 hforward
    have hstart : first.sourceOffset ≤ run.runEnd :=
      Nat.le_trans (Nat.le_add_right _ first.len) (hends.1 (Nat.le_refl _)).1
    have hlimit : run.runEnd ≤ limit := hends.2 ⟨hto _ List.mem_cons_self, fun read hread =>
      hto read (List.mem_cons_of_mem _ (List.mem_append_left _ hread))⟩
    have hread : Source.read s (first.sourceOffset, run.runEnd - first.sourceOffset) =
        .ok ⟨run.runEnd, s.reads + 1⟩ := by
      rw [Source.read, if_neg (Nat.not_lt.2 (hfrom _ List.mem_cons_self))]
      dsimp only
      rw [Nat.add_sub_cancel' hstart]
    rw [List.foldlM_cons, hread]
    refine ih ⟨hleft, fun read hread => h.nonempty read ?_⟩ (fun read hread => ?_)
      (fun read hread => ?_) hlimit
    · rw [← happend]
      exact List.mem_cons_of_mem _ (List.mem_append_right _ hread)
    · exact hends.2 ⟨hbehind read (List.mem_append_right _ hread),
        fun taken htaken => hacross taken htaken read hread⟩
    · exact hto read (List.mem_cons_of_mem _ (List.mem_append_right _ hread))

end Reads

/-! ## 3. All batches -/

section Batches

variable {B : Build} {len bufLen scratchLen : Nat} {cs : List Control} {pos : Int}

theorem applySeeks_forward {s : Source} (hlen : len < 2 ^ 63) (hpos : InSource len pos)
    (h : Ahead len cs pos) (hs : (s.readEnd : Int) ≤ pos) :
    ∃ s', (applySeeks B.sort scratchLen bufLen cs pos).foldlM Source.read s = .ok s' := by
  fun_induction applySeeks B.sort scratchLen bufLen cs pos generalizing s with
  | case1 cs pos hpositive ih =>
    obtain ⟨hfirst, hrest⟩ := h.cut (n := bufLen)
    obtain ⟨hle, hafter⟩ := hpos.posAfter hfirst
    obtain ⟨horder, hbounds⟩ := @readsOf_ahead _ 0 _ _ hlen hpos hfirst
    have hzero := hafter.1
    obtain ⟨s', hread, hend⟩ := @gatherSeeks_forward _ scratchLen s
      (posAfter (cut bufLen cs).1 pos).toNat horder
      (fun read hread => by
        have hfrom := (hbounds read hread).1
        omega)
      (fun read hread => by
        have hto := (hbounds read hread).2
        omega)
      (by omega)
    rw [horder.sort_eq B, List.foldlM_append, hread]
    exact ih hafter hrest (by omega)
  | case2 => exact ⟨s, rfl⟩

theorem batchesFit_of_ahead {input : Input} {s : Place} {count : Nat}
    (hpos : InSource input.source.length s.pos) (h : Ahead input.source.length cs s.pos)
    (hcount : count + total cs < 2 ^ 64) : BatchesFit B.sort input cs s count := by
  fun_induction BatchesFit B.sort input cs s count with
  | case1 cs s count ih =>
    obtain ⟨hfirst, hrest⟩ := h.cut (n := atLeast128 input.bufferSize)
    obtain ⟨-, hafter⟩ := hpos.posAfter hfirst
    obtain ⟨horder, hbounds⟩ := @readsOf_ahead _ 0 _ _ input.source_short hpos hfirst
    have htotal := @total_cut cs (atLeast128 input.bufferSize)
    refine ⟨hfirst.positionsFit input.source_short hpos, ?_⟩
    split
    case isFalse => trivial
    next hpositive =>
    refine fun _ => ⟨?_, fun s' hs' => ?_⟩
    · rw [horder.sort_eq B]
      refine runsFit_of_inside input.source_short fun read hread => ?_
      have hto := (hbounds read hread).2
      have hinside := hafter.2
      omega
    · have hplace := pos_patchControls hs'
      exact ⟨by omega, ih hpositive s' (hplace ▸ hafter) (hplace ▸ hrest) (by omega)⟩

theorem fits_of_ahead {input : Input}
    (h : Ahead input.source.length (controls input.ctrls) 0)
    (htotal : total (controls input.ctrls) < 2 ^ 64) : Fits B input := by
  have hzero : InSource input.source.length 0 := ⟨Int.le_refl 0, Int.natCast_nonneg _⟩
  have hcount : 0 + total (controls input.ctrls) < 2 ^ 64 := by omega
  exact batchesFit_of_ahead hzero h hcount

end Batches

end Qbsdiff.Forward
