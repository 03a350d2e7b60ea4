import KeyOS.Qbsdiff.Bspatch

/-!
# The reference algorithm

It takes one record after the other and reads the source, the delta and the extra bytes where they
stand. A list of records can be cut at any byte of the target without a change of what it makes.
-/

namespace Qbsdiff

open Slices

/-! ## 1. Records and what they make -/

/-- The whole records of a stream. -/
def controls (ctrls : Bytes) : List Control :=
  (List.range (ctrls.length / 24)).map fun i => Control.decode (slice ctrls (24 * i) 24)

/-- Where the algorithm stands. -/
structure Place where
  delta : Bytes
  extra : Bytes
  pos : Int

/-- How many source bytes there are from a position on. -/
def available (source : Bytes) (pos : Int) : Nat :=
  if 0 ≤ pos then source.length - pos.toNat else 0

def Control.addable (source : Bytes) (ctrl : Control) (s : Place) : Nat :=
  min ctrl.add (min s.delta.length (available source s.pos))

def Control.added (source : Bytes) (ctrl : Control) (s : Place) : Bytes :=
  addBytes (slice source s.pos.toNat (ctrl.addable source s)) (s.delta.take (ctrl.addable source s))

def Control.next (ctrl : Control) (s : Place) : Place where
  delta := s.delta.drop ctrl.add
  extra := s.extra.drop ctrl.copy
  pos := s.pos + ctrl.add + ctrl.seek

/-- What a record makes, and where it ends, unless it runs out of bytes. -/
def patchControl (source : Bytes) (ctrl : Control) (s : Place) : Bytes × Option Place :=
  if ctrl.addable source s < ctrl.add then (ctrl.added source s, none)
  else if s.extra.length < ctrl.copy then (ctrl.added source s ++ s.extra, none)
  else (ctrl.added source s ++ s.extra.take ctrl.copy, some (ctrl.next s))

def patchControls (source : Bytes) : List Control → Place → Bytes × Option Place
  | [], s => ([], some s)
  | ctrl :: ctrls, s =>
    match patchControl source ctrl s with
    | (out, some s') => (out ++ (patchControls source ctrls s').1, (patchControls source ctrls s').2)
    | (out, none) => (out, none)

/-- The target, and whether the patch has not run out of bytes. -/
def reference (input : Input) : Bytes × Bool :=
  let made := patchControls input.source (controls input.ctrls) ⟨input.delta, input.extra, 0⟩
  (made.1, made.2.isSome && decide (input.ctrls.length % 24 = 0))

section Controls

variable {source : Bytes} {ctrl : Control} {cs ds : List Control} {s s' : Place} {n k : Nat}

theorem controls_short {ctrls : Bytes} (h : ctrls.length < 24) : controls ctrls = [] := by
  rw [controls, Nat.div_eq_of_lt h]
  rfl

theorem controls_cons {ctrls : Bytes} (h : 24 ≤ ctrls.length) :
    controls ctrls = Control.decode (ctrls.take 24) :: controls (ctrls.drop 24) := by
  have hcount : ctrls.length / 24 = (ctrls.drop 24).length / 24 + 1 := by
    rw [List.length_drop]
    omega
  rw [controls, hcount, List.range_succ_eq_map, List.map_cons, List.map_map, controls]
  refine congrArg _ (List.map_congr_left fun i _ => ?_)
  show Control.decode (slice ctrls (24 * (i + 1)) 24) = Control.decode (slice _ _ _)
  rw [slice, slice, List.drop_drop, Nat.mul_succ, Nat.add_comm]

/-- A record has the bytes that it needs. -/
structure Supplied (source : Bytes) (ctrl : Control) (s : Place) : Prop where
  add : 0 < ctrl.add → 0 ≤ s.pos ∧ s.pos + ctrl.add ≤ source.length
  delta : ctrl.add ≤ s.delta.length
  extra : ctrl.copy ≤ s.extra.length

theorem Supplied.addable (h : Supplied source ctrl s) : ctrl.addable source s = ctrl.add := by
  have hdelta := h.delta
  rw [Control.addable, available]
  by_cases hadd : 0 < ctrl.add
  · obtain ⟨hpos, hle⟩ := h.add hadd
    rw [if_pos hpos]
    omega
  · omega

theorem Supplied.patch (h : Supplied source ctrl s) : patchControl source ctrl s =
    (addBytes (slice source s.pos.toNat ctrl.add) (s.delta.take ctrl.add) ++
      s.extra.take ctrl.copy, some (ctrl.next s)) := by
  rw [patchControl, Control.added, h.addable, if_neg (Nat.lt_irrefl _),
    if_neg (Nat.not_lt.2 h.extra)]

theorem supplied_of_patch {out : Bytes} (h : patchControl source ctrl s = (out, some s')) :
    Supplied source ctrl s := by
  unfold patchControl at h
  split at h
  · cases h
  · next hadd =>
    split at h
    · cases h
    · next hextra =>
      rw [Control.addable, available] at hadd
      refine ⟨fun hpos => ?_, by omega, Nat.le_of_not_lt hextra⟩
      split at hadd
      · next hle => exact ⟨hle, by omega⟩
      · omega

theorem patch_eq_none (h : ¬Supplied source ctrl s) : (patchControl source ctrl s).2 = none := by
  cases hpatch : (patchControl source ctrl s).2 with
  | none => rfl
  | some s' => exact absurd (supplied_of_patch (Prod.ext rfl hpatch)) h

theorem patchControls_append : patchControls source (cs ++ ds) s =
    match patchControls source cs s with
    | (out, some s') => (out ++ (patchControls source ds s').1, (patchControls source ds s').2)
    | (out, none) => (out, none) := by
  induction cs generalizing s with
  | nil => rfl
  | cons ctrl cs ih =>
    show patchControls source (ctrl :: (cs ++ ds)) s = _
    rw [patchControls, patchControls]
    rcases patchControl source ctrl s with ⟨out, next⟩
    cases next with
    | none => rfl
    | some s' =>
      dsimp only
      rw [ih]
      rcases patchControls source cs s' with ⟨out', next'⟩
      cases next' with
      | none => rfl
      | some s'' =>
        dsimp only
        rw [List.append_assoc]

end Controls

/-! ## 2. A list of records, cut -/

/-- How many target bytes the records make. -/
def total (cs : List Control) : Nat := (cs.map fun ctrl => ctrl.add + ctrl.copy).sum

/-- As much of a record as fits `n` target bytes. -/
def Control.head (n : Nat) (ctrl : Control) : Control :=
  ⟨min ctrl.add n, min ctrl.copy (n - min ctrl.add n), 0⟩

/-- What is left of it. -/
def Control.rest (n : Nat) (ctrl : Control) : Control :=
  ⟨ctrl.add - min ctrl.add n, ctrl.copy - min ctrl.copy (n - min ctrl.add n), ctrl.seek⟩

/-- The records that a buffer of `n` bytes takes, and those that are left. -/
def cut (n : Nat) : List Control → List Control × List Control
  | [] => ([], [])
  | ctrl :: cs =>
    if n = 0 then ([], ctrl :: cs)
    else if ctrl.add + ctrl.copy ≤ n then
      (ctrl :: (cut (n - (ctrl.add + ctrl.copy)) cs).1, (cut (n - (ctrl.add + ctrl.copy)) cs).2)
    else ([ctrl.head n], ctrl.rest n :: cs)

section Cut

variable {source : Bytes} {ctrl : Control} {cs ds : List Control} {s s' : Place} {n k : Nat}

@[simp] theorem total_nil : total [] = 0 := rfl

@[simp] theorem total_cons : total (ctrl :: cs) = ctrl.add + ctrl.copy + total cs :=
  List.sum_cons

/-- The bytes of a record that is cut. -/
theorem Control.head_rest (hlt : n < ctrl.add + ctrl.copy) :
    (ctrl.head n).add + (ctrl.head n).copy = n ∧
      (ctrl.head n).add + (ctrl.rest n).add = ctrl.add ∧
      (ctrl.head n).copy + (ctrl.rest n).copy = ctrl.copy ∧
      (0 < (ctrl.rest n).add → (ctrl.head n).copy = 0) ∧ (ctrl.head n).seek = 0 ∧
      (ctrl.rest n).seek = ctrl.seek := by
  unfold Control.head Control.rest
  dsimp only
  omega

theorem total_cut : total (cut n cs).1 + total (cut n cs).2 = total cs := by
  induction cs generalizing n with
  | nil => rfl
  | cons ctrl cs ih =>
    unfold cut
    split
    · rw [total_nil, Nat.zero_add]
    · split
      · have hrest := ih (n := n - (ctrl.add + ctrl.copy))
        dsimp only
        rw [total_cons, total_cons]
        omega
      · next hlong =>
        obtain ⟨hhead, hadd, hcopy, -⟩ := Control.head_rest (Nat.lt_of_not_le hlong)
        dsimp only
        rw [total_cons, total_cons, total_cons, total_nil]
        omega

/-- A buffer is full, or all the records are in it. -/
theorem total_cut_eq : total (cut n cs).1 = n ∨ total (cut n cs).1 < n ∧ (cut n cs).2 = [] := by
  induction cs generalizing n with
  | nil =>
    exact (Nat.eq_zero_or_pos n).imp Eq.symm fun hpos => ⟨hpos, rfl⟩
  | cons ctrl cs ih =>
    unfold cut
    split
    · next hzero => exact .inl hzero.symm
    · split
      · next hfits =>
        dsimp only
        rw [total_cons]
        rcases ih (n := n - (ctrl.add + ctrl.copy)) with hfull | ⟨hless, hnil⟩
        · exact .inl (by omega)
        · exact .inr ⟨by omega, hnil⟩
      · next hlong =>
        obtain ⟨hhead, -⟩ := Control.head_rest (Nat.lt_of_not_le hlong)
        left
        dsimp only
        rw [total_cons, total_nil]
        omega

/-- The source bytes of a record, in two parts. -/
theorem addBytes_split (hpos : 0 ≤ s.pos) (hsource : s.pos + n ≤ source.length)
    (hdelta : n ≤ s.delta.length) (m : Nat) :
    addBytes (slice source s.pos.toNat (n + m)) (s.delta.take (n + m)) =
      addBytes (slice source s.pos.toNat n) (s.delta.take n) ++
        addBytes (slice source (s.pos + n).toNat m) ((s.delta.drop n).take m) := by
  have hnat : (s.pos + n).toNat = s.pos.toNat + n := by omega
  have hlen : (slice source s.pos.toNat n).length = (s.delta.take n).length := by
    rw [length_slice (by omega), List.length_take, Nat.min_eq_left hdelta]
  rw [hnat, slice_append, List.take_add, addBytes, List.zipWith_append hlen]
  rfl

theorem Control.addable_le : ctrl.addable source s ≤ ctrl.add := Nat.min_le_left _ _

theorem Control.added_zero (h : ctrl.add = 0) : ctrl.added source s = [] := by
  have hzero : ctrl.addable source s = 0 := Nat.eq_zero_of_le_zero (h ▸ addable_le)
  rw [Control.added, hzero]
  rfl

/-- Where the records of a cut end. -/
theorem Control.next_rest (hlt : n < ctrl.add + ctrl.copy) :
    (ctrl.rest n).next ((ctrl.head n).next s) = ctrl.next s := by
  obtain ⟨-, hadd, hcopy, -, hstay, hseek⟩ := Control.head_rest hlt
  unfold Control.next
  dsimp only
  rw [List.drop_drop, List.drop_drop, hadd, hcopy, hstay, hseek, Int.add_zero, Int.add_assoc s.pos,
    ← Int.natCast_add, hadd]

/-- The source bytes of a record that is cut among them. -/
theorem Control.added_rest (hn : 0 < n) (hlt : n < ctrl.add + ctrl.copy)
    (hrest : 0 < (ctrl.rest n).add) (h : ¬(ctrl.head n).addable source s < (ctrl.head n).add) :
    ctrl.addable source s =
        (ctrl.head n).add + (ctrl.rest n).addable source ((ctrl.head n).next s) ∧
      ctrl.added source s =
        (ctrl.head n).added source s ++ (ctrl.rest n).added source ((ctrl.head n).next s) := by
  obtain ⟨hsize, hadd, -, hfirst, hstay, -⟩ := Control.head_rest hlt
  have hcopy := hfirst hrest
  have hnext : ((ctrl.head n).next s).pos = s.pos + (ctrl.head n).add := by
    show s.pos + (ctrl.head n).add + (ctrl.head n).seek = _
    rw [hstay, Int.add_zero]
  have hdelta : ((ctrl.head n).next s).delta.length = s.delta.length - (ctrl.head n).add :=
    List.length_drop
  have hreach : (ctrl.head n).addable source s = (ctrl.head n).add :=
    Nat.le_antisymm addable_le (Nat.le_of_not_lt h)
  obtain ⟨hpos, hsource, hthere⟩ : 0 ≤ s.pos ∧ s.pos + (ctrl.head n).add ≤ source.length ∧
      (ctrl.head n).add ≤ s.delta.length := by
    unfold Control.addable available at h
    split at h
    · exact ⟨‹_›, by omega, by omega⟩
    · omega
  have haddable : ctrl.addable source s =
      (ctrl.head n).add + (ctrl.rest n).addable source ((ctrl.head n).next s) := by
    unfold Control.addable available
    rw [hnext, hdelta, if_pos hpos, if_pos (by omega)]
    omega
  refine ⟨haddable, ?_⟩
  rw [Control.added, Control.added, Control.added, haddable, addBytes_split hpos hsource hthere,
    hreach, hnext]
  rfl

/-- The head of a record runs out of source bytes or of delta where the record does. -/
theorem head_fails (h : (ctrl.head n).addable source s < (ctrl.head n).add) :
    patchControl source (ctrl.head n) s = patchControl source ctrl s := by
  have hhead : (ctrl.head n).add ≤ ctrl.add := Nat.min_le_left _ _
  have hsame : ctrl.addable source s = (ctrl.head n).addable source s := by
    unfold Control.addable at h ⊢
    omega
  rw [patchControl, patchControl, if_pos h, if_pos (hsame ▸ Nat.lt_of_lt_of_le h hhead),
    Control.added, Control.added, hsame]

/-- A record that is cut among its source bytes. -/
theorem patchControl_cut_add (hn : 0 < n) (hlt : n < ctrl.add + ctrl.copy)
    (hrest : 0 < (ctrl.rest n).add) (h : ¬(ctrl.head n).addable source s < (ctrl.head n).add) :
    patchControls source [ctrl.head n, ctrl.rest n] s = patchControls source [ctrl] s := by
  obtain ⟨-, hadd, hcopy, hfirst, -, -⟩ := Control.head_rest hlt
  obtain ⟨haddable, hadded⟩ := Control.added_rest hn hlt hrest h
  have hnone := hfirst hrest
  have hextra : ((ctrl.head n).next s).extra = s.extra := by
    show s.extra.drop (ctrl.head n).copy = s.extra
    rw [hnone, List.drop_zero]
  have hhead : patchControl source (ctrl.head n) s =
      ((ctrl.head n).added source s, some ((ctrl.head n).next s)) := by
    rw [patchControl, if_neg h, if_neg (by omega), hnone, List.take_zero, List.append_nil]
  have hsame : (ctrl.rest n).copy = ctrl.copy := by omega
  simp only [patchControls, hhead]
  unfold patchControl
  rw [hextra, hsame, Control.next_rest hlt, haddable, hadded]
  by_cases hshort : (ctrl.rest n).addable source ((ctrl.head n).next s) < (ctrl.rest n).add
  · rw [if_pos hshort, if_pos (by omega)]
  · have hlong : ¬(ctrl.head n).add +
        (ctrl.rest n).addable source ((ctrl.head n).next s) < ctrl.add := by omega
    rw [if_neg hshort, if_neg hlong]
    by_cases hcut : s.extra.length < ctrl.copy
    · rw [if_pos hcut, if_pos hcut, List.append_assoc]
    · rw [if_neg hcut, if_neg hcut]
      simp only [List.append_assoc, List.append_nil]

/-- A record that is cut among its extra bytes. -/
theorem patchControl_cut_copy (hlt : n < ctrl.add + ctrl.copy) (hrest : (ctrl.rest n).add = 0)
    (h : ¬(ctrl.head n).addable source s < (ctrl.head n).add) :
    patchControls source [ctrl.head n, ctrl.rest n] s = patchControls source [ctrl] s := by
  obtain ⟨-, hadd, hcopy, -, -, -⟩ := Control.head_rest hlt
  have hsame : (ctrl.head n).add = ctrl.add := by omega
  have haddable : (ctrl.head n).addable source s = ctrl.addable source s := by
    rw [Control.addable, Control.addable, hsame]
  have hadded : (ctrl.head n).added source s = ctrl.added source s := by
    rw [Control.added, Control.added, haddable]
  have hextra : ((ctrl.head n).next s).extra = s.extra.drop (ctrl.head n).copy := rfl
  have hwhole : ¬ctrl.addable source s < ctrl.add := by omega
  have hnot : ¬(ctrl.rest n).addable source ((ctrl.head n).next s) < (ctrl.rest n).add := by omega
  by_cases hhead : s.extra.length < (ctrl.head n).copy
  · have hshort : s.extra.length < ctrl.copy := by omega
    have hnone : patchControl source (ctrl.head n) s = (ctrl.added source s ++ s.extra, none) := by
      rw [patchControl, if_neg h, if_pos hhead, hadded]
    simp only [patchControls, hnone]
    rw [patchControl, if_neg hwhole, if_pos hshort]
  · have hsome : patchControl source (ctrl.head n) s =
        (ctrl.added source s ++ s.extra.take (ctrl.head n).copy,
          some ((ctrl.head n).next s)) := by
      rw [patchControl, if_neg h, if_neg hhead, hadded]
    simp only [patchControls, hsome]
    unfold patchControl
    rw [if_neg hnot, if_neg hwhole, Control.next_rest hlt, Control.added_zero hrest, hextra,
      List.length_drop]
    by_cases hcut : s.extra.length < ctrl.copy
    · have hleft : s.extra.length - (ctrl.head n).copy < (ctrl.rest n).copy := by omega
      rw [if_pos hcut, if_pos hleft]
      dsimp only
      rw [List.nil_append, List.append_assoc, List.take_append_drop]
    · have hleft : ¬s.extra.length - (ctrl.head n).copy < (ctrl.rest n).copy := by omega
      rw [if_neg hcut, if_neg hleft]
      dsimp only
      rw [List.nil_append, List.append_nil, List.append_nil, List.append_assoc, ← List.take_add,
        hcopy]

/-- Nothing changes when a record is made in two parts. -/
theorem patchControl_cut (hn : 0 < n) (hlt : n < ctrl.add + ctrl.copy) :
    patchControls source [ctrl.head n, ctrl.rest n] s = patchControls source [ctrl] s := by
  by_cases hfails : (ctrl.head n).addable source s < (ctrl.head n).add
  · rw [patchControls, patchControls, ← head_fails hfails, patchControl, if_pos hfails]
  · rcases Nat.eq_zero_or_pos (ctrl.rest n).add with hrest | hrest
    · exact patchControl_cut_copy hlt hrest hfails
    · exact patchControl_cut_add hn hlt hrest hfails

theorem patchControls_cut :
    patchControls source ((cut n cs).1 ++ (cut n cs).2) s = patchControls source cs s := by
  induction cs generalizing n s with
  | nil => rfl
  | cons ctrl cs ih =>
    unfold cut
    split
    · rfl
    next hzero =>
      split
      · dsimp only
        rw [List.cons_append, patchControls, patchControls]
        rcases patchControl source ctrl s with ⟨out, next⟩
        cases next with
        | none => rfl
        | some s' =>
          dsimp only
          rw [ih]
      · next hlong =>
        show patchControls source ([ctrl.head n, ctrl.rest n] ++ cs) s =
          patchControls source ([ctrl] ++ cs) s
        rw [patchControls_append, patchControls_append,
          patchControl_cut (Nat.pos_of_ne_zero hzero) (Nat.lt_of_not_le hlong)]

end Cut

end Qbsdiff
