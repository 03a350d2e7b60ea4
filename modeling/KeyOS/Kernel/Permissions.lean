import KeyOS.Kernel.Server

/-!
# Message permissions as a set of ids

A connection may send the ids that `add` granted. The ids below 64 are bits of a
mask, the others lie in a list of four ranges that `add` merges in place.

* `add_spec` reads `add` as an operation on the set of permitted ids.
* `Grants` is a run of `add` calls with the ranges whose call returned `Ok`.
* `permits_granted_iff` says in which runs the permitted ids are exactly the granted ones: the
  mask is written before the list is searched, so a range that crosses 64 and finds no
  slot keeps its ids below 64.
-/

namespace Kernel

open Exec Exec.Prog

/-- The ids of the range. -/
def Range.ids (r : Range) : Set Nat := Set.Ico r.start r.stop

theorem Range.mem_ids {r : Range} {m : Nat} : m ∈ r.ids ↔ r.contains m = true := by
  simp [ids, contains]

theorem Range.ids_empty {r : Range} (h : r.isEmpty = true) : r.ids = ∅ :=
  Set.Ico_eq_empty (Nat.not_lt.2 (of_decide_eq_true h))

/-- Two ranges that touch are one range. -/
theorem Range.ids_merge {slot r : Range} (hslot : slot.start ≤ r.stop) (hr : r.start ≤ slot.stop) :
    Range.ids ⟨min slot.start r.start, max slot.stop r.stop⟩ = slot.ids ∪ r.ids := by
  ext m
  simp only [ids, Set.mem_union, Set.mem_Ico]
  omega

namespace MessagePermissions

variable {p : MessagePermissions} {r : Range} {m : Nat} {mask : BitVec 64}
  {slots slots' : List Range}

/-! ## 1. One call -/

/-- The ids that the connection may send. -/
def permitted (p : MessagePermissions) : Set Nat := {m | p.isPermitted m = true}

/-- The ids of the ranges in the slots. -/
def listed (slots : List Range) : Set Nat := {m | ∃ slot ∈ slots, m ∈ slot.ids}

/-- Every slot holds a range that `r` does not touch. -/
def Refuses (p : MessagePermissions) (r : Range) : Prop :=
  ∀ slot ∈ p.list, slot.isEmpty = false ∧ (r.stop < slot.start ∨ slot.stop < r.start)

instance : Decidable (p.Refuses r) := List.decidableBAll _ _

theorem mem_permitted_of_lt (h : m < 64) : m ∈ p.permitted ↔ p.mask.getLsbD m = true := by
  rw [permitted, Set.mem_ofPred, isPermitted, if_pos h]

theorem mem_permitted_of_ge (h : 64 ≤ m) : m ∈ p.permitted ↔ m ∈ listed p.list := by
  rw [permitted, Set.mem_ofPred, isPermitted, if_neg (Nat.not_lt.2 h), List.any_eq_true]
  simp only [listed, Set.mem_ofPred, Range.mem_ids]

theorem getLsbD_foldl_or (ids : List Nat) (h : m < 64) :
    (ids.foldl (fun mask id => mask ||| (1#64 <<< id)) mask).getLsbD m = true ↔
      mask.getLsbD m = true ∨ m ∈ ids := by
  induction ids generalizing mask with
  | nil => simp
  | cons id ids ih =>
    have hbit : (1#64 <<< id).getLsbD m = true ↔ m = id := by
      simp only [BitVec.getLsbD_shiftLeft, BitVec.getLsbD_one, Bool.and_eq_true,
        Bool.not_eq_true', decide_eq_true_eq, decide_eq_false_iff_not]
      omega
    rw [List.foldl_cons, ih, BitVec.getLsbD_or, Bool.or_eq_true, hbit, List.mem_cons, or_assoc]

theorem getLsbD_addToMask (h : m < 64) :
    (addToMask mask r).getLsbD m = true ↔ mask.getLsbD m = true ∨ m ∈ r.ids := by
  rw [addToMask, getLsbD_foldl_or _ h, List.mem_range'_1, Range.ids, Set.mem_Ico]
  refine or_congr_right ?_
  omega

theorem listed_cons {slot : Range} : listed (slot :: slots) = slot.ids ∪ listed slots := by
  ext m
  simp [listed]

/-- The slot that takes the range keeps its own ids. -/
theorem listed_addToList (h : addToList r slots = some slots') :
    listed slots' = listed slots ∪ r.ids := by
  induction slots generalizing slots' with
  | nil => cases h
  | cons slot slots ih =>
    rw [addToList] at h
    split at h
    next htouch =>
      cases h
      rw [listed_cons, listed_cons, Range.ids_merge htouch.1 htouch.2, Set.union_right_comm]
    next =>
      split at h
      next hempty =>
        cases h
        rw [listed_cons, listed_cons, Range.ids_empty hempty, Set.empty_union, Set.union_comm]
      next =>
        obtain ⟨rest, hrest, rfl⟩ := Option.map_eq_some_iff.1 h
        rw [listed_cons, listed_cons, ih hrest, Set.union_assoc]

theorem addToList_eq_none : addToList r slots = none ↔
    ∀ slot ∈ slots, slot.isEmpty = false ∧ (r.stop < slot.start ∨ slot.stop < r.start) := by
  induction slots with
  | nil => simp [addToList]
  | cons slot slots ih =>
    rw [addToList, List.forall_mem_cons, ← ih]
    split
    next htouch =>
      refine iff_of_false nofun fun h => ?_
      omega
    next hapart =>
      split
      next hempty => exact iff_of_false nofun fun h => by simp [hempty] at h
      next hfull =>
        rw [Option.map_eq_none_iff]
        refine ⟨fun h => ⟨⟨Bool.eq_false_iff.2 hfull, ?_⟩, h⟩, And.right⟩
        omega

/-- A call that succeeds permits the ids of its range besides those permitted before. A call
that fails for want of a slot has already permitted those below 64. -/
theorem add_spec {A : Panic → Prop} :
    Triple (· = p) (add r)
      (fun _ p' => (64 < r.stop → ¬ p.Refuses r) ∧ p'.permitted = p.permitted ∪ r.ids)
      (fun _ p' => r.ids = ∅ ∧ p' = p ∨
        64 < r.stop ∧ p.Refuses r ∧ p'.permitted = p.permitted ∪ r.ids ∩ Set.Iio 64) A := by
  rw [add]
  split
  next hempty => exact Triple.throw fun s hs => .inl ⟨Range.ids_empty hempty, hs⟩
  next =>
    refine Triple.bind (Q := fun _ s => s = { p with mask := addToMask p.mask r })
      (Triple.modify fun s hs => by rw [hs]) fun _ => ?_
    split
    next hlow =>
      refine Triple.pure fun s hs => ?_
      subst hs
      refine ⟨fun h => absurd hlow (Nat.not_le_of_lt h), ?_⟩
      ext m
      rcases Nat.lt_or_ge m 64 with hm | hm
      · rw [Set.mem_union, mem_permitted_of_lt hm, mem_permitted_of_lt hm, getLsbD_addToMask hm]
      · have hout : m ∉ r.ids := fun h => by
          have := h.2
          omega
        rw [Set.mem_union, mem_permitted_of_ge hm, mem_permitted_of_ge hm]
        exact (or_iff_left hout).symm
    next hhigh =>
      refine Triple.get_bind fun s hs => ?_
      subst hs
      refine Triple.bind (Triple.okOr (Q := fun list s =>
        s = { p with mask := addToMask p.mask r } ∧ addToList r p.list = some list)
        (fun list hlist s hs => ⟨hs, hlist⟩) fun hnone s hs => .inr ?_) fun list => ?_
      · subst hs
        refine ⟨by omega, addToList_eq_none.1 hnone, ?_⟩
        ext m
        rcases Nat.lt_or_ge m 64 with hm | hm
        · rw [Set.mem_union, mem_permitted_of_lt hm, mem_permitted_of_lt hm, getLsbD_addToMask hm,
            Set.mem_inter_iff, Set.mem_Iio, and_iff_left hm]
        · rw [Set.mem_union, mem_permitted_of_ge hm, mem_permitted_of_ge hm, Set.mem_inter_iff,
            Set.mem_Iio, or_iff_left fun h => by omega]
      · refine Triple.modify fun s hs => ?_
        obtain ⟨rfl, hlist⟩ := hs
        refine ⟨fun _ hrefuses => ?_, ?_⟩
        · rw [addToList_eq_none.2 hrefuses] at hlist
          cases hlist
        ext m
        rcases Nat.lt_or_ge m 64 with hm | hm
        · rw [Set.mem_union, mem_permitted_of_lt hm, mem_permitted_of_lt hm, getLsbD_addToMask hm]
        · rw [Set.mem_union, mem_permitted_of_ge hm, mem_permitted_of_ge hm,
            listed_addToList hlist, Set.mem_union]

/-! ## 2. Runs of calls -/

/-- The permissions after a run of calls, and the ranges whose call returned `Ok`. -/
structure Grants where
  permissions : MessagePermissions
  granted : List Range
deriving DecidableEq

namespace Grants

def start : Grants := ⟨default, []⟩

def add (g : Grants) (r : Range) : Grants :=
  match MessagePermissions.add r g.permissions with
  | (.ok (), p) => ⟨p, r :: g.granted⟩
  | (.err _, p) => ⟨p, g.granted⟩
  | (.panic _, p) => ⟨p, g.granted⟩

def run (ranges : List Range) : Grants := ranges.foldl add start

/-- An id is permitted if and only if it lies in a granted range. -/
def Exact (g : Grants) : Prop :=
  ∀ m, g.permissions.isPermitted m = true ↔ ∃ r ∈ g.granted, r.contains m = true

/-- A range that crosses 64 and that no slot takes has no id below 64 of its own. -/
def Safe (g : Grants) (r : Range) : Prop :=
  64 < r.stop → g.permissions.Refuses r →
    ∀ m, r.start ≤ m → m < 64 → g.permissions.mask.getLsbD m = true

variable {g : Grants} {ranges : List Range}

theorem exact_iff_permitted : g.Exact ↔ g.permissions.permitted = listed g.granted := by
  rw [Set.ext_iff]
  refine forall_congr' fun m => iff_congr Iff.rfl ?_
  simp only [listed, Set.mem_ofPred, Range.mem_ids]

theorem start_exact : start.Exact := by
  rw [exact_iff_permitted]
  ext m
  rcases Nat.lt_or_ge m 64 with hm | hm
  · rw [mem_permitted_of_lt hm]
    simp [start, default, listed]
  · rw [mem_permitted_of_ge hm]
    simp [start, default, listed, Range.ids, Range.zero]

/-- From exact permissions a call leads to exact permissions if and only if it is safe. -/
theorem add_exact_iff (h : g.Exact) : (g.add r).Exact ↔ g.Safe r := by
  rw [exact_iff_permitted] at h ⊢
  have hadd := add_spec (A := fun _ => False) g.permissions rfl (r := r)
  rw [add]
  generalize MessagePermissions.add r g.permissions = result at hadd
  obtain ⟨outcome, p⟩ := result
  cases outcome with
  | ok _ =>
    obtain ⟨htaken, hpermitted⟩ := hadd
    refine iff_of_true ?_ fun hhigh hrefuses => absurd hrefuses (htaken hhigh)
    rw [hpermitted, h, listed_cons, Set.union_comm]
  | err _ =>
    rcases hadd with ⟨hempty, rfl⟩ | ⟨hhigh, hrefuses, hpermitted⟩
    · refine iff_of_true h fun hhigh _ m hstart hlow => ?_
      have hmem : m ∈ r.ids := ⟨hstart, Nat.lt_trans hlow hhigh⟩
      rw [hempty] at hmem
      exact hmem.elim
    · rw [hpermitted, ← h, Set.union_eq_left]
      refine ⟨fun hsub _ _ m hstart hlow => ?_, fun hsafe m hm => ?_⟩
      · exact (mem_permitted_of_lt hlow).1 (hsub ⟨⟨hstart, Nat.lt_trans hlow hhigh⟩, hlow⟩)
      · exact (mem_permitted_of_lt hm.2).2 (hsafe hhigh hrefuses m hm.1.1 hm.2)
  | panic _ => exact hadd.elim

theorem run_snoc (ranges : List Range) (r : Range) : run (ranges ++ [r]) = (run ranges).add r :=
  List.foldl_append

/-- The permitted ids are the granted ones in every state of a run if and only if each call
is safe in the state that it finds. -/
theorem permits_granted_iff (ranges : List Range) :
    (∀ k ≤ ranges.length, (run (ranges.take k)).Exact) ↔
      ∀ k (h : k < ranges.length), (run (ranges.take k)).Safe ranges[k] := by
  have hnext : ∀ k (h : k < ranges.length),
      run (ranges.take (k + 1)) = (run (ranges.take k)).add ranges[k] := fun k h => by
    rw [List.take_add_one, List.getElem?_eq_getElem h, Option.toList_some, run_snoc]
  refine ⟨fun hexact k hk => ?_, fun hsafe k => ?_⟩
  · have hafter := hexact (k + 1) hk
    rw [hnext k hk] at hafter
    exact (add_exact_iff (hexact k (Nat.le_of_lt hk))).1 hafter
  · induction k with
    | zero => exact fun _ => start_exact
    | succ k ih =>
      intro hk
      rw [hnext k hk]
      exact (add_exact_iff (ih (Nat.le_of_lt hk))).2 (hsafe k hk)

/-- With the four slots taken, `10..70` is refused and its ids below 64 are permitted. -/
theorem refused_range_grants :
    (MessagePermissions.add ⟨10, 70⟩
        (run [⟨100, 101⟩, ⟨200, 201⟩, ⟨300, 301⟩, ⟨400, 401⟩]).permissions).1 =
      .err .kernelTableFull ∧
    (run [⟨100, 101⟩, ⟨200, 201⟩, ⟨300, 301⟩, ⟨400, 401⟩, ⟨10, 70⟩]).permissions.isPermitted 10 =
      true ∧
    ¬ (run [⟨100, 101⟩, ⟨200, 201⟩, ⟨300, 301⟩, ⟨400, 401⟩, ⟨10, 70⟩]).Exact := by
  refine ⟨by decide, by decide, fun h => ?_⟩
  exact absurd ((h 10).1 (by decide)) (by decide)

end Grants

end MessagePermissions

end Kernel
