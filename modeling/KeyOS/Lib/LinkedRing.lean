import Mathlib

/-!
# Circular doubly linked lists

Nodes of type `K` are linked by a partial map that gives a linked node its two
neighbours. `IsRing links l` says that following `next` from the first node of `l`
goes through `l` and back to the first node, and that `prev` is the way back.
-/

namespace LinkedRing

structure Link (K : Type) where
  next : K
  prev : K
deriving DecidableEq

abbrev Links (K : Type) : Type := K → Option (Link K)

variable {K : Type}

/-- `b` comes after `a`, and `a` before `b`. -/
def Joined (links : Links K) (a b : K) : Prop :=
  (links a).map Link.next = some b ∧ (links b).map Link.prev = some a

structure IsRing (links : Links K) (l : List K) : Prop where
  nodup : l.Nodup
  chain : Cycle.Chain (Joined links) (l : Cycle K)

variable {links links' : Links K} {l m : List K} {a b x : K}

/-! ## 1. Paths -/

/-- The inner nodes of a path keep their neighbours when its two ends change theirs. -/
theorem path_congr (hn : (a :: l).Nodup) (h : List.IsChain (Joined links) (a :: l))
    (hnext : ∀ k ∈ a :: l, k ≠ (a :: l).getLast (List.cons_ne_nil _ _) →
      (links' k).map Link.next = (links k).map Link.next)
    (hprev : ∀ k ∈ a :: l, k ≠ a → (links' k).map Link.prev = (links k).map Link.prev) :
    List.IsChain (Joined links') (a :: l) := by
  rw [List.isChain_iff_getElem] at h ⊢
  intro i hi
  obtain ⟨hab, hba⟩ := h i hi
  refine ⟨?_, ?_⟩
  · rw [hnext _ (List.getElem_mem _) ?_, hab]
    rw [List.getLast_eq_getElem, Ne, hn.getElem_inj_iff]
    omega
  · rw [hprev _ (List.getElem_mem _) ?_, hba]
    intro heq
    have hzero : (a :: l)[i + 1] = (a :: l)[0] := heq
    exact absurd (hn.getElem_inj_iff.1 hzero) (Nat.succ_ne_zero i)

theorem isRing_cons : IsRing links (a :: l) ↔ (a :: l).Nodup ∧
    List.IsChain (Joined links) (a :: l) ∧
    Joined links ((a :: l).getLast (List.cons_ne_nil _ _)) a := by
  constructor
  · rintro ⟨hn, hc⟩
    rw [Cycle.chain_coe_cons, ← List.cons_append, List.isChain_append] at hc
    exact ⟨hn, hc.1, hc.2.2 _ (List.getLast?_eq_some_getLast _) _ rfl⟩
  · rintro ⟨hn, hp, hj⟩
    refine ⟨hn, ?_⟩
    rw [Cycle.chain_coe_cons, ← List.cons_append, List.isChain_append]
    refine ⟨hp, List.isChain_singleton _, fun b hb c hc => ?_⟩
    rw [List.getLast?_eq_some_getLast (List.cons_ne_nil _ _)] at hb
    cases hb
    cases hc
    exact hj

/-! ## 2. Rings -/

namespace IsRing

theorem nil : IsRing links [] := ⟨List.nodup_nil, Cycle.Chain.nil _⟩

/-- A node that is linked to itself is a ring. -/
theorem single (h : links a = some ⟨a, a⟩) : IsRing links [a] := by
  refine isRing_cons.2 ⟨List.nodup_singleton a, List.isChain_singleton a, ?_⟩
  show Joined links a a
  rw [Joined, h]
  exact ⟨rfl, rfl⟩

/-- A ring may be entered at any of its nodes. -/
theorem rotate (h : IsRing links (l ++ m)) : IsRing links (m ++ l) := by
  refine ⟨List.nodup_append_comm.1 h.nodup, ?_⟩
  have hc := h.chain
  rwa [Cycle.coe_eq_coe.2 List.isRotated_append] at hc

/-- A ring depends on the links of its own nodes only. -/
theorem congr (h : IsRing links l) (hl : ∀ k ∈ l, links' k = links k) : IsRing links' l := by
  cases l with
  | nil => exact nil
  | cons a l =>
    obtain ⟨hn, hp, hj⟩ := isRing_cons.1 h
    refine isRing_cons.2 ⟨hn, path_congr hn hp ?_ ?_, ?_⟩
    · exact fun k hk _ => by rw [hl k hk]
    · exact fun k hk _ => by rw [hl k hk]
    · rw [Joined, hl _ (List.getLast_mem _), hl _ List.mem_cons_self]
      exact hj

/-- The neighbours of the first node are the second and the last one. -/
theorem head_link (h : IsRing links (a :: l)) :
    links a = some ⟨(l ++ [a]).head (List.append_ne_nil_of_right_ne_nil _ (List.cons_ne_nil _ _)),
      (a :: l).getLast (List.cons_ne_nil _ _)⟩ := by
  obtain ⟨-, hp, hnext, hprev⟩ := isRing_cons.1 h
  obtain ⟨e, he, hlast⟩ := Option.map_eq_some_iff.1 hprev
  cases l with
  | nil =>
    obtain ⟨e', he', hfirst⟩ := Option.map_eq_some_iff.1 hnext
    cases he.symm.trans he'
    rw [he, ← hlast, ← hfirst]
    rfl
  | cons b l =>
    obtain ⟨e', he', hfirst⟩ := Option.map_eq_some_iff.1 (List.isChain_cons_cons.1 hp).1.1
    cases he.symm.trans he'
    rw [he, ← hlast, ← hfirst]
    rfl

/-- Every node of a ring is linked, to nodes of the ring. -/
theorem exists_link (h : IsRing links l) (hx : x ∈ l) :
    ∃ e, links x = some e ∧ e.next ∈ l ∧ e.prev ∈ l := by
  obtain ⟨l₁, l₂, rfl⟩ := List.append_of_mem hx
  have hmem : ∀ k, k ∈ x :: (l₂ ++ l₁) ↔ k ∈ l₁ ++ x :: l₂ := by
    intro k
    simp only [List.mem_cons, List.mem_append]
    tauto
  refine ⟨_, (h.rotate).head_link, (hmem _).1 ?_, (hmem _).1 (List.getLast_mem _)⟩
  have := List.head_mem (l := l₂ ++ l₁ ++ [x]) (List.append_ne_nil_of_right_ne_nil _ (by simp))
  rcases List.mem_append.1 this with h | h
  · exact List.mem_cons_of_mem _ h
  · exact List.mem_cons.2 (.inl (List.mem_singleton.1 h))

/-- A node that comes after itself is alone. -/
theorem eq_single (h : IsRing links l) (hx : x ∈ l) {e : Link K} (he : links x = some e)
    (hne : e.next = x) : l = [x] := by
  obtain ⟨l₁, l₂, rfl⟩ := List.append_of_mem hx
  have hrot : IsRing links (x :: (l₂ ++ l₁)) := h.rotate
  cases hl : l₂ ++ l₁ with
  | nil =>
    obtain ⟨rfl, rfl⟩ := List.append_eq_nil_iff.1 hl
    rfl
  | cons a l =>
    rw [hl] at hrot
    cases he.symm.trans hrot.head_link
    exact absurd hne fun hax : a = x =>
      (List.nodup_cons.1 hrot.nodup).1 (hax ▸ List.mem_cons_self)

theorem prev_ne (h : IsRing links l) (hx : x ∈ l) {e : Link K} (he : links x = some e)
    (hne : e.next ≠ x) : e.prev ≠ x := by
  obtain ⟨l₁, l₂, rfl⟩ := List.append_of_mem hx
  have hrot : IsRing links (x :: (l₂ ++ l₁)) := h.rotate
  cases hl : l₂ ++ l₁ with
  | nil =>
    rw [hl] at hrot
    cases he.symm.trans hrot.head_link
    exact absurd rfl hne
  | cons a l =>
    rw [hl] at hrot
    cases he.symm.trans hrot.head_link
    have hmem : (x :: a :: l).getLast (List.cons_ne_nil _ _) ∈ a :: l := by
      rw [List.getLast_cons (List.cons_ne_nil a l)]
      exact List.getLast_mem _
    intro hlast
    have hlast : (x :: a :: l).getLast (List.cons_ne_nil _ _) = x := hlast
    rw [hlast] at hmem
    exact (List.nodup_cons.1 hrot.nodup).1 hmem

end IsRing

/-! ## 3. Editing a ring -/

variable [DecidableEq K]

def setNext (links : Links K) (k v : K) : Links K :=
  Function.update links k ((links k).map fun e => { e with next := v })

def setPrev (links : Links K) (k v : K) : Links K :=
  Function.update links k ((links k).map fun e => { e with prev := v })

@[simp] theorem setNext_prev (links : Links K) (k v j : K) :
    (setNext links k v j).map Link.prev = (links j).map Link.prev := by
  unfold setNext
  rcases eq_or_ne j k with rfl | h
  · rw [Function.update_self, Option.map_map]
    rfl
  · rw [Function.update_of_ne h]

@[simp] theorem setPrev_next (links : Links K) (k v j : K) :
    (setPrev links k v j).map Link.next = (links j).map Link.next := by
  unfold setPrev
  rcases eq_or_ne j k with rfl | h
  · rw [Function.update_self, Option.map_map]
    rfl
  · rw [Function.update_of_ne h]

theorem setNext_of_ne {j : K} (h : j ≠ a) (v : K) : setNext links a v j = links j :=
  Function.update_of_ne h _ _

theorem setPrev_of_ne {j : K} (h : j ≠ a) (v : K) : setPrev links a v j = links j :=
  Function.update_of_ne h _ _

theorem setNext_next {e : Link K} (h : links a = some e) (v : K) :
    (setNext links a v a).map Link.next = some v := by
  rw [setNext, Function.update_self, h]
  rfl

theorem setPrev_prev {e : Link K} (h : links a = some e) (v : K) :
    (setPrev links a v a).map Link.prev = some v := by
  rw [setPrev, Function.update_self, h]
  rfl

theorem setPrev_isSome {e : Link K} (h : links a = some e) (k v : K) :
    ∃ e', setPrev links k v a = some e' ∧ e'.next = e.next := by
  have := setPrev_next links k v a
  rw [h] at this
  exact Option.map_eq_some_iff.1 this

theorem setNext_isSome {e : Link K} (h : links a = some e) (k v : K) :
    ∃ e', setNext links k v a = some e' ∧ e'.prev = e.prev := by
  have := setNext_prev links k v a
  rw [h] at this
  exact Option.map_eq_some_iff.1 this

/-- Link `x` in before `a`, whose neighbours are `e`. -/
def insertBefore (links : Links K) (a x : K) (e : Link K) : Links K :=
  Function.update (setNext (setPrev links a x) e.prev x) x (some ⟨a, e.prev⟩)

/-- Take `x`, whose neighbours are `e`, out of its ring. -/
def unlink (links : Links K) (x : K) (e : Link K) : Links K :=
  setPrev (setNext (Function.update links x none) e.prev e.next) e.next e.prev

theorem insertBefore_of_ne {e : Link K} {k : K} (ha : k ≠ a) (hp : k ≠ e.prev) (hx : k ≠ x) :
    insertBefore links a x e k = links k := by
  rw [insertBefore, Function.update_of_ne hx, setNext_of_ne hp, setPrev_of_ne ha]

theorem unlink_of_ne {e : Link K} {k : K} (hn : k ≠ e.next) (hp : k ≠ e.prev) (hx : k ≠ x) :
    unlink links x e k = links k := by
  rw [unlink, setPrev_of_ne hn, setNext_of_ne hp, Function.update_of_ne hx]

namespace IsRing

/-- Inserting before the first node puts `x` at the end of the ring. -/
theorem insertBefore (h : IsRing links (a :: l)) (hx : x ∉ a :: l) {e : Link K}
    (ha : links a = some e) : IsRing (insertBefore links a x e) (a :: l ++ [x]) := by
  obtain ⟨hn, hp, -, hclose⟩ := isRing_cons.1 h
  rw [ha] at hclose
  have hlast : e.prev = (a :: l).getLast (List.cons_ne_nil _ _) := Option.some.inj hclose
  have hprev_mem : e.prev ∈ a :: l := hlast ▸ List.getLast_mem _
  obtain ⟨ep, hep, -, -⟩ := h.exists_link hprev_mem
  have hne : ∀ k ∈ a :: l, k ≠ x := fun k hk hkx => hx (hkx ▸ hk)
  have hself : LinkedRing.insertBefore links a x e x = some ⟨a, e.prev⟩ :=
    Function.update_self ..
  have hother : ∀ k ≠ x, LinkedRing.insertBefore links a x e k =
      setNext (setPrev links a x) e.prev x k := fun k hk => Function.update_of_ne hk _ _
  have hnext : (LinkedRing.insertBefore links a x e e.prev).map Link.next = some x := by
    obtain ⟨e', he', -⟩ := setPrev_isSome hep a x
    rw [hother _ (hne _ hprev_mem), setNext_next he']
  have hprev : (LinkedRing.insertBefore links a x e a).map Link.prev = some x := by
    rw [hother _ (hne _ List.mem_cons_self), setNext_prev, setPrev_prev ha]
  have hpath : List.IsChain (Joined (LinkedRing.insertBefore links a x e)) (a :: l) := by
    refine path_congr hn hp (fun k hk hkl => ?_) fun k hk hka => ?_
    · rw [hother k (hne k hk), setNext_of_ne (hlast ▸ hkl), setPrev_next]
    · rw [hother k (hne k hk), setNext_prev, setPrev_of_ne hka]
  refine isRing_cons.2 ⟨List.nodup_append.2 ⟨hn, List.nodup_singleton x, fun k hk j hj => ?_⟩, ?_, ?_⟩
  · rw [List.mem_singleton.1 hj]
    exact hne k hk
  · refine List.isChain_append.2 ⟨hpath, List.isChain_singleton x, fun b hb c hc => ?_⟩
    rw [List.getLast?_eq_some_getLast (List.cons_ne_nil _ _)] at hb
    cases hb
    cases hc
    rw [← hlast, Joined, hself]
    exact ⟨hnext, rfl⟩
  · have hx_last : (a :: (l ++ [x])).getLast (List.cons_ne_nil _ _) = x :=
      List.getLast_append_singleton (a :: l)
    show Joined _ ((a :: (l ++ [x])).getLast (List.cons_ne_nil _ _)) a
    rw [hx_last, Joined, hself]
    exact ⟨rfl, hprev⟩

/-- Unlinking the first node leaves the ring of the others. -/
theorem unlink_head (h : IsRing links (x :: a :: l)) {e : Link K} (hx : links x = some e) :
    IsRing (unlink links x e) (a :: l) := by
  obtain ⟨hn, hp, -, -⟩ := isRing_cons.1 h
  cases hx.symm.trans h.head_link
  obtain ⟨hxn, hn⟩ := List.nodup_cons.1 hn
  have hpath := (List.isChain_cons_cons.1 hp).2
  have hne : ∀ k ∈ a :: l, k ≠ x := fun k hk hkx => hxn (hkx ▸ hk)
  have hlast : (x :: a :: l).getLast (List.cons_ne_nil _ _) =
      (a :: l).getLast (List.cons_ne_nil _ _) := List.getLast_cons _
  set p := (a :: l).getLast (List.cons_ne_nil _ _) with hp
  have hbase : ∀ k ∈ a :: l, Function.update links x none k = links k := fun k hk =>
    Function.update_of_ne (hne k hk) _ _
  have hp_mem : p ∈ a :: l := List.getLast_mem _
  obtain ⟨ep, hep, -⟩ := h.exists_link (List.mem_cons_of_mem x hp_mem)
  obtain ⟨ea, hea, -⟩ := h.exists_link (List.mem_cons_of_mem x (List.mem_cons_self (a := a)))
  show IsRing (setPrev (setNext (Function.update links x none) _ a) a _) (a :: l)
  rw [hlast]
  refine isRing_cons.2 ⟨hn, path_congr hn hpath (fun k hk hkl => ?_) fun k hk hka => ?_, ?_, ?_⟩
  · rw [setPrev_next, setNext_of_ne hkl, hbase k hk]
  · rw [setPrev_of_ne hka, setNext_prev, hbase k hk]
  · rw [setPrev_next, setNext_next ((hbase p hp_mem).trans hep)]
  · obtain ⟨e', he', -⟩ := setNext_isSome ((hbase a List.mem_cons_self).trans hea) p a
    rw [setPrev_prev he']

/-- Unlinking any node leaves the ring of the others, entered where it was before. -/
theorem unlink (h : IsRing links l) (hx : x ∈ l) {e : Link K} (he : links x = some e)
    (hne : e.next ≠ x) : IsRing (unlink links x e) (l.erase x) := by
  obtain ⟨l₁, l₂, rfl⟩ := List.append_of_mem hx
  have hx₁ : x ∉ l₁ := fun hmem =>
    (List.nodup_append.1 h.nodup).2.2 x hmem x List.mem_cons_self rfl
  rw [List.erase_append_right _ hx₁, List.erase_cons_head]
  have hrot : IsRing links (x :: (l₂ ++ l₁)) := h.rotate
  cases hl : l₂ ++ l₁ with
  | nil =>
    rw [hl] at hrot
    cases he.symm.trans hrot.head_link
    exact absurd rfl hne
  | cons a l =>
    rw [hl] at hrot
    have := hrot.unlink_head he
    rw [← hl] at this
    exact this.rotate

end IsRing

end LinkedRing
