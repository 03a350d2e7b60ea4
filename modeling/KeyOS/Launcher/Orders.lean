import KeyOS.Launcher.Grid

/-!
# Saved orders

`order` writes a collection as its ids by slot, with an empty text for a gap, and `from_saved_order`
claims the items back. A saved order may name an item twice, name none that was discovered, or have
more ids than there are slots; whatever it says, each item is claimed at most once.
-/

namespace Launcher

open KeySort

/-! ## 1. Claims -/

section Claims

variable {remaining rest : List LauncherItem} {item : LauncherItem} {id : Text}

theorem claimItem_some (h : claimItem remaining id = some (item, rest)) :
    item.id = id ∧ remaining.Perm (item :: rest) := by
  unfold claimItem at h
  cases hfind : remaining.findIdx? (·.id = id) with
  | none =>
    rw [hfind] at h
    cases h
  | some index =>
    obtain ⟨before, x, after, hremaining, hid, hx, herase, -⟩ :=
      @LauncherCollection.findIdx?_split _ Nat _ _ _ hfind
    simp only [hfind, hx, herase, Option.map_some, Option.some.injEq, Prod.mk.injEq] at h
    obtain ⟨rfl, rfl⟩ := h
    exact ⟨of_decide_eq_true hid, hremaining ▸ List.perm_middle⟩

/-- With distinct ids the item with the id is the one that is claimed. -/
theorem claimItem_mem (hnodup : (remaining.map (·.id)).Nodup) (hitem : item ∈ remaining) :
    claimItem remaining item.id = some (item, remaining.erase item) := by
  cases hfind : remaining.findIdx? (·.id = item.id) with
  | none =>
    have hne := List.findIdx?_eq_none_iff.1 hfind item hitem
    simp at hne
  | some index =>
    obtain ⟨before, x, after, hremaining, hid, hx, herase, -⟩ :=
      @LauncherCollection.findIdx?_split _ Nat _ _ _ hfind
    have heq : x = item := by
      refine List.inj_on_of_nodup_map hnodup ?_ hitem (of_decide_eq_true hid)
      simp [hremaining]
    subst heq
    have hbefore : x ∉ before := by
      intro hmem
      rw [hremaining, List.map_append, List.nodup_append] at hnodup
      exact hnodup.2.2 x.id (List.mem_map_of_mem hmem) x.id (by simp) rfl
    simp only [claimItem, hfind, hx, herase, Option.map_some]
    rw [hremaining, List.erase_append_right _ hbefore, List.erase_cons_head]

end Claims

namespace LauncherCollection

/-! ## 2. From a saved order -/

section ClaimOrder

variable {slot : Nat} {remaining : List LauncherItem} {savedIds : List Text}

theorem claimOrder_skip (id : Text) (h : id = [] ∨ claimItem remaining id = none) :
    claimOrder slot remaining (id :: savedIds) = claimOrder (slot + 1) remaining savedIds := by
  rw [claimOrder]
  rcases h with rfl | hnone
  · rfl
  · split
    · rfl
    · rw [hnone]

theorem claimOrder_claim {id : Text} {item : LauncherItem} {rest : List LauncherItem}
    (hid : id ≠ []) (h : claimItem remaining id = some (item, rest)) :
    claimOrder slot remaining (id :: savedIds) =
      (⟨slot, item⟩ :: (claimOrder (slot + 1) rest savedIds).1,
        (claimOrder (slot + 1) rest savedIds).2) := by
  rw [claimOrder, if_neg hid, h]

/-- Claimed items go out of what remains, and each comes to the slot of its id. -/
theorem claimOrder_spec :
    (((claimOrder slot remaining savedIds).1.map (·.item)) ++
      (claimOrder slot remaining savedIds).2).Perm remaining ∧
    Ascending SlotItem.slot (claimOrder slot remaining savedIds).1 ∧
    ∀ s ∈ (claimOrder slot remaining savedIds).1,
      slot ≤ s.slot ∧ s.slot < slot + savedIds.length := by
  induction savedIds generalizing slot remaining with
  | nil => simp [claimOrder, Ascending]
  | cons id savedIds ih =>
    rcases Decidable.em (id = []) with hempty | hid
    · rw [claimOrder_skip id (.inl hempty)]
      obtain ⟨hperm, hsorted, hslots⟩ := @ih (slot + 1) remaining
      refine ⟨hperm, hsorted, fun s hs => ?_⟩
      have := hslots s hs
      simp only [List.length_cons]
      omega
    · cases hclaim : claimItem remaining id with
      | none =>
        rw [claimOrder_skip id (.inr hclaim)]
        obtain ⟨hperm, hsorted, hslots⟩ := @ih (slot + 1) remaining
        refine ⟨hperm, hsorted, fun s hs => ?_⟩
        have := hslots s hs
        simp only [List.length_cons]
        omega
      | some claimed =>
        obtain ⟨item, rest⟩ := claimed
        rw [claimOrder_claim hid hclaim]
        obtain ⟨hperm, hsorted, hslots⟩ := @ih (slot + 1) rest
        refine ⟨?_, ?_, ?_⟩
        · exact (hperm.cons item).trans (claimItem_some hclaim).2.symm
        · exact List.pairwise_cons.2 ⟨fun s hs => (hslots s hs).1, hsorted⟩
        · intro s hs
          simp only [List.length_cons]
          rcases List.mem_cons.1 hs with rfl | hs
          · constructor
            · exact le_refl slot
            · simp
          · have := hslots s hs
            omega

end ClaimOrder

/-! ## 3. There and back -/

section Order

variable {c : LauncherCollection} {slot : Nat} {items : List SlotItem} {remaining : List LauncherItem}

/-- The ids from a slot on, with empty texts for the slots between them. -/
def gapped : Nat → List SlotItem → List Text
  | _, [] => []
  | slot, s :: items => List.replicate (s.slot - slot) [] ++ s.item.id :: gapped (s.slot + 1) items

theorem length_gapped {n : Nat} (h : Ascending SlotItem.slot items)
    (hslots : ∀ s ∈ items, slot ≤ s.slot ∧ s.slot < n) (hn : slot ≤ n) :
    slot + (gapped slot items).length ≤ n := by
  induction items generalizing slot with
  | nil => simpa [gapped] using hn
  | cons s items ih =>
    obtain ⟨hs, hrest⟩ := List.pairwise_cons.1 h
    obtain ⟨hge, hlt⟩ := hslots s List.mem_cons_self
    have hbeyond : ∀ s' ∈ items, s.slot + 1 ≤ s'.slot ∧ s'.slot < n := fun s' hs' =>
      ⟨hs s' hs', (hslots s' (List.mem_cons_of_mem s hs')).2⟩
    have hnext := ih hrest hbeyond hlt
    simp only [gapped, List.length_append, List.length_replicate, List.length_cons]
    omega

/-- Setting the ids of an ascending run in a row of empty texts -/
theorem foldl_set_ids {front : List Text} {k : Nat} (h : Ascending SlotItem.slot items)
    (hslots : ∀ s ∈ items, front.length ≤ s.slot ∧ s.slot < front.length + k) :
    items.foldl (fun ids s => ids.set s.slot s.item.id) (front ++ List.replicate k []) =
      front ++ gapped front.length items ++
        List.replicate (k - (gapped front.length items).length) [] := by
  induction items generalizing front k with
  | nil => simp [gapped]
  | cons s items ih =>
    obtain ⟨hs, hrest⟩ := List.pairwise_cons.1 h
    obtain ⟨hge, hlt⟩ := hslots s List.mem_cons_self
    obtain ⟨gap, hgap⟩ := Nat.exists_eq_add_of_le hge
    obtain ⟨k, rfl⟩ : ∃ k', k = gap + 1 + k' := Nat.exists_eq_add_of_le (by omega)
    have hset : (front ++ List.replicate (gap + 1 + k) []).set s.slot s.item.id =
        (front ++ List.replicate gap [] ++ [s.item.id]) ++ List.replicate k [] := by
      rw [hgap, List.set_append_right _ _ (by omega), Nat.add_sub_cancel_left, List.replicate_add,
        List.replicate_add, List.append_assoc, List.set_append_right _ _ (by simp)]
      simp
    have hlen : (front ++ List.replicate gap [] ++ [s.item.id]).length = s.slot + 1 := by
      simp [hgap, Nat.add_assoc]
    have hbeyond : ∀ s' ∈ items,
        (front ++ List.replicate gap [] ++ [s.item.id]).length ≤ s'.slot ∧
          s'.slot < (front ++ List.replicate gap [] ++ [s.item.id]).length + k := by
      intro s' hs'
      have hlt' := (hslots s' (List.mem_cons_of_mem s hs')).2
      rw [hlen]
      exact ⟨hs s' hs', by omega⟩
    rw [List.foldl_cons, hset, ih hrest hbeyond, hlen, gapped, hgap, Nat.add_sub_cancel_left]
    simp only [List.append_assoc, List.length_append, List.length_replicate, List.length_cons,
      List.cons_append, List.nil_append]
    congr 5
    omega

theorem order_eq (h : Ascending SlotItem.slot c.items) :
    ∃ k, c.order = gapped 0 c.items ++ List.replicate k [] := by
  have hslots : ∀ s ∈ c.items, ([] : List Text).length ≤ s.slot ∧
      s.slot < ([] : List Text).length + (c.items.map (·.slot)).max?.elim 0 (· + 1) := by
    intro s hs
    have hmem : s.slot ∈ c.items.map (·.slot) := List.mem_map_of_mem hs
    cases hmax : (c.items.map (·.slot)).max? with
    | none =>
      rw [List.max?_eq_none_iff.1 hmax] at hmem
      cases hmem
    | some m =>
      have hle := (List.max?_eq_some_iff.1 hmax).2 s.slot hmem
      simp only [List.length_nil, Option.elim_some]
      omega
  have hset := foldl_set_ids h hslots
  rw [List.nil_append, List.nil_append] at hset
  exact ⟨_, hset⟩

theorem claimOrder_gap (gap : Nat) (savedIds : List Text) :
    claimOrder slot remaining (List.replicate gap [] ++ savedIds) =
      claimOrder (slot + gap) remaining savedIds := by
  induction gap generalizing slot with
  | zero => rfl
  | succ gap ih =>
    rw [List.replicate_succ, List.cons_append, claimOrder_skip [] (.inl rfl), ih]
    congr 1
    omega

/-- Gaps at the end change nothing. -/
theorem claimOrder_trailing (savedIds : List Text) (k : Nat) :
    claimOrder slot remaining (savedIds ++ List.replicate k []) =
      claimOrder slot remaining savedIds := by
  induction savedIds generalizing slot remaining with
  | nil =>
    have hgap := @claimOrder_gap slot remaining k []
    rwa [List.append_nil] at hgap
  | cons id savedIds ih => simp only [List.cons_append, claimOrder, ih]

/-- Items that are claimed by their own ids come back to their slots. -/
theorem claimOrder_gapped (k : Nat) (h : Ascending SlotItem.slot items)
    (hslots : ∀ s ∈ items, slot ≤ s.slot) (hremaining : (remaining.map (·.id)).Nodup)
    (hnodup : (items.map (·.item)).Nodup) (hmem : ∀ s ∈ items, s.item ∈ remaining)
    (hids : ∀ s ∈ items, s.item.id ≠ []) :
    claimOrder slot remaining (gapped slot items ++ List.replicate k []) =
      (items, remaining.diff (items.map (·.item))) := by
  induction items generalizing slot remaining with
  | nil =>
    rw [gapped, claimOrder_trailing]
    rfl
  | cons s items ih =>
    obtain ⟨hs, hrest⟩ := List.pairwise_cons.1 h
    obtain ⟨hnew, hnodup'⟩ := List.nodup_cons.1 hnodup
    have hnext : ∀ s' ∈ items, s'.item ∈ remaining.erase s.item := by
      intro s' hs'
      refine (List.mem_erase_of_ne ?_).2 (hmem s' (List.mem_cons_of_mem s hs'))
      intro heq
      exact hnew (List.mem_map.2 ⟨s', hs', heq⟩)
    have herased : ((remaining.erase s.item).map (·.id)).Nodup :=
      hremaining.sublist (List.erase_sublist.map _)
    have hslot : slot + (s.slot - slot) = s.slot := by
      have := hslots s List.mem_cons_self
      omega
    rw [gapped, List.append_assoc, List.cons_append, claimOrder_gap, hslot,
      claimOrder_claim (hids s List.mem_cons_self)
        (claimItem_mem hremaining (hmem s List.mem_cons_self)),
      ih hrest (fun s' hs' => hs s' hs') herased hnodup' hnext
        (fun s' hs' => hids s' (List.mem_cons_of_mem s hs')), List.map_cons, List.diff_cons]

end Order

end LauncherCollection

end Launcher
