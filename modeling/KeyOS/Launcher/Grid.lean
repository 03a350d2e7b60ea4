import KeyOS.Launcher.Layout

/-!
# One collection

A tidy collection has its items in ascending order of their slots, all of them below the capacity.
Inserting, moving and swapping keep it tidy. What a saved order describes need not be tidy; there,
an insertion loses no item, and `resize` makes the collection tidy.
-/

namespace Launcher

open KeySort

namespace LauncherCollection

/-! ## 1. Tidy collections -/

structure Tidy (c : LauncherCollection) : Prop where
  sorted : Ascending SlotItem.slot c.items
  inside : ∀ s ∈ c.items, s.slot < c.capacity

/-- The items in the order of the vector. -/
def icons (c : LauncherCollection) : List LauncherItem := c.items.map (·.item)

section Slots

variable {c : LauncherCollection} {slot target free : Nat} {item : LauncherItem}

theorem isFree_iff : c.isFree slot = true ↔ ∀ s ∈ c.items, s.slot ≠ slot := by
  simp [isFree]

/-- The item that an index names, and the list around it. -/
theorem findIdx?_split {α β : Type} {xs : List α} {p : α → Bool} {index : Nat}
    (h : xs.findIdx? p = some index) :
    ∃ before x after, xs = before ++ x :: after ∧ p x = true ∧ xs[index]? = some x ∧
      xs.eraseIdx index = before ++ after ∧
      ∀ (f : α → β) (g : β → β),
        (xs.map f).modify index g = before.map f ++ g (f x) :: after.map f := by
  obtain ⟨hlt, hx, -⟩ := List.findIdx?_eq_some_iff_getElem.1 h
  refine ⟨xs.take index, xs[index], xs.drop (index + 1), by simp, hx,
    List.getElem?_eq_getElem hlt, List.eraseIdx_eq_take_drop_succ .., ?_⟩
  intro f g
  rw [List.modify_eq_take_cons_drop (by simpa using hlt)]
  simp

theorem findIdx?_slot_none (h : c.items.findIdx? (·.slot = slot) = none) : c.isFree slot = true := by
  rw [isFree_iff]
  intro s hs
  simpa using List.findIdx?_eq_none_iff.1 h s hs

/-- Fewer items than slots leave a slot free. -/
theorem exists_free (h : c.items.length < c.capacity) :
    ∃ free < c.capacity, c.isFree free = true := by
  by_contra hnone
  have hsub : List.range c.capacity ⊆ c.items.map (·.slot) := by
    intro slot hslot
    by_contra hnot
    refine hnone ⟨slot, List.mem_range.1 hslot, isFree_iff.2 ?_⟩
    intro s hs heq
    exact hnot (heq ▸ List.mem_map_of_mem hs)
  have hle := (List.subperm_of_subset List.nodup_range hsub).length_le
  rw [List.length_range, List.length_map] at hle
  omega

theorem remove_cases (c : LauncherCollection) (slot : Nat) :
    (c.remove slot = (none, c) ∧ c.isFree slot = true) ∨
    ∃ before s after, c.items = before ++ s :: after ∧ s.slot = slot ∧
      c.remove slot = (some s.item, { c with items := before ++ after }) := by
  unfold remove
  cases hfind : c.items.findIdx? (·.slot = slot) with
  | none => exact .inl ⟨rfl, findIdx?_slot_none hfind⟩
  | some index =>
    obtain ⟨before, s, after, hitems, hslot, hs, herase, -⟩ := @findIdx?_split _ Nat _ _ _ hfind
    exact .inr ⟨before, s, after, hitems, of_decide_eq_true hslot, by simp [hs, herase]⟩

/-- The slots that slide keep their order and leave the target empty. -/
theorem shiftSlot_lt {a b : Nat} (ha : a ≠ free) (hb : b ≠ free) (h : a < b) :
    shiftSlot target free a < shiftSlot target free b := by
  unfold shiftSlot
  repeat' split
  all_goals omega

theorem shiftSlot_ne {a : Nat} (ha : a ≠ free) : shiftSlot target free a ≠ target := by
  unfold shiftSlot
  split
  · omega
  · split <;> omega

theorem shiftSlot_le {a n : Nat} (ha : a < n) : shiftSlot target free a ≤ n := by
  unfold shiftSlot
  split
  · omega
  · split <;> omega

theorem shiftSlot_inside {a n : Nat} (ha : a < n) (hfree : free < n) :
    shiftSlot target free a < n := by
  unfold shiftSlot
  split
  · omega
  · split <;> omega

@[simp] theorem shiftSlot_self (target slot : Nat) : shiftSlot target target slot = slot := by
  unfold shiftSlot
  split
  · omega
  · split <;> omega

@[simp] theorem shiftRun_self (c : LauncherCollection) (slot : Nat) : c.shiftRun slot slot = c := by
  simp [shiftRun]

@[simp] theorem icons_shiftRun (c : LauncherCollection) (target free : Nat) :
    (c.shiftRun target free).icons = c.icons := by
  simp [shiftRun, icons]

theorem icons_sort (c : LauncherCollection) : c.sort.icons.Perm c.icons :=
  (sortBy_perm SlotItem.slot c.items).map _

theorem shiftRun_sorted (h : Ascending SlotItem.slot c.items) (hfree : c.isFree free = true) :
    Ascending SlotItem.slot (c.shiftRun target free).items := by
  rw [isFree_iff] at hfree
  refine List.pairwise_map.2 (h.imp_of_mem ?_)
  intro a b ha hb hlt
  exact shiftSlot_lt (hfree a ha) (hfree b hb) hlt

theorem shiftRun_free (hfree : c.isFree free = true) :
    (c.shiftRun target free).isFree target = true := by
  rw [isFree_iff] at hfree ⊢
  intro s hs
  obtain ⟨s', hs', rfl⟩ := List.mem_map.1 hs
  exact shiftSlot_ne (hfree s' hs')

theorem slideTarget_eq (hslot : slot < c.capacity) :
    c.slideTarget slot = (((List.range' slot (c.capacity - slot)).find? c.isFree).or
      ((List.range slot).reverse.find? c.isFree)).getD c.capacity := by
  have hmin : min slot (c.capacity - 1) = slot := by omega
  simp only [slideTarget, hmin]

/-- Where a run slides to: a free slot, or past the end when there is none. -/
theorem slideTarget_cases (hslot : slot < c.capacity) :
    (c.slideTarget slot < c.capacity ∧ c.isFree (c.slideTarget slot) = true) ∨
    (c.slideTarget slot = c.capacity ∧ ∀ s < c.capacity, c.isFree s = false) := by
  rw [slideTarget_eq hslot]
  cases hright : (List.range' slot (c.capacity - slot)).find? c.isFree with
  | some s =>
    have hmem := List.mem_range'_1.1 (List.mem_of_find?_eq_some hright)
    have hlt : s < c.capacity := by omega
    exact .inl ⟨hlt, List.find?_some hright⟩
  | none =>
    cases hleft : (List.range slot).reverse.find? c.isFree with
    | some s =>
      have hmem := List.mem_range.1 (List.mem_reverse.1 (List.mem_of_find?_eq_some hleft))
      exact .inl ⟨Nat.lt_trans hmem hslot, @List.find?_some _ _ s _ hleft⟩
    | none =>
      refine .inr ⟨rfl, ?_⟩
      intro s hs
      rcases Nat.lt_or_ge s slot with hlt | hge
      · simpa using List.find?_eq_none.1 hleft s (List.mem_reverse.2 (List.mem_range.2 hlt))
      · have hmem : s ∈ List.range' slot (c.capacity - slot) := by
          rw [List.mem_range'_1]
          omega
        simpa using List.find?_eq_none.1 hright s hmem

theorem slideTarget_free (hslot : slot < c.capacity) (hfree : c.isFree slot = true) :
    c.slideTarget slot = slot := by
  obtain ⟨rest, hrest⟩ : ∃ rest, c.capacity - slot = rest + 1 := ⟨c.capacity - slot - 1, by omega⟩
  rw [slideTarget_eq hslot, hrest, List.range'_succ, List.find?_cons_of_pos hfree]
  rfl

end Slots

/-! ## 2. Insertion -/

section Insert

variable {c : LauncherCollection} {slot : Nat} {item : LauncherItem}

/-- What `insert` leaves of a collection: the run is moved aside, and what it pushed off is gone. -/
def madeRoom (c : LauncherCollection) (target : Nat) : Option LauncherItem × LauncherCollection :=
  (c.shiftRun target (c.slideTarget target)).remove c.capacity

theorem insert_eq (hcap : 0 < c.capacity) :
    c.insert slot item = ((c.madeRoom (min slot (c.capacity - 1))).1,
      ((c.madeRoom (min slot (c.capacity - 1))).2.push ⟨min slot (c.capacity - 1), item⟩).sort) := by
  rw [insert, if_neg (by omega)]
  rfl

theorem madeRoom_icons (target : Nat) :
    ((c.madeRoom target).2.icons ++ (c.madeRoom target).1.toList).Perm c.icons := by
  rw [← icons_shiftRun c target (c.slideTarget target)]
  rcases remove_cases (c.shiftRun target (c.slideTarget target)) c.capacity with
    ⟨hnone, -⟩ | ⟨before, s, after, hitems, -, hsome⟩
  · rw [madeRoom, hnone]
    simp
  · rw [madeRoom, hsome, icons, icons, hitems]
    simp only [List.map_append, List.map_cons, Option.toList_some, List.append_assoc]
    exact (List.perm_append_comm.trans (.refl _)).append_left _

theorem madeRoom_capacity (target : Nat) : (c.madeRoom target).2.capacity = c.capacity := by
  rcases remove_cases (c.shiftRun target (c.slideTarget target)) c.capacity with
    ⟨hnone, -⟩ | ⟨_, _, _, -, -, hsome⟩
  · rw [madeRoom, hnone]
    rfl
  · rw [madeRoom, hsome]
    rfl

theorem insert_capacity (slot : Nat) (item : LauncherItem) :
    (c.insert slot item).2.capacity = c.capacity := by
  by_cases hcap : 0 < c.capacity
  · rw [insert_eq hcap]
    exact madeRoom_capacity _
  · rw [insert, if_pos (by omega)]

/-- No item is lost: what is pushed off is handed back. -/
theorem insert_icons (hcap : 0 < c.capacity) :
    ((c.insert slot item).2.icons ++ (c.insert slot item).1.toList).Perm (item :: c.icons) := by
  rw [insert_eq hcap]
  have hsort := icons_sort ((c.madeRoom (min slot (c.capacity - 1))).2.push
    ⟨min slot (c.capacity - 1), item⟩)
  have hpush : ((c.madeRoom (min slot (c.capacity - 1))).2.push
      ⟨min slot (c.capacity - 1), item⟩).icons =
      (c.madeRoom (min slot (c.capacity - 1))).2.icons ++ [item] := by
    simp [push, icons]
  rw [hpush] at hsort
  refine (hsort.append_right _).trans ?_
  rw [List.append_assoc, List.singleton_append]
  exact List.perm_middle.trans ((madeRoom_icons _).cons item)

theorem mem_insert (hcap : 0 < c.capacity) :
    ⟨min slot (c.capacity - 1), item⟩ ∈ (c.insert slot item).2.items := by
  rw [insert_eq hcap]
  simp [sort, push]

theorem remove_items {n : Nat} (h : Ascending SlotItem.slot c.items) :
    (c.remove n).2.items = c.items.filter fun s => decide (s.slot ≠ n) := by
  rcases remove_cases c n with ⟨hnone, hfree⟩ | ⟨before, s, after, hitems, hslot, hsome⟩
  · rw [hnone]
    symm
    simpa [List.filter_eq_self] using isFree_iff.1 hfree
  · rw [hsome]
    rw [hitems] at h ⊢
    obtain ⟨-, hafter, hbefore⟩ := List.pairwise_append.1 h
    have hkeep : ∀ x ∈ before, x.slot ≠ n := fun x hx =>
      hslot ▸ ne_of_lt (hbefore x hx s List.mem_cons_self)
    have hkeep' : ∀ x ∈ after, x.slot ≠ n := fun x hx =>
      hslot ▸ ne_of_gt ((List.pairwise_cons.1 hafter).1 x hx)
    rw [List.filter_append, List.filter_cons_of_neg (by simp [hslot]),
      List.filter_eq_self.2 (by simpa using hkeep), List.filter_eq_self.2 (by simpa using hkeep')]

theorem Tidy.slides (h : c.Tidy) (hslot : slot < c.capacity) :
    c.isFree (c.slideTarget slot) = true := by
  rcases slideTarget_cases hslot with ⟨-, hfree⟩ | ⟨heq, -⟩
  · exact hfree
  · rw [heq, isFree_iff]
    intro s hs
    exact ne_of_lt (h.inside s hs)

theorem Tidy.madeRoom (h : c.Tidy) (hslot : slot < c.capacity) :
    Ascending SlotItem.slot (c.madeRoom slot).2.items ∧
      ∀ s ∈ (c.madeRoom slot).2.items, s.slot < c.capacity ∧ s.slot ≠ slot := by
  have hfree := h.slides hslot
  have hsorted : Ascending SlotItem.slot (c.shiftRun slot (c.slideTarget slot)).items :=
    shiftRun_sorted h.sorted hfree
  rw [LauncherCollection.madeRoom, remove_items hsorted]
  refine ⟨hsorted.filter _, ?_⟩
  intro s hs
  obtain ⟨hmem, hne⟩ := List.mem_filter.1 hs
  refine ⟨lt_of_le_of_ne ?_ (of_decide_eq_true hne), ?_⟩
  · obtain ⟨s', hs', rfl⟩ := List.mem_map.1 hmem
    exact shiftSlot_le (h.inside s' hs')
  · exact isFree_iff.1 (shiftRun_free hfree) s hmem

/-- Slots that are distinct and in range only have to be sorted. -/
theorem tidy_sort (hnodup : (c.items.map SlotItem.slot).Nodup)
    (hinside : ∀ s ∈ c.items, s.slot < c.capacity) : c.sort.Tidy := by
  refine ⟨ascending_sortBy hnodup, ?_⟩
  intro s hs
  exact hinside s (mem_sortBy.1 hs)

/-- An item in a slot that is free. -/
theorem tidy_push {target : Nat} (hsorted : Ascending SlotItem.slot c.items)
    (hrest : ∀ s ∈ c.items, s.slot < c.capacity ∧ s.slot ≠ target) (htarget : target < c.capacity) :
    (c.push ⟨target, item⟩).sort.Tidy := by
  refine tidy_sort ?_ ?_
  · simp only [push, List.map_append, List.map_cons, List.map_nil]
    refine List.nodup_append.2 ⟨hsorted.nodup, List.nodup_singleton _, ?_⟩
    intro a ha b hb
    obtain ⟨s, hs, rfl⟩ := List.mem_map.1 ha
    rw [List.mem_singleton.1 hb]
    exact (hrest s hs).2
  · intro s hs
    rcases List.mem_append.1 hs with hs | hs
    · exact (hrest s hs).1
    · rw [List.mem_singleton.1 hs]
      exact htarget

theorem Tidy.insert (h : c.Tidy) (hcap : 0 < c.capacity) (slot : Nat) (item : LauncherItem) :
    (c.insert slot item).2.Tidy := by
  have hslot : min slot (c.capacity - 1) < c.capacity := by omega
  obtain ⟨hsorted, hrest⟩ := h.madeRoom hslot
  rw [insert_eq hcap]
  refine tidy_push hsorted ?_ ?_
  · rw [madeRoom_capacity]
    exact hrest
  · rw [madeRoom_capacity]
    exact hslot

/-- With a free slot nothing is pushed off. -/
theorem Tidy.madeRoom_none (h : c.Tidy) (hslot : slot < c.capacity) {free : Nat}
    (hlt : free < c.capacity) (hfree : c.isFree free = true) :
    c.madeRoom slot = (none, c.shiftRun slot (c.slideTarget slot)) := by
  have hslide : c.slideTarget slot < c.capacity := by
    rcases slideTarget_cases hslot with ⟨hslide, -⟩ | ⟨-, hall⟩
    · exact hslide
    · rw [hall free hlt] at hfree
      cases hfree
  have hinside : ∀ s ∈ (c.shiftRun slot (c.slideTarget slot)).items, s.slot < c.capacity := by
    intro s hs
    obtain ⟨s', hs', rfl⟩ := List.mem_map.1 hs
    exact shiftSlot_inside (h.inside s' hs') hslide
  rcases remove_cases (c.shiftRun slot (c.slideTarget slot)) c.capacity with
    ⟨hnone, -⟩ | ⟨before, s, after, hitems, heq, -⟩
  · exact hnone
  · have hlt := hinside s (hitems ▸ List.mem_append_right _ List.mem_cons_self)
    exact absurd heq (ne_of_lt hlt)

theorem Tidy.insert_none (h : c.Tidy) {free : Nat} (hlt : free < c.capacity)
    (hfree : c.isFree free = true) : (c.insert slot item).1 = none := by
  rw [insert_eq (by omega), h.madeRoom_none (by omega) hlt hfree]

/-- Insertion at the front puts the item before all the others in their order. -/
theorem Tidy.insert_front (h : c.Tidy) (hcap : 0 < c.capacity) :
    (c.insert 0 item).2.icons ++ (c.insert 0 item).1.toList = item :: c.icons := by
  have hfree := h.slides hcap
  have hsorted : Ascending SlotItem.slot (c.shiftRun 0 (c.slideTarget 0)).items :=
    shiftRun_sorted h.sorted hfree
  have hfront := isFree_iff.1 (@shiftRun_free _ 0 _ hfree)
  have hle : ∀ s ∈ (c.shiftRun 0 (c.slideTarget 0)).items, s.slot ≤ c.capacity := by
    intro s hs
    obtain ⟨s', hs', rfl⟩ := List.mem_map.1 hs
    exact shiftSlot_le (h.inside s' hs')
  have sort_front : ∀ xs : List SlotItem, xs.Sublist (c.shiftRun 0 (c.slideTarget 0)).items →
      sortBy SlotItem.slot (xs ++ [⟨0, item⟩]) = ⟨0, item⟩ :: xs := by
    intro xs hxs
    refine sortBy_eq (List.pairwise_cons.2 ⟨?_, List.Pairwise.sublist hxs hsorted⟩)
      List.perm_append_comm
    intro s hs
    exact Nat.pos_of_ne_zero (hfront s (hxs.subset hs))
  rw [insert_eq hcap, Nat.zero_min, ← icons_shiftRun c 0 (c.slideTarget 0)]
  rcases remove_cases (c.shiftRun 0 (c.slideTarget 0)) c.capacity with
    ⟨hnone, -⟩ | ⟨before, s, after, hitems, heq, hsome⟩
  · rw [LauncherCollection.madeRoom, hnone]
    simp [sort, push, icons, sort_front _ (.refl _)]
  · have hlast : after = [] := by
      refine List.eq_nil_iff_forall_not_mem.2 fun x hx => ?_
      have hlt := (List.pairwise_cons.1 (List.pairwise_append.1 (hitems ▸ hsorted)).2.1).1 x hx
      have hx' := hle x (hitems ▸ List.mem_append_right _ (List.mem_cons_of_mem s hx))
      omega
    subst hlast
    have hbefore : before.Sublist (c.shiftRun 0 (c.slideTarget 0)).items := by
      rw [hitems]
      exact List.sublist_append_left _ _
    rw [LauncherCollection.madeRoom, hsome]
    simp [sort, push, icons, sort_front _ hbefore, hitems]

end Insert

/-- An item came into a collection, and at most one went out. -/
structure Inserted (c : LauncherCollection) (target : Nat) (item : LauncherItem)
    (r : Option LauncherItem × LauncherCollection) : Prop where
  capacity : r.2.capacity = c.capacity
  tidy : r.2.Tidy
  icons : (r.2.icons ++ r.1.toList).Perm (item :: c.icons)
  here : ⟨target, item⟩ ∈ r.2.items

section Moves

variable {c d : LauncherCollection} {slot fromSlot toSlot : Nat} {item : LauncherItem}

theorem Tidy.inserted (h : c.Tidy) (hcap : 0 < c.capacity) (slot : Nat) (item : LauncherItem) :
    Inserted c (min slot (c.capacity - 1)) item (c.insert slot item) :=
  ⟨insert_capacity slot item, h.insert hcap slot item, insert_icons hcap, mem_insert hcap⟩

theorem Tidy.remove (h : c.Tidy) (slot : Nat) : (c.remove slot).2.Tidy := by
  have hitems := @remove_items c slot h.sorted
  have hcapacity : (c.remove slot).2.capacity = c.capacity := by
    rcases remove_cases c slot with ⟨hnone, -⟩ | ⟨_, _, _, -, -, hsome⟩
    · rw [hnone]
    · rw [hsome]
  refine ⟨hitems ▸ h.sorted.filter _, ?_⟩
  intro s hs
  rw [hitems] at hs
  rw [hcapacity]
  exact h.inside s (List.mem_filter.1 hs).1

/-- What is left when one item is taken out. -/
theorem Tidy.without {before after : List SlotItem} {s : SlotItem} (h : c.Tidy)
    (hitems : c.items = before ++ s :: after) :
    Tidy ⟨c.capacity, before ++ after⟩ ∧ isFree ⟨c.capacity, before ++ after⟩ s.slot = true ∧
      s.slot < c.capacity := by
  have hsorted := hitems ▸ h.sorted
  have hsub : (before ++ after).Sublist c.items := by
    rw [hitems]
    exact (List.sublist_cons_self s after).append_left before
  refine ⟨⟨List.Pairwise.sublist hsub h.sorted, ?_⟩, ?_, h.inside s (by simp [hitems])⟩
  · intro x hx
    exact h.inside x (hsub.subset hx)
  · obtain ⟨-, hafter, hbefore⟩ := List.pairwise_append.1 hsorted
    rw [isFree_iff]
    intro x hx
    rcases List.mem_append.1 hx with hx | hx
    · exact ne_of_lt (hbefore x hx s List.mem_cons_self)
    · exact ne_of_gt ((List.pairwise_cons.1 hafter).1 x hx)

/-- An item that is taken out and put back where it was leaves no trace. -/
theorem Tidy.insert_removed (h : c.Tidy) (hremove : c.remove slot = (some item, d)) :
    slot < c.capacity ∧ d.capacity = c.capacity ∧ d.isFree slot = true ∧
      d.insert slot item = (none, c) := by
  rcases remove_cases c slot with ⟨hnone, -⟩ | ⟨before, s, after, hitems, hslot, hsome⟩
  · rw [hnone] at hremove
    cases hremove
  · rw [hsome] at hremove
    obtain ⟨rfl, rfl⟩ : s.item = item ∧ _ = d := by simpa using hremove
    obtain ⟨hd, hfree, hlt⟩ := h.without hitems
    rw [hslot] at hfree hlt
    refine ⟨hlt, rfl, hfree, ?_⟩
    have hmin : min slot (c.capacity - 1) = slot := by omega
    have hpos : 0 < c.capacity := by omega
    rw [@insert_eq ⟨c.capacity, before ++ after⟩ slot s.item hpos]
    simp only [hmin]
    have hslide : slideTarget ⟨c.capacity, before ++ after⟩ slot = slot := slideTarget_free hlt hfree
    rw [hd.madeRoom_none hlt hlt hfree, hslide, shiftRun_self]
    have hsort : sortBy SlotItem.slot (before ++ (after ++ [⟨slot, s.item⟩])) = c.items := by
      refine sortBy_eq h.sorted ?_
      rw [hitems, ← hslot]
      exact (List.perm_append_singleton s after).append_left before
    simp [push, sort, hsort]

/-- A dock that is full gives up the icon that was dropped on. -/
theorem Tidy.swapped (h : c.Tidy) (hcap : 0 < c.capacity) (slot : Nat) (item : LauncherItem) :
    Inserted c (min slot (c.capacity - 1)) item (c.insertOrSwap slot item) := by
  have hmin : min (min slot (c.capacity - 1)) (c.capacity - 1) = min slot (c.capacity - 1) := by
    omega
  have hinserted := h.inserted hcap (min slot (c.capacity - 1)) item
  rw [hmin] at hinserted
  unfold insertOrSwap
  rw [if_neg (by omega)]
  cases hfind : c.items.findIdx? (·.slot = min slot (c.capacity - 1)) with
  | none => simpa [hfind] using hinserted
  | some index =>
    cases hopen : c.firstFreeSlot with
    | some free => simpa [hfind, hopen] using hinserted
    | none =>
      obtain ⟨before, s, after, hitems, hslot, hs, -, hmodify⟩ :=
        @findIdx?_split _ SlotItem _ _ _ hfind
      have hmodified : c.items.modify index (fun s => { s with item }) =
          before ++ { s with item } :: after := by
        simpa using hmodify id fun s => { s with item }
      simp only [hfind, hmodified, hs, Option.map_some]
      have hslots : (before ++ { s with item } :: after).map (·.slot) = c.items.map (·.slot) := by
        simp [hitems]
      refine ⟨rfl, ⟨?_, ?_⟩, ?_, ?_⟩
      · exact List.pairwise_map.1 (hslots ▸ List.pairwise_map.2 h.sorted)
      · intro x hx
        have hmem : x.slot ∈ c.items.map (·.slot) := hslots ▸ List.mem_map_of_mem hx
        obtain ⟨y, hy, hslot'⟩ := List.mem_map.1 hmem
        exact hslot' ▸ h.inside y hy
      · simp only [icons, hitems, List.map_append, List.map_cons, Option.toList_some]
        have hswap : ([s.item] ++ after.map (·.item)).Perm (after.map (·.item) ++ [s.item]) :=
          List.perm_append_comm
        rw [List.append_assoc, List.cons_append]
        exact List.perm_middle.trans ((hswap.symm.append_left _).cons item)
      · simp [← of_decide_eq_true hslot]

/-- A slot that is free is not swapped. -/
theorem insertOrSwap_free (hlt : slot < c.capacity) (hfree : c.isFree slot = true) :
    c.insertOrSwap slot item = c.insert slot item := by
  have hmin : min slot (c.capacity - 1) = slot := by omega
  have hnone : c.items.findIdx? (·.slot = slot) = none := by
    refine List.findIdx?_eq_none_iff.2 fun s hs => ?_
    simpa using isFree_iff.1 hfree s hs
  rw [insertOrSwap, if_neg (by omega)]
  simp only [hmin, hnone]

/-- A move within a collection. -/
theorem Tidy.reordered (h : c.Tidy) (fromSlot toSlot : Nat) :
    (c.reorder fromSlot toSlot = (false, c) ∧ c.isFree fromSlot = true) ∨
    ∃ s ∈ c.items, ∃ d, s.slot = fromSlot ∧ c.reorder fromSlot toSlot = (true, d) ∧
      d.capacity = c.capacity ∧ d.Tidy ∧ d.icons.Perm c.icons ∧
      ⟨min toSlot (c.capacity - 1), s.item⟩ ∈ d.items := by
  unfold reorder
  cases hfind : c.items.findIdx? (·.slot = fromSlot) with
  | none => exact .inl ⟨rfl, findIdx?_slot_none hfind⟩
  | some index =>
    obtain ⟨before, s, after, hitems, hslot, hs, -, hmodify⟩ := @findIdx?_split _ SlotItem _ _ _ hfind
    replace hslot : s.slot = fromSlot := of_decide_eq_true hslot
    obtain ⟨hrest, hfree, hlt⟩ := h.without hitems
    rw [hslot] at hfree hlt
    have htarget : min toSlot (c.capacity - 1) < c.capacity := by omega
    have hslid := isFree_iff.1 (@shiftRun_free _ (min toSlot (c.capacity - 1)) _ hfree)
    have hsorted := @shiftRun_sorted _ (min toSlot (c.capacity - 1)) _ hrest.sorted hfree
    let around : LauncherCollection :=
      shiftRun ⟨c.capacity, before ++ after⟩ (min toSlot (c.capacity - 1)) fromSlot
    have hinside : ∀ x ∈ around.items,
        x.slot < around.capacity ∧ x.slot ≠ min toSlot (c.capacity - 1) := by
      intro x hx
      refine ⟨?_, hslid x hx⟩
      obtain ⟨x', hx', rfl⟩ := List.mem_map.1 hx
      exact shiftSlot_inside (hrest.inside x' hx') hlt
    have htidy : (around.push ⟨min toSlot (c.capacity - 1), s.item⟩).sort.Tidy :=
      tidy_push hsorted hinside htarget
    have hperm : ((c.shiftRun (min toSlot (c.capacity - 1)) fromSlot).items.modify index
        fun s => { s with slot := min toSlot (c.capacity - 1) }).Perm
        (around.push ⟨min toSlot (c.capacity - 1), s.item⟩).items := by
      rw [shiftRun, hmodify]
      simp only [around, push, shiftRun, List.map_append, List.append_assoc]
      exact (List.perm_append_singleton _ _).symm.append_left _
    have hnodup : ((around.push ⟨min toSlot (c.capacity - 1), s.item⟩).items.map (·.slot)).Nodup :=
      ((sortBy_perm _ _).map _).nodup_iff.1 htidy.sorted.nodup
    refine .inr ⟨s, by simp [hitems], (around.push ⟨min toSlot (c.capacity - 1), s.item⟩).sort,
      hslot, ?_, rfl, htidy, ?_, by simp [sort, push]⟩
    · simp only [sort, sortBy_congr hperm hnodup]
      rfl
    · have haround : around.icons = before.map (·.item) ++ after.map (·.item) :=
        (icons_shiftRun _ _ _).trans (by simp [icons])
      refine (icons_sort _).trans ?_
      have hpush : (around.push ⟨min toSlot (c.capacity - 1), s.item⟩).icons =
          around.icons ++ [s.item] := by
        simp [push, icons]
      rw [hpush, haround, icons, hitems, List.map_append, List.map_cons, List.append_assoc]
      exact (List.perm_append_singleton _ _).append_left _

end Moves

/-! ## 3. A new capacity -/

section Resize

variable {c : LauncherCollection} {n : Nat} {seenSlots : List Nat} {items : List SlotItem}

theorem retain_sublist : (retain n seenSlots items).1.Sublist items := by
  induction items generalizing seenSlots with
  | nil => simp [retain]
  | cons s items ih =>
    unfold retain
    split
    · exact ih.cons_cons s
    · exact ih.cons s

theorem retain_icons :
    ((retain n seenSlots items).1.map (·.item) ++ (retain n seenSlots items).2).Perm
      (items.map (·.item)) := by
  induction items generalizing seenSlots with
  | nil => simp [retain]
  | cons s items ih =>
    unfold retain
    split
    · exact ih.cons s.item
    · exact List.perm_middle.trans (ih.cons s.item)

theorem retain_slots :
    ((retain n seenSlots items).1.map (·.slot)).Nodup ∧
      ∀ s ∈ (retain n seenSlots items).1, s.slot < n ∧ s.slot ∉ seenSlots := by
  induction items generalizing seenSlots with
  | nil => simp [retain]
  | cons s items ih =>
    unfold retain
    split
    · next hstays =>
      obtain ⟨hnodup, hslots⟩ := @ih (s.slot :: seenSlots)
      refine ⟨List.nodup_cons.2 ⟨?_, hnodup⟩, ?_⟩
      · intro hmem
        obtain ⟨s', hs', heq⟩ := List.mem_map.1 hmem
        exact (hslots s' hs').2 (heq ▸ List.mem_cons_self)
      · intro s' hs'
        rcases List.mem_cons.1 hs' with rfl | hs'
        · exact hstays
        · exact ⟨(hslots s' hs').1, fun hseen => (hslots s' hs').2 (List.mem_cons_of_mem _ hseen)⟩
    · exact ih

/-- The first item of a slot in range stays. -/
theorem retain_keeps {s : SlotItem} (hs : s ∈ items) (hlt : s.slot < n) (hseen : s.slot ∉ seenSlots) :
    ∃ s' ∈ (retain n seenSlots items).1, s'.slot = s.slot := by
  induction items generalizing seenSlots with
  | nil => cases hs
  | cons t items ih =>
    unfold retain
    by_cases hsame : t.slot = s.slot
    · rw [if_pos ⟨hsame ▸ hlt, hsame ▸ hseen⟩]
      exact ⟨t, List.mem_cons_self, hsame⟩
    · have hs' : s ∈ items := (List.mem_cons.1 hs).resolve_left fun heq => hsame (heq ▸ rfl)
      split
      · have hnext : s.slot ∉ t.slot :: seenSlots := by
          simp [Ne.symm hsame, hseen]
        obtain ⟨s', hmem, heq⟩ := ih hs' hnext
        exact ⟨s', List.mem_cons_of_mem t hmem, heq⟩
      · exact ih hs' hseen

/-- In ascending order nothing shares a slot: what is cut off is what is past the capacity. -/
theorem retain_ascending (h : Ascending SlotItem.slot items)
    (hseen : ∀ s ∈ items, s.slot ∉ seenSlots) :
    retain n seenSlots items = (items.filter (fun s => decide (s.slot < n)),
      (items.filter fun s => !decide (s.slot < n)).map (·.item)) := by
  induction items generalizing seenSlots with
  | nil => rfl
  | cons s items ih =>
    obtain ⟨hs, hrest⟩ := List.pairwise_cons.1 h
    have hitems : ∀ s' ∈ items, s'.slot ∉ seenSlots := fun s' hs' =>
      hseen s' (List.mem_cons_of_mem s hs')
    have hnext : ∀ s' ∈ items, s'.slot ∉ s.slot :: seenSlots := by
      intro s' hs' hmem
      rcases List.mem_cons.1 hmem with heq | hmem
      · exact absurd (hs s' hs') (by rw [heq]; exact lt_irrefl _)
      · exact hitems s' hs' hmem
    unfold retain
    by_cases hlt : s.slot < n
    · rw [if_pos ⟨hlt, hseen s List.mem_cons_self⟩, ih hrest hnext]
      simp [hlt]
    · rw [if_neg fun hstays => hlt hstays.1, ih hrest hitems]
      simp [hlt]

/-- Whatever a collection holds, it fits its new capacity, and what does not is handed back. -/
theorem resize_spec (c : LauncherCollection) (n : Nat) :
    (c.resize n).2.capacity = n ∧ (c.resize n).2.Tidy ∧
      ((c.resize n).2.icons ++ (c.resize n).1).Perm c.icons := by
  obtain ⟨hnodup, hslots⟩ := @retain_slots n [] c.sort.items
  have hsorted := List.Pairwise.sublist (@retain_sublist n [] c.sort.items)
    (sortBy_pairwise SlotItem.slot c.items)
  refine ⟨rfl, ⟨(ascending_iff_nodup hsorted).2 hnodup, fun s hs => (hslots s hs).1⟩, ?_⟩
  exact retain_icons.trans (icons_sort c)

theorem resize_keeps {s : SlotItem} (hs : s ∈ c.items) (hlt : s.slot < n) :
    ∃ s' ∈ (c.resize n).2.items, s'.slot = s.slot :=
  retain_keeps (mem_sortBy.2 hs) hlt List.not_mem_nil

theorem Tidy.resize_eq (h : c.Tidy) (n : Nat) :
    c.resize n = ((c.items.filter fun s => !decide (s.slot < n)).map (·.item),
      ⟨n, c.items.filter fun s => decide (s.slot < n)⟩) := by
  have hsort : c.sort.items = c.items := sortBy_self h.sorted
  rw [resize, hsort, retain_ascending h.sorted fun s _ => List.not_mem_nil]

/-- Cutting a tidy collection off keeps the order of its items. -/
theorem Tidy.resize_icons (h : c.Tidy) (n : Nat) :
    (c.resize n).2.icons ++ (c.resize n).1 = c.icons := by
  rw [h.resize_eq, icons, icons, ← List.map_append, h.sorted.filter_append n]

theorem Tidy.resize_fits (h : c.Tidy) (hfits : ∀ s ∈ c.items, s.slot < n) :
    c.resize n = ([], ⟨n, c.items⟩) := by
  have hnone : c.items.filter (fun s => !decide (s.slot < n)) = [] := by
    simpa [List.filter_eq_nil_iff] using hfits
  have hall : c.items.filter (fun s => decide (s.slot < n)) = c.items := by
    simpa [List.filter_eq_self] using hfits
  rw [h.resize_eq, hnone, hall]
  rfl

theorem Tidy.resize_self (h : c.Tidy) : c.resize c.capacity = ([], c) := h.resize_fits h.inside

end Resize

end LauncherCollection

end Launcher
