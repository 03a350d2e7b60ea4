import KeyOS.Launcher.Compaction
import KeyOS.Launcher.Orders

/-!
# Loading and saving

`from_persistent` claims the saved items page by page, fills up the dock and finds a place for
whatever is left. It ends for every saved state, with each discovered item in one slot. What
`sync_persistent` saves it finds again, slot for slot.
-/

namespace Launcher

open KeySort LauncherCollection

namespace LauncherConfig

/-! ## 1. A layout -/

/-- All icons: those of the pages, and those of the dock. -/
def icons (config : LauncherConfig) : List LauncherItem :=
  pageIcons config.pages ++ config.dock.icons

structure WellLaid (config : LauncherConfig) : Prop where
  pages : Laid config.pages
  dock : config.dock.Tidy
  capacity : config.dock.capacity = dockCapacity

/-! ## 2. Loading -/

section Loading

variable {remaining discovered : List LauncherItem} {pages : List LauncherCollection}
  {dock : LauncherCollection} {index : Nat}

theorem claimPages_spec {savedPageOrders : List (List Text)} :
    Sized index (claimPages index remaining savedPageOrders).1 ∧
      (pageIcons (claimPages index remaining savedPageOrders).1 ++
        (claimPages index remaining savedPageOrders).2).Perm remaining := by
  induction savedPageOrders generalizing index remaining with
  | nil => exact ⟨trivial, .refl _⟩
  | cons savedIds savedPageOrders ih =>
    obtain ⟨hclaimed, -, -⟩ := @claimOrder_spec 0 remaining savedIds
    obtain ⟨hsized, hperm⟩ := @ih (claimOrder 0 remaining savedIds).2 (index + 1)
    refine ⟨⟨rfl, hsized⟩, ?_⟩
    simp only [claimPages, fromSavedOrder, pageIcons_cons, LauncherCollection.icons,
      List.append_assoc]
    exact (hperm.append_left _).trans hclaimed

/-- A dock with a free slot takes a default item without handing one back. -/
theorem fillDock_ok {defaults : List (Nat × Text)} (htidy : dock.Tidy)
    (hcapacity : dock.capacity = dockCapacity) :
    ∃ dock' remaining', fillDock defaults dock remaining = .ok (dock', remaining') ∧ dock'.Tidy ∧
      dock'.capacity = dockCapacity ∧ (dock'.icons ++ remaining').Perm (dock.icons ++ remaining) := by
  induction defaults generalizing dock remaining with
  | nil => exact ⟨dock, remaining, rfl, htidy, hcapacity, .refl _⟩
  | cons default defaults ih =>
    obtain ⟨slot, id⟩ := default
    rw [fillDock]
    by_cases hfull : dockCapacity ≤ dock.items.length
    · rw [if_pos hfull]
      exact ⟨dock, remaining, rfl, htidy, hcapacity, .refl _⟩
    · rw [if_neg hfull]
      cases hclaim : claimItem remaining id with
      | none => exact ih htidy hcapacity
      | some claimed =>
        obtain ⟨item, rest⟩ := claimed
        have hpos : 0 < dock.capacity := by
          rw [hcapacity]
          decide
        obtain ⟨free, hlt, hfree⟩ := exists_free (hcapacity ▸ Nat.lt_of_not_le hfull)
        have hnone := @Tidy.insert_none dock slot item htidy free hlt hfree
        have hicons := @insert_icons dock slot item hpos
        have hnext := htidy.insert hpos slot item
        have hcapacity' := (insert_capacity slot item).trans hcapacity
        rcases hinsert : dock.insert slot item with ⟨_ | _, d⟩
        · rw [hinsert] at hicons hnext hcapacity'
          obtain ⟨dock', remaining', hrun, htidy', hcap', hperm⟩ := @ih rest d hnext hcapacity'
          refine ⟨dock', remaining', ?_, htidy', hcap', hperm.trans ?_⟩
          · simpa only [hinsert] using hrun
          · rw [Option.toList_none, List.append_nil] at hicons
            refine (hicons.append_right rest).trans ?_
            exact List.perm_middle.symm.trans ((claimItem_some hclaim).2.symm.append_left _)
        · rw [hinsert] at hnone
          cases hnone

theorem fillDock_nil (defaults : List (Nat × Text)) (dock : LauncherCollection) :
    fillDock defaults dock [] = .ok (dock, []) := by
  induction defaults with
  | nil => rfl
  | cons default defaults ih =>
    rw [fillDock, ih]
    split <;> rfl

theorem firstOpenSlot_lt {found slot : Nat} (h : firstOpenSlot index pages = some (found, slot)) :
    index ≤ found ∧ found < index + pages.length := by
  induction pages generalizing index with
  | nil => cases h
  | cons page pages ih =>
    rw [firstOpenSlot] at h
    cases hfree : page.firstFreeSlot with
    | some free =>
      rw [hfree] at h
      obtain ⟨rfl, -⟩ := Prod.mk.inj (Option.some.inj h)
      simp
    | none =>
      rw [hfree] at h
      have := ih h
      simp only [List.length_cons]
      omega

theorem addItem_ok (h : Sized 0 pages) (item : LauncherItem) : ∃ pages',
    addItem pages item = .ok pages' ∧ Sized 0 pages' ∧
      (pageIcons pages').Perm (item :: pageIcons pages) := by
  unfold addItem
  cases hopen : firstOpenSlot 0 pages with
  | some found =>
    obtain ⟨found, slot⟩ := found
    have hlt := (firstOpenSlot_lt hopen).2
    have hle : found ≤ pages.length := by omega
    obtain ⟨pages', hrun, hput⟩ := insertItemIntoPages_ok h hle slot item
    exact ⟨pages', hrun, hput.sized, hput.icons⟩
  | none =>
    refine ⟨_, rfl, sized_append.2 ⟨h, by simp [Sized, new, push]⟩, ?_⟩
    have hpage : pageIcons [(new (pageCapacityFor pages.length)).push ⟨0, item⟩] = [item] := by
      simp [LauncherCollection.icons, new, push]
    rw [pageIcons_append, hpage]
    exact List.perm_append_singleton item _

theorem addItems_ok (h : Sized 0 pages) : ∃ pages',
    remaining.foldlM addItem pages = .ok pages' ∧ Sized 0 pages' ∧
      (pageIcons pages').Perm (pageIcons pages ++ remaining) := by
  induction remaining generalizing pages with
  | nil => exact ⟨pages, rfl, h, by simp⟩
  | cons item remaining ih =>
    obtain ⟨next, hnext, hsized, hperm⟩ := addItem_ok h item
    obtain ⟨pages', hrun, hsized', hperm'⟩ := ih hsized
    refine ⟨pages', ?_, hsized', ?_⟩
    · rw [List.foldlM_cons, hnext]
      exact hrun
    · refine (hperm'.trans (hperm.append_right remaining)).trans ?_
      exact List.perm_middle.symm

/-- What `from_persistent` does once the saved items are claimed -/
def arrange (dock : LauncherCollection) (claimed : List LauncherCollection × List LauncherItem) :
    Except Fault LauncherConfig := do
  let pages ← compactPages (kept claimed.1)
  let (dock, remaining) ← fillDock dockDefaults dock claimed.2
  let pages ← remaining.foldlM addItem pages
  let pages ← compactPages pages
  return { pages, dock }

theorem fromPersistent_eq (persistent : PersistentState) (discovered : List LauncherItem) :
    ∃ savedPageOrders savedDockOrder,
      (Launcher.layoutVersion ≤ persistent.layoutVersion →
        savedPageOrders = persistent.pageOrders ∧ savedDockOrder = persistent.dockOrder) ∧
      fromPersistent persistent discovered =
        arrange ⟨dockCapacity, (claimOrder 0 discovered (savedDockOrder.take dockCapacity)).1⟩
          (claimPages 0 (claimOrder 0 discovered (savedDockOrder.take dockCapacity)).2
            savedPageOrders) := by
  unfold fromPersistent
  by_cases hversion : Launcher.layoutVersion ≤ persistent.layoutVersion
  · refine ⟨persistent.pageOrders, persistent.dockOrder, fun _ => ⟨rfl, rfl⟩, ?_⟩
    rw [if_pos hversion]
    rfl
  · refine ⟨[], [], fun h => absurd h hversion, ?_⟩
    rw [if_neg hversion]
    rfl

/-- With the saved items claimed, all others find a place. -/
theorem arrange_ok {claimed : List LauncherCollection × List LauncherItem} (htidy : dock.Tidy)
    (hcapacity : dock.capacity = dockCapacity) (hclaimed : Sized 0 claimed.1) :
    ∃ config, arrange dock claimed = .ok config ∧ config.WellLaid ∧
      config.icons.Perm (dock.icons ++ (pageIcons claimed.1 ++ claimed.2)) := by
  obtain ⟨pages, hcompact, hlaid, hperm⟩ := compactPages_ok hclaimed.tail
  obtain ⟨dock', remaining, hfill, htidy', hcap', hfilled⟩ :=
    @fillDock_ok claimed.2 dock dockDefaults htidy hcapacity
  obtain ⟨added, hadd, hsized', hadded⟩ := @addItems_ok remaining pages hlaid.sized
  obtain ⟨pages', hcompact', hlaid', hperm'⟩ := compactPages_ok hsized'.tail
  rw [← compactPages_kept] at hcompact
  refine ⟨⟨pages', dock'⟩, ?_, ⟨hlaid', htidy', hcap'⟩, ?_⟩
  · simp only [arrange, hcompact, hfill, hadd, hcompact', bind, Except.bind]
    rfl
  · have hpages : (pageIcons pages').Perm (pageIcons claimed.1 ++ remaining) :=
      (hperm'.trans hadded).trans (hperm.append_right remaining)
    rw [icons]
    refine List.perm_append_comm.trans ?_
    -- the dock takes its defaults from the same items that the pages take the rest of
    have hrest := (hpages.trans List.perm_append_comm).append_left dock'.icons
    rw [← List.append_assoc] at hrest
    refine (hrest.trans (hfilled.append_right (pageIcons claimed.1))).trans ?_
    rw [List.append_assoc]
    exact List.perm_append_comm.append_left dock.icons

/-- Loading ends for whatever was saved, with a layout of exactly the discovered items. -/
theorem fromPersistent_ok (persistent : PersistentState) (discovered : List LauncherItem) :
    ∃ config, fromPersistent persistent discovered = .ok config ∧ config.WellLaid ∧
      config.icons.Perm discovered := by
  obtain ⟨savedPageOrders, savedDockOrder, -, heq⟩ := fromPersistent_eq persistent discovered
  obtain ⟨hdock, hsorted, hslots⟩ :=
    @claimOrder_spec 0 discovered (savedDockOrder.take dockCapacity)
  obtain ⟨hsized, hpages⟩ := @claimPages_spec
    (claimOrder 0 discovered (savedDockOrder.take dockCapacity)).2 0 savedPageOrders
  have htidy : Tidy ⟨dockCapacity, (claimOrder 0 discovered (savedDockOrder.take dockCapacity)).1⟩ := by
    refine ⟨hsorted, fun s hs => ?_⟩
    have hlt := (hslots s hs).2
    rw [List.length_take] at hlt
    simp only
    omega
  obtain ⟨config, hrun, hlaid, hperm⟩ := arrange_ok htidy rfl hsized
  exact ⟨config, heq.trans hrun, hlaid, hperm.trans ((hpages.append_left _).trans hdock)⟩

end Loading

/-! ## 3. Saving -/

section Saving

variable {remaining discovered : List LauncherItem} {pages : List LauncherCollection}
  {dock : LauncherCollection} {index : Nat} {c : LauncherCollection} {config : LauncherConfig}

/-- The order of a collection claims its items back, slot for slot. -/
theorem claimOrder_order (h : c.Tidy) (hremaining : (remaining.map (·.id)).Nodup)
    (hnodup : c.icons.Nodup) (hmem : ∀ item ∈ c.icons, item ∈ remaining)
    (hids : ∀ item ∈ c.icons, item.id ≠ []) :
    claimOrder 0 remaining c.order = (c.items, remaining.diff c.icons) := by
  obtain ⟨k, heq⟩ := order_eq h.sorted
  rw [heq]
  exact claimOrder_gapped k h.sorted (fun s _ => Nat.zero_le _) hremaining hnodup
    (fun s hs => hmem s.item (List.mem_map_of_mem hs))
    fun s hs => hids s.item (List.mem_map_of_mem hs)

/-- The order of a collection has no id past the capacity. -/
theorem claimOrder_take (h : c.Tidy) : claimOrder 0 remaining (c.order.take c.capacity) =
    claimOrder 0 remaining c.order := by
  obtain ⟨k, heq⟩ := order_eq h.sorted
  have hlen := @length_gapped 0 c.items c.capacity h.sorted
    (fun s hs => ⟨Nat.zero_le _, h.inside s hs⟩) (Nat.zero_le _)
  rw [heq, List.take_append, List.take_of_length_le (by omega), List.take_replicate,
    claimOrder_trailing, claimOrder_trailing]

theorem claimPages_order (h : Sized index pages) (htidy : ∀ page ∈ pages, page.Tidy)
    (hremaining : (remaining.map (·.id)).Nodup) (hnodup : (pageIcons pages).Nodup)
    (hmem : ∀ item ∈ pageIcons pages, item ∈ remaining)
    (hids : ∀ item ∈ pageIcons pages, item.id ≠ []) :
    claimPages index remaining (pages.map order) = (pages, remaining.diff (pageIcons pages)) := by
  induction pages generalizing index remaining with
  | nil => rfl
  | cons page pages ih =>
    obtain ⟨hpage, hpages⟩ := List.forall_mem_cons.1 htidy
    rw [pageIcons_cons] at hnodup hmem hids
    obtain ⟨hfirst, hrest, hdisjoint⟩ := List.nodup_append.1 hnodup
    have hclaim := claimOrder_order hpage hremaining hfirst
      (fun item hitem => hmem item (List.mem_append_left _ hitem))
      fun item hitem => hids item (List.mem_append_left _ hitem)
    have hleft : ∀ item ∈ pageIcons pages, item ∈ remaining.diff page.icons := by
      intro item hitem
      refine List.mem_diff_of_mem (hmem item (List.mem_append_right _ hitem)) ?_
      intro hitem'
      exact hdisjoint item hitem' item hitem rfl
    have hnext := @ih (remaining.diff page.icons) (index + 1) h.2 hpages
      (hremaining.sublist ((List.diff_sublist _ _).map _)) hrest hleft
      fun item hitem => hids item (List.mem_append_right _ hitem)
    rw [List.map_cons, claimPages, fromSavedOrder, hclaim]
    simp only [hnext, pageIcons_cons, List.diff_append, ← h.1]

/-- Saving and loading again gives the same layout, slot for slot. -/
theorem fromPersistent_syncPersistent (h : config.WellLaid) (hperm : config.icons.Perm discovered)
    (hnodup : (discovered.map (·.id)).Nodup) (hids : ∀ item ∈ discovered, item.id ≠ []) :
    fromPersistent config.syncPersistent discovered = .ok config := by
  obtain ⟨savedPageOrders, savedDockOrder, hread, heq⟩ :=
    fromPersistent_eq config.syncPersistent discovered
  obtain ⟨rfl, rfl⟩ := hread (le_refl _)
  have hicons : config.icons.Nodup := hperm.nodup_iff.2 (List.Nodup.of_map _ hnodup)
  obtain ⟨hpages, hdock, hdisjoint⟩ := List.nodup_append.1 hicons
  have hmem : ∀ item ∈ config.icons, item ∈ discovered := fun item hitem => hperm.subset hitem
  have hdockMem : ∀ item ∈ config.dock.icons, item ∈ discovered := fun item hitem =>
    hmem item (List.mem_append_right _ hitem)
  have hclaim := claimOrder_order h.dock hnodup hdock hdockMem
    fun item hitem => hids item (hdockMem item hitem)
  have htake := @claimOrder_take discovered config.dock h.dock
  rw [h.capacity, hclaim] at htake
  have hclaimPages := @claimPages_order (discovered.diff config.dock.icons) config.pages 0
    h.pages.sized h.pages.tidy (hnodup.sublist ((List.diff_sublist _ _).map _)) hpages
    (fun item hitem => List.mem_diff_of_mem (hmem item (List.mem_append_left _ hitem))
      fun hitem' => hdisjoint item hitem item hitem' rfl)
    fun item hitem => hids item (hmem item (List.mem_append_left _ hitem))
  have hnone : (discovered.diff config.dock.icons).diff (pageIcons config.pages) = [] := by
    refine List.eq_nil_iff_forall_not_mem.2 fun item hitem => ?_
    have hall : discovered.Nodup := List.Nodup.of_map _ hnodup
    obtain ⟨hitem, hpage⟩ := (hall.sublist (List.diff_sublist _ _)).mem_sdiff_iff.1 hitem
    obtain ⟨hitem, hdock'⟩ := hall.mem_sdiff_iff.1 hitem
    rcases List.mem_append.1 (hperm.symm.subset hitem) with hmem | hmem
    · exact hpage hmem
    · exact hdock' hmem
  rw [hnone] at hclaimPages
  rw [heq]
  simp only [syncPersistent, htake, hclaimPages]
  have hdock' : (⟨dockCapacity, config.dock.items⟩ : LauncherCollection) = config.dock := by
    rw [← h.capacity]
  have hpages' := compactPages_laid h.pages
  rw [hdock', arrange]
  simp only [compactPages_kept, hpages', fillDock_nil, bind, Except.bind]
  simp [hpages', pure, Except.pure]

end Saving

end LauncherConfig

end Launcher
