import KeyOS.Launcher.Moves

/-!
# No icon is lost

After a layout is loaded, any moves leave it well laid, with each discovered item in one slot. A move
that returns true puts its icon into the slot that was asked for, and then drops the empty pages.
When it was the first page that became empty, the next one takes its index and its smaller capacity,
and its last icons go to the page behind it.
-/

namespace Launcher

open KeySort LauncherCollection

namespace LauncherConfig

variable {config arranged : LauncherConfig} {item : LauncherItem} {discovered : List LauncherItem}

/-! ## 1. After a move -/

/-- The first of the pages that are kept fits the capacity of the first page. -/
def FirstFits (pages : List LauncherCollection) : Prop :=
  ∀ page rest, kept pages = page :: rest → ∀ s ∈ page.items, s.slot < graphPageCapacity

/-- What the compaction makes of a layout -/
structure Compacted (arranged config : LauncherConfig) : Prop where
  dock : config.dock = arranged.dock
  order : pageIcons config.pages = pageIcons arranged.pages
  stays : ((∃ page rest, arranged.pages = page :: rest ∧ page.items = []) →
      FirstFits arranged.pages) →
    ∀ index slot item, arranged.Holds (.page index) slot item →
      config.Holds (.page (kept (arranged.pages.take index)).length) slot item

theorem kept_append (front rest : List LauncherCollection) :
    kept (front ++ rest) = kept front ++ kept rest := List.filter_append front rest

/-- A page that is kept gets the number of the pages kept before it. -/
theorem kept_getElem? {pages : List LauncherCollection} {page : LauncherCollection} {index : Nat}
    (hpage : pages[index]? = some page) (hfilled : page.items ≠ []) :
    (kept pages)[(kept (pages.take index)).length]? = some page := by
  obtain ⟨hlt, rfl⟩ := List.getElem?_eq_some_iff.1 hpage
  have hsplit : pages = pages.take index ++ pages[index] :: pages.drop (index + 1) := by simp
  have hkept := congrArg kept hsplit
  rw [kept_append, kept_cons, if_neg hfilled] at hkept
  rw [hkept, List.getElem?_append_right (le_refl _), Nat.sub_self, List.getElem?_cons_zero]

theorem Arranged.firstFits {page : LauncherCollection} {rest : List LauncherCollection}
    (h : arranged.Arranged) (hpages : arranged.pages = page :: rest) (hfilled : page.items ≠ []) :
    FirstFits arranged.pages := by
  intro first rest' hkept s hs
  rw [hpages, kept_cons, if_neg hfilled] at hkept
  obtain ⟨rfl, -⟩ := List.cons.inj hkept
  have hcapacity : page.capacity = graphPageCapacity := (hpages ▸ h.sized).1
  exact hcapacity ▸ (h.tidy page (by simp [hpages])).inside s hs

/-- The compaction that follows a move -/
theorem Arranged.compacted (h : arranged.Arranged) : ∃ config,
    arranged.compactPageList = .ok config ∧ config.WellLaid ∧ config.icons.Perm arranged.icons ∧
      Compacted arranged config := by
  obtain ⟨pages, hrun, hlaid, hperm⟩ := compactPages_ok h.sized.tail
  refine ⟨{ arranged with pages }, ?_, ⟨hlaid, h.dock, h.capacity⟩, hperm.append_right _, rfl,
    compactRounds_tidy h.sized.tail h.tidy hrun, ?_⟩
  · simp only [compactPageList, hrun, bind, Except.bind, pure, Except.pure]
  · intro hfirst index slot item hholds
    obtain ⟨page, hpage, hmem⟩ := hholds
    have hnumber := kept_getElem? hpage (List.ne_nil_of_mem hmem)
    cases hkept : kept arranged.pages with
    | nil => simp [hkept] at hnumber
    | cons first rest =>
      have hfits : FirstFits arranged.pages := by
        cases hpages : arranged.pages with
        | nil => simp [hpages, kept] at hkept
        | cons page' rest' =>
          by_cases hempty : page'.items = []
          · exact hpages ▸ hfirst ⟨page', rest', hpages, hempty⟩
          · exact hpages ▸ h.firstFits hpages hempty
      have hsame := compactPages_fits h.sized.tail h.tidy hkept (hfits first rest hkept)
      obtain rfl := Except.ok.inj (hrun.symm.trans hsame)
      rw [hkept] at hnumber
      generalize (kept (arranged.pages.take index)).length = number at hnumber ⊢
      cases number with
      | zero =>
        obtain rfl := Option.some.inj hnumber
        exact ⟨_, rfl, hmem⟩
      | succ number => exact ⟨page, hnumber, hmem⟩

/-- What a move that returns true comes to -/
def Moved (config : LauncherConfig) (move : Move) (config' : LauncherConfig) : Prop :=
  ∃ arranged, config.rearrange move = .ok (true, arranged) ∧ config.Rearranged move arranged ∧
    Compacted arranged config'

theorem WellLaid.moveItem_ok (h : config.WellLaid) (move : Move) :
    config.moveItem move = .ok (false, config) ∨
    ∃ config', config.moveItem move = .ok (true, config') ∧ config'.WellLaid ∧
      config'.icons.Perm config.icons ∧ config.Moved move config' := by
  unfold moveItem
  rcases h.arranged.rearrange_ok move with hfalse | ⟨arranged, htrue, hrearranged⟩
  · refine .inl ?_
    simp only [hfalse, bind, Except.bind, pure, Except.pure]
  · obtain ⟨config', hrun, hlaid, hperm, hcompacted⟩ := hrearranged.arranged.compacted
    refine .inr ⟨config', ?_, hlaid, hperm.trans hrearranged.icons, arranged, htrue,
      hrearranged, hcompacted⟩
    simp only [htrue, hrun, bind, Except.bind, pure, Except.pure]

/-- Moves, one after the other -/
def moveItems (config : LauncherConfig) (moves : List Move) : Except Fault LauncherConfig :=
  moves.foldlM (fun config move => do return (← config.moveItem move).2) config

theorem WellLaid.moveItems_ok (h : config.WellLaid) (moves : List Move) : ∃ config',
    config.moveItems moves = .ok config' ∧ config'.WellLaid ∧ config'.icons.Perm config.icons := by
  induction moves generalizing config with
  | nil => exact ⟨config, rfl, h, .refl _⟩
  | cons move moves ih =>
    rcases h.moveItem_ok move with hfalse | ⟨next, htrue, hnext, hperm, -⟩
    · obtain ⟨config', hrun, hlaid, hperm⟩ := ih h
      refine ⟨config', ?_, hlaid, hperm⟩
      rw [moveItems, List.foldlM_cons, hfalse]
      exact hrun
    · obtain ⟨config', hrun, hlaid, hperm'⟩ := ih hnext
      refine ⟨config', ?_, hlaid, hperm'.trans hperm⟩
      rw [moveItems, List.foldlM_cons, htrue]
      exact hrun

/-! ## 2. One slot for each item -/

/-- Each item is in exactly one slot, and no slot has anything else. -/
structure Complete (config : LauncherConfig) (discovered : List LauncherItem) : Prop where
  once : ∀ item ∈ discovered, ∃! p : Place × Nat, config.Holds p.1 p.2 item
  only : ∀ place slot item, config.Holds place slot item → item ∈ discovered

theorem mem_icons : item ∈ config.icons ↔ ∃ place slot, config.Holds place slot item := by
  constructor
  · intro hitem
    rcases List.mem_append.1 hitem with hitem | hitem
    · obtain ⟨page, hpage, hitem⟩ := List.mem_flatMap.1 hitem
      obtain ⟨index, hindex⟩ := List.mem_iff_getElem?.1 hpage
      obtain ⟨s, hs, rfl⟩ := List.mem_map.1 hitem
      exact ⟨.page index, s.slot, page, hindex, hs⟩
    · obtain ⟨s, hs, rfl⟩ := List.mem_map.1 hitem
      exact ⟨.dock, s.slot, config.dock, rfl, hs⟩
  · rintro ⟨place, slot, c, hc, hmem⟩
    have hitem : item ∈ c.icons := List.mem_map.2 ⟨_, hmem, rfl⟩
    cases place with
    | dock =>
      obtain rfl := Option.some.inj hc
      exact List.mem_append_right _ hitem
    | page index =>
      exact List.mem_append_left _ (List.mem_flatMap.2 ⟨c, List.mem_of_getElem? hc, hitem⟩)

/-- Without an icon twice, no two places share one. -/
theorem place_unique (h : config.icons.Nodup) {place place' : Place} {c c' : LauncherCollection}
    (hc : config.at? place = some c) (hc' : config.at? place' = some c') (hitem : item ∈ c.icons)
    (hitem' : item ∈ c'.icons) : place = place' := by
  obtain ⟨hpages, -, hdisjoint⟩ := List.nodup_append.1 h
  have hpage : ∀ {index : Nat} {page : LauncherCollection}, config.at? (.page index) = some page →
      item ∈ page.icons → item ∈ pageIcons config.pages := fun hat hmem =>
    List.mem_flatMap.2 ⟨_, List.mem_of_getElem? hat, hmem⟩
  cases place with
  | dock =>
    obtain rfl := Option.some.inj hc
    cases place' with
    | dock => rfl
    | page index' => exact absurd rfl (hdisjoint item (hpage hc' hitem') item hitem)
  | page index =>
    cases place' with
    | dock =>
      obtain rfl := Option.some.inj hc'
      exact absurd rfl (hdisjoint item (hpage hc hitem) item hitem')
    | page index' =>
      have hpairwise := List.pairwise_iff_getElem.1 (List.nodup_flatMap.1 hpages).2
      obtain ⟨hlt, rfl⟩ := List.getElem?_eq_some_iff.1 hc
      obtain ⟨hlt', rfl⟩ := List.getElem?_eq_some_iff.1 hc'
      rcases Nat.lt_trichotomy index index' with hless | rfl | hless
      · exact absurd hitem' (hpairwise index index' hlt hlt' hless hitem)
      · rfl
      · exact absurd hitem (hpairwise index' index hlt' hlt hless hitem')

theorem holds_unique (h : config.icons.Nodup) {place place' : Place} {slot slot' : Nat}
    (hholds : config.Holds place slot item) (hholds' : config.Holds place' slot' item) :
    place = place' ∧ slot = slot' := by
  obtain ⟨c, hc, hmem⟩ := hholds
  obtain ⟨c', hc', hmem'⟩ := hholds'
  have hplace : place = place' :=
    place_unique h hc hc' (List.mem_map.2 ⟨_, hmem, rfl⟩) (List.mem_map.2 ⟨_, hmem', rfl⟩)
  subst hplace
  obtain rfl := Option.some.inj (hc.symm.trans hc')
  have hnodup : c.icons.Nodup := by
    obtain ⟨others, hperm, -⟩ := icons_put hc
    exact (List.nodup_append.1 (hperm.nodup_iff.1 h)).1
  have heq := List.inj_on_of_nodup_map hnodup hmem hmem' rfl
  exact ⟨rfl, congrArg SlotItem.slot heq⟩

theorem complete_of_perm (hperm : config.icons.Perm discovered) (hnodup : discovered.Nodup) :
    config.Complete discovered := by
  constructor
  · intro item hitem
    obtain ⟨place, slot, hholds⟩ := mem_icons.1 (hperm.symm.subset hitem)
    refine ⟨(place, slot), hholds, ?_⟩
    intro p hp
    obtain ⟨hplace, hslot⟩ := holds_unique (hperm.nodup_iff.2 hnodup) hp hholds
    exact Prod.ext hplace hslot
  · intro place slot item hholds
    exact hperm.subset (mem_icons.2 ⟨place, slot, hholds⟩)

/-- The layout after any moves on any saved state, and what one more move does to it -/
theorem icons_kept (persistent : PersistentState) (discovered : List LauncherItem) (moves : List Move)
    (hnodup : (discovered.map (·.id)).Nodup) : ∃ loaded config,
    fromPersistent persistent discovered = .ok loaded ∧ loaded.moveItems moves = .ok config ∧
    config.WellLaid ∧ config.Complete discovered ∧
    (∀ move, config.moveItem move = .ok (false, config) ∨
      ∃ config', config.moveItem move = .ok (true, config') ∧ config.Moved move config') ∧
    ((∀ item ∈ discovered, item.id ≠ []) →
      fromPersistent config.syncPersistent discovered = .ok config) := by
  obtain ⟨loaded, hload, hloaded, hperm⟩ := fromPersistent_ok persistent discovered
  obtain ⟨config, hmoves, hlaid, hperm'⟩ := hloaded.moveItems_ok moves
  have hicons := hperm'.trans hperm
  refine ⟨loaded, config, hload, hmoves, hlaid,
    complete_of_perm hicons (List.Nodup.of_map _ hnodup), ?_,
    fromPersistent_syncPersistent hlaid hicons hnodup⟩
  intro move
  refine (hlaid.moveItem_ok move).imp_right ?_
  rintro ⟨config', hrun, -, -, hmoved⟩
  exact ⟨config', hrun, hmoved⟩

/-! ## 3. Where the first page goes -/

/-- An app with its id for a name -/
def appItem (id : String) : LauncherItem :=
  ⟨id.toList, id.toList, id.toList, .app id.toList, true, true⟩

def twoPages : PersistentState :=
  ⟨[["a".toList], ["b".toList]], [], Launcher.layoutVersion⟩

theorem icons_kept_two : ∃ loaded config,
    fromPersistent twoPages [appItem "a", appItem "b"] = .ok loaded ∧
    loaded.moveItems [⟨"page-1".toList, 0, "dock".toList, 7⟩] = .ok config ∧
    config.WellLaid ∧ config.Complete [appItem "a", appItem "b"] ∧
    (∀ move, config.moveItem move = .ok (false, config) ∨
      ∃ config', config.moveItem move = .ok (true, config') ∧ config.Moved move config') ∧
    fromPersistent config.syncPersistent [appItem "a", appItem "b"] = .ok config := by
  obtain ⟨loaded, config, hload, hmoves, hlaid, hcomplete, hmove, hsync⟩ :=
    icons_kept twoPages [appItem "a", appItem "b"] [⟨"page-1".toList, 0, "dock".toList, 7⟩]
      (by decide)
  exact ⟨loaded, config, hload, hmoves, hlaid, hcomplete, hmove, hsync (by decide)⟩

/-- The first page is left empty by a move that returns true, and its icon ends on another page and
in another slot than it was dropped on. An item without an id is not saved, and comes back in the
first slot that is free. -/
theorem first_page_shifts_icon :
    (∃ loaded config, fromPersistent twoPages [appItem "a", appItem "b"] = .ok loaded ∧
      loaded.moveItem ⟨"page-0".toList, 0, "page-1".toList, 8⟩ = .ok (true, config) ∧
      config.Holds (.page 0) 0 (appItem "b") ∧ config.Holds (.page 1) 0 (appItem "a") ∧
      ∀ index slot, config.Holds (.page index) slot (appItem "a") → slot = 0) ∧
    ∃ loaded config again, fromPersistent twoPages [appItem ""] = .ok loaded ∧
      loaded.moveItem ⟨"page-0".toList, 0, "page-0".toList, 5⟩ = .ok (true, config) ∧
      fromPersistent config.syncPersistent [appItem ""] = .ok again ∧ again ≠ config := by
  refine ⟨⟨⟨[⟨6, [⟨0, appItem "a"⟩]⟩, ⟨9, [⟨0, appItem "b"⟩]⟩], new 3⟩,
      ⟨[⟨6, [⟨0, appItem "b"⟩]⟩, ⟨9, [⟨0, appItem "a"⟩]⟩], new 3⟩, by decide, by decide,
      ⟨_, rfl, by simp⟩, ⟨_, rfl, by simp⟩, ?_⟩,
    ⟨[⟨6, [⟨0, appItem ""⟩]⟩], new 3⟩, ⟨[⟨6, [⟨5, appItem ""⟩]⟩], new 3⟩,
      ⟨[⟨6, [⟨0, appItem ""⟩]⟩], new 3⟩, by decide, by decide, by decide, by decide⟩
  rintro index slot ⟨c, hc, hmem⟩
  have hpage := List.mem_of_getElem? hc
  simp only [List.mem_cons, List.not_mem_nil, or_false] at hpage
  rcases hpage with rfl | rfl
  · simp only [List.mem_singleton, SlotItem.mk.injEq] at hmem
    exact hmem.1
  · simp only [List.mem_singleton, SlotItem.mk.injEq] at hmem
    exact hmem.1

end LauncherConfig

end Launcher
