import KeyOS.Launcher.Loading

/-!
# Moves

A move takes an icon out of one slot and puts it into another, on a page, on a new page or in the
dock. The pages between the two steps are not compacted, so some may be empty; `Arranged` is what
they keep.
-/

namespace Launcher

open KeySort LauncherCollection

/-- What the id of a collection names -/
inductive Place where
  | dock
  | page (index : Nat)
deriving DecidableEq

def Place.capacity : Place → Nat
  | .dock => dockCapacity
  | .page index => pageCapacityFor index

namespace LauncherConfig

/-! ## 1. Places -/

/-- The place that an id names for an icon that comes, which may be a page behind the last. -/
def placeOf (config : LauncherConfig) (collectionId : Text) : Option Place :=
  if collectionId = dockCollectionId then some .dock
  else if collectionId = newPageCollectionId then some (.page config.pages.length)
  else ((pageIndexFromCollectionId collectionId).filter (· < config.pages.length)).map .page

def at? (config : LauncherConfig) : Place → Option LauncherCollection
  | .dock => some config.dock
  | .page index => config.pages[index]?

def put (config : LauncherConfig) : Place → LauncherCollection → LauncherConfig
  | .dock, dock => { config with dock }
  | .page index, page => { config with pages := config.pages.set index page }

/-- An icon put at a place, and what it took the slot from -/
def placeAt (config : LauncherConfig) : Place → Nat → LauncherItem →
    Except Fault (Option LauncherItem × LauncherConfig)
  | .dock, slot, item =>
    .ok ((config.dock.insertOrSwap slot item).1,
      config.put .dock (config.dock.insertOrSwap slot item).2)
  | .page index, slot, item => do
    let pages ← insertItemIntoPages config.pages index slot item
    return (none, { config with pages })

/-- The icon is in the slot of the place. -/
def Holds (config : LauncherConfig) (place : Place) (slot : Nat) (item : LauncherItem) : Prop :=
  ∃ c, config.at? place = some c ∧ ⟨slot, item⟩ ∈ c.items

/-- A layout between the steps of a move: as it is laid out, but for pages that may be empty. -/
structure Arranged (config : LauncherConfig) : Prop where
  sized : Sized 0 config.pages
  tidy : ∀ page ∈ config.pages, page.Tidy
  dock : config.dock.Tidy
  capacity : config.dock.capacity = dockCapacity

theorem WellLaid.arranged {config : LauncherConfig} (h : config.WellLaid) : config.Arranged :=
  ⟨h.pages.sized, h.pages.tidy, h.dock, h.capacity⟩

section Places

variable {config : LauncherConfig} {place : Place} {slot : Nat} {item : LauncherItem}
  {c d : LauncherCollection} {id : Text}

theorem place_capacity_pos (place : Place) : 0 < place.capacity := by
  cases place with
  | dock => decide
  | page index => exact pageCapacityFor_pos index

theorem newPage_no_index : pageIndexFromCollectionId newPageCollectionId = none := by decide

theorem collectionMut_eq (config : LauncherConfig) (id : Text) :
    config.collectionMut id =
      (config.placeOf id).bind fun place => (config.at? place).map fun c => (c, config.put place) := by
  unfold collectionMut placeOf
  by_cases hdock : id = dockCollectionId
  · rw [if_pos hdock, if_pos hdock]
    rfl
  · rw [if_neg hdock, if_neg hdock]
    by_cases hnew : id = newPageCollectionId
    · rw [if_pos hnew, hnew, newPage_no_index]
      simp [at?]
    · rw [if_neg hnew]
      cases hindex : pageIndexFromCollectionId id with
      | none => rfl
      | some index =>
        by_cases hlt : index < config.pages.length
        · have hfilter : (some index).filter (· < config.pages.length) = some index := by
            simp [Option.filter, hlt]
          rw [hfilter]
          simp only [Option.map_some, Option.bind_some, at?, List.getElem?_eq_getElem hlt]
          simp [hlt]
          rfl
        · have hfilter : (some index).filter (· < config.pages.length) = none := by
            simp [Option.filter, hlt]
          rw [hfilter]
          simp [hlt]

theorem placeItem_eq (config : LauncherConfig) (id : Text) (slot : Nat) (item : LauncherItem) :
    config.placeItem id slot item =
      match config.placeOf id with
      | some place => (config.placeAt place slot item).map fun r => (.ok r.1, r.2)
      | none => .ok (.err item, config) := by
  unfold placeItem placeOf
  by_cases hdock : id = dockCollectionId
  · rw [if_pos hdock, if_pos hdock]
    rfl
  · rw [if_neg hdock, if_neg hdock]
    by_cases hnew : id = newPageCollectionId
    · rw [if_pos hnew, if_pos hnew]
      simp only [placeAt]
      cases insertItemIntoPages config.pages config.pages.length slot item <;> rfl
    · rw [if_neg hnew, if_neg hnew]
      cases (pageIndexFromCollectionId id).filter (· < config.pages.length) with
      | none => rfl
      | some index =>
        simp only [Option.map_some, placeAt]
        cases insertItemIntoPages config.pages index slot item <;> rfl

/-- A page that an id names is there, or comes next. -/
theorem placeOf_page {index : Nat} (h : config.placeOf id = some (.page index)) :
    index ≤ config.pages.length := by
  unfold placeOf at h
  split at h
  · cases h
  · split at h
    · cases h
      exact le_refl _
    · obtain ⟨index', hindex, heq⟩ := Option.map_eq_some_iff.1 h
      cases heq
      exact Nat.le_of_lt (by simpa using (Option.filter_eq_some_iff.1 hindex).2)

theorem placeOf_dock (h : config.placeOf id = some .dock) : id = dockCollectionId := by
  unfold placeOf at h
  split at h
  · assumption
  · split at h
    · cases h
    · obtain ⟨index', -, heq⟩ := Option.map_eq_some_iff.1 h
      cases heq

theorem placeOf_congr {config' : LauncherConfig} (h : config'.pages.length = config.pages.length)
    (id : Text) : config'.placeOf id = config.placeOf id := by
  rw [placeOf, placeOf, h]

theorem placeOf_put (place : Place) (c : LauncherCollection) (id : Text) :
    (config.put place c).placeOf id = config.placeOf id := by
  refine placeOf_congr ?_ id
  cases place with
  | dock => rfl
  | page index => exact List.length_set

theorem put_self (hc : config.at? place = some c) : config.put place c = config := by
  cases place with
  | dock =>
    obtain rfl := Option.some.inj hc
    rfl
  | page index =>
    obtain ⟨hlt, rfl⟩ := List.getElem?_eq_some_iff.1 hc
    simp [LauncherConfig.put]

theorem Arranged.collection (h : config.Arranged) (hc : config.at? place = some c) :
    c.Tidy ∧ c.capacity = place.capacity := by
  cases place with
  | dock =>
    obtain rfl := Option.some.inj hc
    exact ⟨h.dock, h.capacity⟩
  | page index =>
    have hcapacity := h.sized.getElem? hc
    rw [Nat.zero_add] at hcapacity
    exact ⟨h.tidy c (List.mem_of_getElem? hc), hcapacity⟩

/-- Another collection at a place, of the same capacity -/
theorem Arranged.put (h : config.Arranged) (hc : config.at? place = some c) (hd : d.Tidy)
    (hcapacity : d.capacity = c.capacity) : (config.put place d).Arranged := by
  have hplace := (h.collection hc).2
  cases place with
  | dock => exact ⟨h.sized, h.tidy, hd, hcapacity.trans hplace⟩
  | page index =>
    refine ⟨?_, ?_, h.dock, h.capacity⟩
    · exact h.sized.set fun page hpage => by
        obtain rfl := Option.some.inj (hpage.symm.trans hc)
        exact hcapacity
    · intro page hpage
      rcases List.mem_or_eq_of_mem_set hpage with hpage | rfl
      · exact h.tidy page hpage
      · exact hd

/-- The icons of one place, and all others -/
theorem icons_put (hc : config.at? place = some c) : ∃ others, config.icons.Perm (c.icons ++ others) ∧
    ∀ d, (config.put place d).icons.Perm (d.icons ++ others) := by
  cases place with
  | dock =>
    obtain rfl := Option.some.inj hc
    exact ⟨pageIcons config.pages, List.perm_append_comm, fun d => List.perm_append_comm⟩
  | page index =>
    obtain ⟨others, hperm, hset⟩ := pageIcons_split hc
    refine ⟨others ++ config.dock.icons, ?_, fun d => ?_⟩
    · rw [← List.append_assoc]
      exact hperm.append_right _
    · rw [← List.append_assoc]
      exact (hset d).append_right _

theorem at?_put (hc : config.at? place = some c) : (config.put place d).at? place = some d := by
  cases place with
  | dock => rfl
  | page index =>
    obtain ⟨hlt, -⟩ := List.getElem?_eq_some_iff.1 hc
    simp [at?, LauncherConfig.put, hlt]

/-- An icon put at a place: it has the slot, and the dock may have given up another. -/
theorem Arranged.placed (h : config.Arranged) (hplace : config.placeOf id = some place) (slot : Nat)
    (item : LauncherItem) : ∃ displaced config', config.placeAt place slot item = .ok (displaced, config') ∧
      config'.Arranged ∧ (config'.icons ++ displaced.toList).Perm (item :: config.icons) ∧
      config'.Holds place (min slot (place.capacity - 1)) item ∧
      (place = .dock → config'.pages = config.pages) ∧
      (place ≠ .dock → displaced = none ∧ config'.dock = config.dock) := by
  cases place with
  | dock =>
    have hinserted := h.dock.swapped (h.capacity ▸ place_capacity_pos .dock) slot item
    refine ⟨_, _, rfl, ?_, ?_, ⟨_, rfl, ?_⟩, fun _ => rfl, fun hne => absurd rfl hne⟩
    · exact @Arranged.put config .dock _ _ h rfl hinserted.tidy hinserted.capacity
    · have hicons := hinserted.icons.append_left (pageIcons config.pages)
      rw [← List.append_assoc] at hicons
      exact hicons.trans List.perm_middle
    · have hhere := hinserted.here
      rwa [h.capacity] at hhere
  | page index =>
    obtain ⟨pages, hrun, hput⟩ := insertItemIntoPages_ok h.sized (placeOf_page hplace) slot item
    refine ⟨none, { config with pages }, ?_, ⟨hput.sized, hput.tidy h.tidy, h.dock, h.capacity⟩, ?_,
      hput.here, fun hdock => (by cases hdock), fun _ => ⟨rfl, rfl⟩⟩
    · simp only [placeAt, hrun, bind, Except.bind, pure, Except.pure]
    · rw [Option.toList_none, List.append_nil]
      exact hput.icons.append_right config.dock.icons

/-- An icon that is put back where it was taken from leaves no trace. -/
theorem Arranged.putBack (h : config.Arranged) (hc : config.at? place = some c)
    (hremove : c.remove slot = (some item, d)) :
    (config.put place d).placeAt place slot item = .ok (none, config) := by
  obtain ⟨htidy, hcapacity⟩ := h.collection hc
  obtain ⟨hlt, hcap, hfree, hinsert⟩ := htidy.insert_removed hremove
  cases place with
  | dock =>
    obtain rfl := Option.some.inj hc
    have hswap : d.insertOrSwap slot item = (none, config.dock) :=
      (insertOrSwap_free (hcap ▸ hlt) hfree).trans hinsert
    simp only [LauncherConfig.put, placeAt, hswap]
  | page index =>
    obtain ⟨front, rest, hpages, hlen⟩ : ∃ front rest, config.pages = front ++ c :: rest ∧
        front.length = index := by
      obtain ⟨hlt, rfl⟩ := List.getElem?_eq_some_iff.1 hc
      exact ⟨config.pages.take index, config.pages.drop (index + 1), by simp, by simp; omega⟩
    obtain ⟨-, hsized⟩ := sized_append.1 (hpages ▸ h.sized)
    rw [Nat.zero_add] at hsized
    have hrest : Sized front.length (d :: rest) := ⟨hcap.trans hsized.1, hsized.2⟩
    have hset : config.pages.set index d = front ++ d :: rest := by
      rw [hpages, ← hlen]
      simp
    have hrun := @insertItemIntoPages_eq front (d :: rest) slot item hrest
    rw [spill_none hinsert, ← hpages, ← hset, hlen] at hrun
    simp only [LauncherConfig.put, placeAt, hrun, bind, Except.bind, pure, Except.pure]

end Places

/-! ## 2. A move before the compaction -/

section Rearrange

variable {config arranged : LauncherConfig} {move : Move} {place : Place} {slot : Nat}
  {item : LauncherItem} {id : Text}

/-- What a move that returns true did before the pages were compacted -/
structure Rearranged (config : LauncherConfig) (move : Move) (config' : LauncherConfig) : Prop where
  arranged : config'.Arranged
  icons : config'.icons.Perm config.icons
  lands : ∃ source target item, config.placeOf move.sourceCollectionId = some source ∧
    config.placeOf move.targetCollectionId = some target ∧
    config.Holds source move.fromIndex item ∧
    config'.Holds target (min move.toIndex (target.capacity - 1)) item

/-- An icon is taken out of its slot, or there is none. -/
theorem removeItem_cases (config : LauncherConfig) (id : Text) (slot : Nat) :
    config.removeItem id slot = none ∨
    ∃ place c item d, config.placeOf id = some place ∧ config.at? place = some c ∧
      c.remove slot = (some item, d) ∧ config.removeItem id slot = some (item, config.put place d) := by
  unfold removeItem
  rw [collectionMut_eq]
  cases hplace : config.placeOf id with
  | none => exact .inl rfl
  | some place =>
    cases hc : config.at? place with
    | none => exact .inl (by simp [hc])
    | some c =>
      rcases hremove : c.remove slot with ⟨_ | item, d⟩
      · exact .inl (by simp [hc, hremove])
      · exact .inr ⟨place, c, item, d, rfl, hc, hremove, by simp [hc, hremove]⟩

theorem Arranged.removed {c d : LauncherCollection} (h : config.Arranged)
    (hc : config.at? place = some c) (hremove : c.remove slot = (some item, d)) :
    config.Holds place slot item ∧ (config.put place d).Arranged ∧
      config.icons.Perm (item :: (config.put place d).icons) := by
  obtain ⟨htidy, -⟩ := h.collection hc
  have hd := htidy.remove slot
  obtain ⟨-, hcapacity, -, -⟩ := htidy.insert_removed hremove
  rw [hremove] at hd
  obtain ⟨others, hperm, hput⟩ := icons_put hc
  rcases remove_cases c slot with ⟨hnone, -⟩ | ⟨before, s, after, hitems, hslot, hsome⟩
  · rw [hnone] at hremove
    cases hremove
  · rw [hsome] at hremove
    obtain ⟨rfl, rfl⟩ : s.item = item ∧ _ = d := by simpa using hremove
    refine ⟨⟨c, hc, by simp [hitems, ← hslot]⟩, h.put hc hd hcapacity, hperm.trans ?_⟩
    refine .trans ?_ ((hput _).symm.cons s.item)
    rw [LauncherCollection.icons, LauncherCollection.icons, hitems, List.map_append, List.map_append,
      List.map_cons, List.append_assoc, List.append_assoc]
    exact List.perm_middle

/-- Between two collections -/
theorem Arranged.moved (h : config.Arranged) (hne : move.sourceCollectionId ≠ move.targetCollectionId) :
    config.rearrange move = .ok (false, config) ∨
    ∃ arranged, config.rearrange move = .ok (true, arranged) ∧ config.Rearranged move arranged := by
  unfold rearrange
  rw [if_neg hne]
  rcases removeItem_cases config move.sourceCollectionId move.fromIndex with
    hnone | ⟨source, c, item, d, hsource, hc, hremove, hsome⟩
  · rw [hnone]
    exact .inl rfl
  · obtain ⟨hholds, hrest, hicons⟩ := h.removed hc hremove
    have hsource' : (config.put source d).placeOf move.sourceCollectionId = some source :=
      (placeOf_put source d _).trans hsource
    simp only [hsome, placeItem_eq]
    cases htarget : config.placeOf move.targetCollectionId with
    | none =>
      have htarget' := (placeOf_put source d _).trans htarget
      refine .inl ?_
      simp only [htarget', hsource', h.putBack hc hremove, bind, Except.bind, Except.map, pure,
        Except.pure]
    | some target =>
      have htarget' := (placeOf_put source d _).trans htarget
      obtain ⟨displaced, arranged, hplace, harranged, hperm, hhere, hpages, hdock⟩ :=
        hrest.placed htarget' move.toIndex item
      simp only [htarget', hplace, bind, Except.bind, Except.map, pure, Except.pure]
      cases displaced with
      | none =>
        refine .inr ⟨arranged, rfl, harranged, ?_, source, target, item, hsource, htarget, hholds,
          hhere⟩
        rw [Option.toList_none, List.append_nil] at hperm
        exact hperm.trans hicons.symm
      | some swapped =>
        -- only a full dock hands an icon back, and then the source is a page
        have hdockTarget : target = .dock := by
          by_contra hpage
          cases (hdock hpage).1
        subst hdockTarget
        have hsourcePage : source ≠ .dock := by
          rintro rfl
          exact hne ((placeOf_dock hsource).trans (placeOf_dock htarget).symm)
        have hback : arranged.placeOf move.sourceCollectionId = some source := by
          rw [placeOf_congr (congrArg List.length (hpages rfl))]
          exact hsource'
        obtain ⟨displaced, arranged', hplace', harranged', hperm', -, -, hkeeps⟩ :=
          harranged.placed hback move.fromIndex swapped
        obtain ⟨rfl, hsame⟩ := hkeeps hsourcePage
        simp only [hback, hplace']
        refine .inr ⟨arranged', rfl, harranged', ?_, source, .dock, item, hsource, htarget, hholds,
          ?_⟩
        · rw [Option.toList_none, List.append_nil] at hperm'
          rw [Option.toList_some] at hperm
          exact ((hperm'.trans (List.perm_append_singleton swapped _).symm).trans hperm).trans
            hicons.symm
        · obtain ⟨dock, heq, hmem⟩ := hhere
          obtain rfl := Option.some.inj heq
          exact ⟨arranged'.dock, rfl, hsame ▸ hmem⟩

/-- Within one collection -/
theorem Arranged.reordered (h : config.Arranged)
    (hsame : move.sourceCollectionId = move.targetCollectionId) :
    config.rearrange move = .ok (false, config) ∨
    ∃ arranged, config.rearrange move = .ok (true, arranged) ∧ config.Rearranged move arranged := by
  unfold rearrange
  rw [if_pos hsame, collectionMut_eq]
  cases hplace : config.placeOf move.sourceCollectionId with
  | none => exact .inl rfl
  | some place =>
    simp only [Option.bind_some]
    cases hc : config.at? place with
    | none => exact .inl rfl
    | some c =>
      obtain ⟨htidy, hcapacity⟩ := h.collection hc
      simp only [Option.map_some]
      rcases htidy.reordered move.fromIndex move.toIndex with
        ⟨hfalse, -⟩ | ⟨s, hs, d, hslot, htrue, hcap, hd, hicons, hhere⟩
      · refine .inl ?_
        simp only [hfalse, put_self hc]
      · obtain ⟨others, hperm, hput⟩ := icons_put hc
        refine .inr ⟨config.put place d, by simp only [htrue], h.put hc hd hcap, ?_, place, place,
          s.item, hplace, hsame ▸ hplace, ⟨c, hc, by simpa [← hslot] using hs⟩, d, at?_put hc, ?_⟩
        · exact (hput d).trans ((hicons.append_right others).trans hperm.symm)
        · rwa [hcapacity] at hhere

theorem Arranged.rearrange_ok (h : config.Arranged) (move : Move) :
    config.rearrange move = .ok (false, config) ∨
    ∃ arranged, config.rearrange move = .ok (true, arranged) ∧ config.Rearranged move arranged := by
  by_cases hsame : move.sourceCollectionId = move.targetCollectionId
  · exact h.reordered hsame
  · exact h.moved hsame

end Rearrange

end LauncherConfig

end Launcher
