import KeyOS.Launcher.Pages

/-!
# Compaction

`compact_pages` drops the empty pages and cuts each page to the capacity of its index, with what no
longer fits at the front of the next page. A saved page may lose all that it held this way, so it is
done again while pages are empty. The second round finds tidy pages, of which only the first can
change its capacity, and leaves none of them empty.
-/

namespace Launcher

open KeySort LauncherCollection

variable {pages front rest : List LauncherCollection} {index : Nat} {overflow : List LauncherItem}

/-! ## 1. What no longer fits -/

/-- The icons at the front of the pages, in their order. -/
def spillAll (index : Nat) (pages : List LauncherCollection) (overflow : List LauncherItem) :
    List LauncherCollection :=
  overflow.foldr (fun item pages => spill index pages 0 item) pages

@[simp] theorem spillAll_nil : spillAll index pages [] = pages := rfl

theorem spillAll_cons (item : LauncherItem) : spillAll index pages (item :: overflow) =
    spill index (spillAll index pages overflow) 0 item := rfl

theorem Sized.spillAll (h : Sized index pages) : Sized index (spillAll index pages overflow) := by
  induction overflow with
  | nil => exact h
  | cons item overflow ih => exact ih.spill

theorem foldlM_spill (h : Sized front.length rest) :
    overflow.reverse.foldlM (fun pages item => insertItemIntoPages pages front.length 0 item)
      (front ++ rest) = .ok (front ++ spillAll front.length rest overflow) := by
  rw [List.foldlM_reverse]
  induction overflow with
  | nil => rfl
  | cons item overflow ih =>
    rw [List.foldrM_cons, ih]
    exact insertItemIntoPages_eq h.spillAll

theorem spillAll_icons (h : Sized index pages) :
    (pageIcons (spillAll index pages overflow)).Perm (overflow ++ pageIcons pages) := by
  induction overflow with
  | nil => exact .refl _
  | cons item overflow ih => exact (spill_icons h.spillAll).trans (ih.cons item)

theorem spillAll_keeps {P : LauncherCollection → Prop} {n : Nat} (h : Sized index pages)
    (hinsert : ∀ page slot item, 0 < page.capacity → P page → P (page.insert slot item).2)
    (hnew : ∀ n slot item, 0 < n → P ((new n).insert slot item).2)
    (hpages : ∀ page ∈ pages.drop n, P page) :
    ∀ page ∈ (spillAll index pages overflow).drop n, P page := by
  induction overflow with
  | nil => exact hpages
  | cons item overflow ih => exact spill_keeps h.spillAll hinsert hnew ih

theorem spillAll_tidy (h : Sized index pages) (htidy : ∀ page ∈ pages, page.Tidy) :
    ∀ page ∈ spillAll index pages overflow, page.Tidy := by
  induction overflow with
  | nil => exact htidy
  | cons item overflow ih => exact spill_tidy h.spillAll ih

theorem spillAll_front (h : Sized index pages) (htidy : ∀ page ∈ pages, page.Tidy) :
    pageIcons (spillAll index pages overflow) = overflow ++ pageIcons pages := by
  induction overflow with
  | nil => rfl
  | cons item overflow ih =>
    rw [spillAll_cons, spill_front h.spillAll (spillAll_tidy h htidy), ih, List.cons_append]

theorem length_spillAll : (spillAll index pages overflow).length ≤ pages.length + overflow.length := by
  induction overflow with
  | nil => simp
  | cons item overflow ih =>
    have hstep := (@length_spill (spillAll index pages overflow) index 0 item).2
    rw [spillAll_cons, List.length_cons]
    omega

/-- A page that nothing has to be put before to be kept: it is tidy and holds an icon. -/
def Firm (page : LauncherCollection) : Prop := page.Tidy ∧ page.items ≠ []

theorem Firm.insert {page : LauncherCollection} (h : Firm page) (hcap : 0 < page.capacity)
    (slot : Nat) (item : LauncherItem) : Firm (page.insert slot item).2 :=
  ⟨h.1.insert hcap slot item, List.ne_nil_of_mem (mem_insert hcap)⟩

theorem firm_new {n : Nat} (hn : 0 < n) (slot : Nat) (item : LauncherItem) :
    Firm ((new n).insert slot item).2 :=
  ⟨(tidy_new n).insert hn slot item, List.ne_nil_of_mem (mem_insert hn)⟩

theorem spillAll_firm {n : Nat} (h : Sized index pages) (hpages : ∀ page ∈ pages.drop n, Firm page) :
    ∀ page ∈ (spillAll index pages overflow).drop n, Firm page :=
  spillAll_keeps h (fun _ slot item hcap hpage => hpage.insert hcap slot item)
    (fun _ slot item hn => firm_new hn slot item) hpages

/-- The first page has an icon in its first slot. -/
def Fronted (pages : List LauncherCollection) : Prop :=
  ∃ page rest, pages = page :: rest ∧ ∃ s ∈ page.items, s.slot = 0

theorem spillAll_fronted (h : Sized index pages) (hne : overflow ≠ []) :
    Fronted (spillAll index pages overflow) := by
  cases overflow with
  | nil => exact absurd rfl hne
  | cons item overflow =>
    obtain ⟨page, rest, heq, hmem⟩ := @spill_here _ index 0 item (@h.spillAll _ _ overflow)
    exact ⟨page, rest, heq, _, hmem, Nat.zero_min _⟩

/-! ## 2. One round -/

theorem resizeLoop_nil {steps : Nat} (hsteps : 0 < steps) :
    resizeLoop steps front front.length = .ok front := by
  obtain ⟨steps, rfl⟩ : ∃ steps', steps = steps' + 1 := ⟨steps - 1, by omega⟩
  simp [resizeLoop]

/-- One page is cut, and what it loses goes to the pages behind it. -/
theorem resizeLoop_cons {steps : Nat} {page : LauncherCollection}
    (h : Sized (front.length + 1) rest) :
    resizeLoop (steps + 1) (front ++ page :: rest) front.length =
      resizeLoop steps ((front ++ [(page.resize (pageCapacityFor front.length)).2]) ++
        spillAll (front.length + 1) rest (page.resize (pageCapacityFor front.length)).1)
        (front.length + 1) := by
  have hlen : ∀ d : LauncherCollection, (front ++ [d]).length = front.length + 1 := by simp
  have hset : ∀ d, (front ++ page :: rest).set front.length d = (front ++ [d]) ++ rest := by simp
  have hfold := fun d => @foldlM_spill (front ++ [d]) rest
    (page.resize (pageCapacityFor front.length)).1 (by rw [hlen]; exact h)
  simp only [hlen] at hfold
  rw [resizeLoop]
  simp only [List.getElem?_append_right (le_refl _), Nat.sub_self, List.getElem?_cons_zero, hset,
    hfold]
  rfl

/-- Tidy pages of the right size stay as they are. -/
theorem resizeLoop_tidy {steps : Nat} (h : Sized front.length rest)
    (htidy : ∀ page ∈ rest, page.Tidy) (hsteps : rest.length < steps) :
    resizeLoop steps (front ++ rest) front.length = .ok (front ++ rest) := by
  induction rest generalizing front steps with
  | nil =>
    rw [List.append_nil]
    exact resizeLoop_nil (by omega)
  | cons page rest ih =>
    obtain ⟨steps, rfl⟩ : ∃ steps', steps = steps' + 1 := ⟨steps - 1, by omega⟩
    obtain ⟨hpage, hrest⟩ := List.forall_mem_cons.1 htidy
    have hsame : page.resize (pageCapacityFor front.length) = ([], page) := by
      rw [← h.1]
      exact hpage.resize_self
    have hnext := @ih (front ++ [page]) steps (by simpa using h.2) hrest (by simpa using hsteps)
    rw [resizeLoop_cons h.2, hsame]
    simpa using hnext

/-- What a round makes of the pages from one on. -/
structure Round (index : Nat) (pages pages' : List LauncherCollection) : Prop where
  sized : Sized index pages'
  tidy : ∀ page ∈ pages', page.Tidy
  icons : (pageIcons pages').Perm (pageIcons pages)

/-- When the first page lost all it held, the second has an icon in its first slot. -/
def Propped (pages : List LauncherCollection) : Prop :=
  ∀ page rest, pages = page :: rest → page.items = [] → Fronted rest

/-- A round ends: it cuts the `n` pages that were there, and those that it opened hold an icon each. -/
theorem resizeLoop_ok {steps n : Nat} (h : Sized (front.length + 1) rest.tail)
    (hopened : n = 0 → Sized front.length rest) (hfirm : ∀ page ∈ rest.drop n, Firm page)
    (hsteps : n + (pageIcons rest).length < steps) :
    ∃ rest', resizeLoop steps (front ++ rest) front.length = .ok (front ++ rest') ∧
      Round front.length rest rest' ∧ (Fronted rest → Fronted rest') ∧
      ((∀ page ∈ rest, page.items ≠ []) → Propped rest') := by
  induction steps generalizing front rest n with
  | zero => omega
  | succ steps ih =>
    cases rest with
    | nil =>
      refine ⟨[], ?_, ⟨trivial, by simp, .refl _⟩, id, fun _ => by simp [Propped]⟩
      rw [List.append_nil]
      exact resizeLoop_nil (by omega)
    | cons page rest =>
      replace h : Sized (front.length + 1) rest := h
      rw [resizeLoop_cons h]
      obtain ⟨hcapacity, htidy, hicons⟩ := resize_spec page (pageCapacityFor front.length)
      generalize hresize : page.resize (pageCapacityFor front.length) = resized at *
      obtain ⟨overflow, d⟩ := resized
      have hspilled : Sized (front.length + 1) (spillAll (front.length + 1) rest overflow) :=
        h.spillAll
      have hfirm' : ∀ page ∈ (spillAll (front.length + 1) rest overflow).drop (n - 1), Firm page := by
        refine spillAll_firm h ?_
        cases n with
        | zero => exact (List.forall_mem_cons.1 hfirm).2
        | succ n => exact hfirm
      have hperm := @spillAll_icons rest (front.length + 1) overflow h
      -- a page that was opened loses nothing, so the icons on the pages to come get fewer
      have hless : n - 1 + (pageIcons (spillAll (front.length + 1) rest overflow)).length < steps := by
        have hspill := hperm.length_eq
        have hpage := hicons.length_eq
        simp only [List.length_append] at hspill hpage
        rw [pageIcons_cons, List.length_append] at hsteps
        cases n with
        | zero =>
          obtain ⟨hfirst, -⟩ := List.forall_mem_cons.1 hfirm
          have hsame := hfirst.1.resize_self
          rw [(hopened rfl).1, hresize] at hsame
          obtain ⟨rfl, rfl⟩ := Prod.mk.inj hsame
          have hpos : 0 < d.icons.length := by
            simpa [icons] using List.length_pos_iff.2 hfirst.2
          omega
        | succ n => omega
      have hlen : (front ++ [d]).length = front.length + 1 := by simp
      have hrest := hspilled.tail
      obtain ⟨rest', hrun, hround, hfronted, -⟩ := @ih (front ++ [d])
        (spillAll (front.length + 1) rest overflow) (n - 1) (hlen ▸ hrest)
        (fun _ => hlen ▸ hspilled) hfirm' hless
      rw [hlen] at hrun hround
      refine ⟨d :: rest', by simpa using hrun, ⟨⟨hcapacity, hround.sized⟩, ?_, ?_⟩, ?_, ?_⟩
      · exact List.forall_mem_cons.2 ⟨htidy, hround.tidy⟩
      · rw [pageIcons_cons, pageIcons_cons]
        have hall := (hround.icons.trans hperm).append_left d.icons
        rw [← List.append_assoc] at hall
        exact hall.trans (hicons.append_right _)
      · rintro ⟨_, _, heq, s, hs, hslot⟩
        obtain ⟨rfl, rfl⟩ := List.cons.inj heq
        have hkept := resize_keeps hs (hslot ▸ pageCapacityFor_pos front.length)
        rw [hresize] at hkept
        obtain ⟨s', hs', heq⟩ := hkept
        exact ⟨d, rest', rfl, s', hs', heq.trans hslot⟩
      · intro hfilled page' rest'' heq hempty
        obtain ⟨rfl, rfl⟩ := List.cons.inj heq
        refine hfronted (spillAll_fronted h ?_)
        rintro rfl
        have hnil : page.icons = [] := by
          rw [icons, hempty] at hicons
          exact List.nil_perm.1 hicons
        exact hfilled page List.mem_cons_self (List.map_eq_nil_iff.1 hnil)

theorem itemCount_eq (pages : List LauncherCollection) :
    itemCount pages = (pageIcons pages).length := by
  simp [itemCount, pageIcons, icons, List.length_flatMap]

/-- The first round, over any pages that were saved. -/
theorem round_ok (h : Sized 1 pages.tail) (hfilled : ∀ page ∈ pages, page.items ≠ []) :
    ∃ pages', resizeLoop (pages.length + itemCount pages + 1) pages 0 = .ok pages' ∧
      Round 0 pages pages' ∧ Propped pages' := by
  have hsteps : pages.length + (pageIcons pages).length < pages.length + itemCount pages + 1 := by
    rw [itemCount_eq]
    omega
  obtain ⟨pages', hrun, hround, -, hpropped⟩ := @resizeLoop_ok [] pages _ pages.length h
    (fun hnil => by simp [List.length_eq_zero_iff.1 hnil, Sized]) (by simp) hsteps
  exact ⟨pages', hrun, hround, hpropped hfilled⟩

/-- A round over tidy pages: only the first one can lose any of its icons. -/
theorem round_tidy {page : LauncherCollection} (h : Sized 1 rest)
    (htidy : ∀ page ∈ rest, page.Tidy) :
    resizeLoop ((page :: rest).length + itemCount (page :: rest) + 1) (page :: rest) 0 =
      .ok ((page.resize graphPageCapacity).2 ::
        spillAll 1 rest (page.resize graphPageCapacity).1) := by
  have hlost : (page.resize graphPageCapacity).1.length ≤ itemCount (page :: rest) := by
    have hicons := (resize_spec page graphPageCapacity).2.2.length_eq
    rw [itemCount_eq, pageIcons_cons, List.length_append]
    rw [List.length_append] at hicons
    omega
  have hcut := @resizeLoop_cons [] rest ((page :: rest).length + itemCount (page :: rest)) page h
  have hlen := @length_spillAll rest 1 (page.resize graphPageCapacity).1
  have hrun := @resizeLoop_tidy [(page.resize graphPageCapacity).2]
    (spillAll 1 rest (page.resize graphPageCapacity).1)
    ((page :: rest).length + itemCount (page :: rest)) h.spillAll (spillAll_tidy h htidy)
    (by rw [List.length_cons]; omega)
  exact hcut.trans hrun

/-! ## 3. All rounds -/

/-- Pages as they are after a compaction -/
structure Laid (pages : List LauncherCollection) : Prop where
  sized : Sized 0 pages
  tidy : ∀ page ∈ pages, page.Tidy
  filled : (pages ≠ [] ∧ ∀ page ∈ pages, page.items ≠ []) ∨ ∃ page, pages = [page]

section Rounds

variable {rounds : Nat} {page : LauncherCollection} {pages' : List LauncherCollection}

/-- The pages that are not empty -/
def kept (pages : List LauncherCollection) : List LauncherCollection :=
  pages.filter fun page => !page.isEmpty

theorem not_isEmpty : (!page.isEmpty) = true ↔ page.items ≠ [] := by
  simp [LauncherCollection.isEmpty]

theorem mem_kept : page ∈ kept pages ↔ page ∈ pages ∧ page.items ≠ [] := by
  rw [kept, List.mem_filter, not_isEmpty]

theorem kept_icons (pages : List LauncherCollection) : pageIcons (kept pages) = pageIcons pages := by
  induction pages with
  | nil => rfl
  | cons page pages ih =>
    rw [kept, List.filter_cons]
    split
    · rw [pageIcons_cons, pageIcons_cons]
      exact congrArg _ ih
    · next hempty =>
      rw [not_isEmpty, not_not] at hempty
      rw [pageIcons_cons, icons, hempty]
      exact ih

/-- Behind the first page that is kept are pages that were behind the first. -/
theorem kept_tail_subset (pages : List LauncherCollection) : (kept pages).tail ⊆ pages.tail := by
  cases pages with
  | nil => exact List.Subset.refl _
  | cons page pages =>
    rw [kept, List.filter_cons]
    split
    · exact List.filter_subset_self pages
    · exact List.Subset.trans (List.tail_sublist _).subset (List.filter_subset_self pages)

theorem kept_cons (page : LauncherCollection) (pages : List LauncherCollection) :
    kept (page :: pages) = if page.items = [] then kept pages else page :: kept pages := by
  rw [kept, List.filter_cons]
  split
  · next hpage => rw [if_neg (not_isEmpty.1 hpage)]; rfl
  · next hpage =>
    rw [not_isEmpty, not_not] at hpage
    rw [if_pos hpage]
    rfl

theorem sized_kept (h : Sized 1 pages.tail) : Sized 1 (kept pages).tail := by
  rw [sized_succ] at h ⊢
  intro page hpage
  exact h page (kept_tail_subset pages hpage)

theorem laid_new : Laid [new (pageCapacityFor 0)] :=
  ⟨⟨rfl, trivial⟩, List.forall_mem_singleton.2 (tidy_new _), .inr ⟨_, rfl⟩⟩

theorem compactRounds_nil (h : kept pages = []) :
    compactRounds (rounds + 1) pages = .ok [new (pageCapacityFor 0)] := by
  rw [kept] at h
  rw [compactRounds, h]
  rfl

theorem compactRounds_run (h : kept pages ≠ [])
    (hrun : resizeLoop ((kept pages).length + itemCount (kept pages) + 1) (kept pages) 0 =
      .ok pages') :
    compactRounds (rounds + 1) pages =
      if pages'.all fun page => !page.isEmpty then .ok pages' else compactRounds rounds pages' := by
  rw [kept] at h hrun
  rw [compactRounds]
  simp only [List.isEmpty_iff, h, if_false]
  rw [hrun]
  rfl

theorem all_not_isEmpty :
    (pages.all fun page => !page.isEmpty) = true ↔ ∀ page ∈ pages, page.items ≠ [] := by
  simp only [List.all_eq_true, not_isEmpty]

/-- When the pages fit their indices up to the first one, no page is empty after a round. -/
theorem laid_round {page : LauncherCollection} (h : Sized 1 rest)
    (htidy : ∀ page ∈ rest, page.Tidy) (hfilled : ∀ page ∈ rest, page.items ≠ [])
    (hpage : (page.resize graphPageCapacity).2.items ≠ []) :
    Laid ((page.resize graphPageCapacity).2 :: spillAll 1 rest (page.resize graphPageCapacity).1) ∧
      ∀ page' ∈ (page.resize graphPageCapacity).2 ::
        spillAll 1 rest (page.resize graphPageCapacity).1, page'.items ≠ [] := by
  obtain ⟨hcapacity, hresized, -⟩ := resize_spec page graphPageCapacity
  have hfirm := @spillAll_firm rest 1 (page.resize graphPageCapacity).1 0 h
    fun page hpage => ⟨htidy page hpage, hfilled page hpage⟩
  have hall : ∀ page' ∈ (page.resize graphPageCapacity).2 ::
      spillAll 1 rest (page.resize graphPageCapacity).1, page'.items ≠ [] :=
    List.forall_mem_cons.2 ⟨hpage, fun page' hpage' => (hfirm page' hpage').2⟩
  refine ⟨⟨⟨hcapacity, h.spillAll⟩, ?_, .inl ⟨by simp, hall⟩⟩, hall⟩
  exact List.forall_mem_cons.2 ⟨hresized, fun page' hpage' => (hfirm page' hpage').1⟩

/-- The second round leaves no page empty. -/
theorem compactRounds_second (h : Sized 0 pages) (htidy : ∀ page ∈ pages, page.Tidy)
    (hpropped : Propped pages) : ∃ pages', compactRounds (rounds + 1) pages = .ok pages' ∧
      Laid pages' ∧ (pageIcons pages').Perm (pageIcons pages) := by
  have hkept := kept_icons pages
  have hrear : Sized 1 (kept pages).tail := sized_kept h.tail
  have hmem : ∀ page ∈ kept pages, page.Tidy ∧ page.items ≠ [] := fun page hpage =>
    ⟨htidy page (mem_kept.1 hpage).1, (mem_kept.1 hpage).2⟩
  have hfirst : ∀ page rest, kept pages = page :: rest →
      (page.resize graphPageCapacity).2.items ≠ [] := by
    intro page rest heq
    cases pages with
    | nil => cases heq
    | cons first pages =>
      rw [kept_cons] at heq
      by_cases hempty : first.items = []
      · obtain ⟨second, pages, rfl, s, hs, hslot⟩ := hpropped first pages rfl hempty
        rw [if_pos hempty, kept_cons, if_neg (List.ne_nil_of_mem hs)] at heq
        obtain ⟨rfl, -⟩ := List.cons.inj heq
        obtain ⟨s', hs', -⟩ := resize_keeps hs (n := graphPageCapacity) (by rw [hslot]; decide)
        exact List.ne_nil_of_mem hs'
      · rw [if_neg hempty] at heq
        obtain ⟨rfl, -⟩ := List.cons.inj heq
        have hcapacity : first.capacity = graphPageCapacity := h.1
        rw [← hcapacity, (htidy first List.mem_cons_self).resize_self]
        exact hempty
  cases hpages : kept pages with
  | nil =>
    refine ⟨_, compactRounds_nil hpages, laid_new, ?_⟩
    rw [← hkept, hpages]
    simp [pageIcons, new, icons]
  | cons page rest =>
    rw [hpages] at hrear hmem hkept
    replace hrear : Sized 1 rest := hrear
    obtain ⟨hpage, hrest⟩ := List.forall_mem_cons.1 hmem
    obtain ⟨hlaid, hall⟩ := laid_round hrear (fun page hpage => (hrest page hpage).1)
      (fun page hpage => (hrest page hpage).2) (hfirst page rest hpages)
    have hrun := @compactRounds_run pages rounds _ (by rw [hpages]; simp)
      (by rw [hpages]; exact round_tidy hrear fun page hpage => (hrest page hpage).1)
    rw [if_pos (all_not_isEmpty.2 hall)] at hrun
    refine ⟨_, hrun, hlaid, ?_⟩
    have hperm := (@spillAll_icons rest 1 (page.resize graphPageCapacity).1 hrear).append_left
      (page.resize graphPageCapacity).2.icons
    have hcut := (resize_spec page graphPageCapacity).2.2.append_right (pageIcons rest)
    rw [← hkept, pageIcons_cons, pageIcons_cons]
    rw [← List.append_assoc] at hperm
    exact hperm.trans hcut

/-- Compaction ends, whatever the pages hold: without an icon lost, a slot shared or a page empty. -/
theorem compactPages_ok (h : Sized 1 pages.tail) : ∃ pages', compactPages pages = .ok pages' ∧
    Laid pages' ∧ (pageIcons pages').Perm (pageIcons pages) := by
  rw [← kept_icons pages]
  by_cases hnil : kept pages = []
  · refine ⟨_, compactRounds_nil hnil, laid_new, ?_⟩
    rw [hnil]
    simp [pageIcons, new, icons]
  · obtain ⟨pages', hrun, hround, hpropped⟩ := round_ok (sized_kept h)
      fun page hpage => (mem_kept.1 hpage).2
    have hfirst := @compactRounds_run pages 1 _ hnil hrun
    by_cases hall : ∀ page ∈ pages', page.items ≠ []
    · rw [if_pos (all_not_isEmpty.2 hall)] at hfirst
      refine ⟨pages', hfirst, ⟨hround.sized, hround.tidy, .inl ⟨?_, hall⟩⟩, hround.icons⟩
      rintro rfl
      obtain ⟨page, hpage⟩ := List.exists_mem_of_ne_nil _ hnil
      have hnone : page.icons = [] :=
        List.flatMap_eq_nil_iff.1 (List.nil_perm.1 hround.icons) page hpage
      exact (mem_kept.1 hpage).2 (List.map_eq_nil_iff.1 hnone)
    · rw [if_neg fun hyes => hall (all_not_isEmpty.1 hyes)] at hfirst
      obtain ⟨pages'', hsecond, hlaid, hperm⟩ :=
        @compactRounds_second pages' 0 hround.sized hround.tidy hpropped
      exact ⟨pages'', hfirst.trans hsecond, hlaid, hperm.trans hround.icons⟩

/-- Pages that are laid out stay as they are. -/
theorem compactPages_laid (h : Laid pages) : compactPages pages = .ok pages := by
  cases pages with
  | nil =>
    rcases h.filled with ⟨hne, -⟩ | ⟨page, heq⟩
    · exact absurd rfl hne
    · cases heq
  | cons page rest =>
    by_cases hall : ∀ page' ∈ page :: rest, page'.items ≠ []
    · have hkept : kept (page :: rest) = page :: rest :=
        List.filter_eq_self.2 fun page' hpage => not_isEmpty.2 (hall page' hpage)
      obtain ⟨hpage, hrest⟩ := List.forall_mem_cons.1 h.tidy
      have hsame : page.resize graphPageCapacity = ([], page) := by
        have hcapacity : page.capacity = graphPageCapacity := h.sized.1
        rw [← hcapacity]
        exact hpage.resize_self
      have hround := @round_tidy rest page h.sized.2 hrest
      rw [hsame, spillAll_nil] at hround
      have hrun := @compactRounds_run (page :: rest) 1 (page :: rest) (by rw [hkept]; simp)
        (by rw [hkept]; exact hround)
      rw [if_pos (all_not_isEmpty.2 hall)] at hrun
      exact hrun
    · obtain ⟨single, heq⟩ : ∃ single, page :: rest = [single] :=
        h.filled.resolve_left fun hfilled => hall hfilled.2
      obtain ⟨rfl, rfl⟩ := List.cons.inj heq
      have hempty : page.items = [] := by simpa using hall
      have hpage : page = new (pageCapacityFor 0) := by
        rw [new, ← h.sized.1, ← hempty]
      have hkept : kept [page] = [] := by
        rw [kept_cons, if_pos hempty]
        rfl
      have hrun := @compactRounds_nil [page] 1 hkept
      rw [hpage] at hrun ⊢
      exact hrun

theorem compactPages_kept (pages : List LauncherCollection) :
    compactPages (kept pages) = compactPages pages := by
  have hkept : kept (kept pages) = kept pages := by simp [kept]
  rw [kept, kept] at hkept
  rw [compactPages, compactPages, compactRounds, compactRounds, kept, hkept]

/-- From tidy pages on, compaction keeps the reading order. -/
theorem compactRounds_tidy {pages' : List LauncherCollection} (h : Sized 1 pages.tail)
    (htidy : ∀ page ∈ pages, page.Tidy) (hrun : compactRounds rounds pages = .ok pages') :
    pageIcons pages' = pageIcons pages := by
  induction rounds generalizing pages with
  | zero => cases hrun
  | succ rounds ih =>
    rw [← kept_icons pages]
    cases hpages : kept pages with
    | nil =>
      rw [compactRounds_nil hpages] at hrun
      obtain rfl := Except.ok.inj hrun
      simp [pageIcons, new, icons]
    | cons page rest =>
      have hrear : Sized 1 rest := by
        have hsized := sized_kept h
        rwa [hpages] at hsized
      have hmem : ∀ page' ∈ page :: rest, page'.Tidy := fun page' hpage =>
        htidy page' (mem_kept.1 (hpages ▸ hpage)).1
      obtain ⟨hpage, hrest⟩ := List.forall_mem_cons.1 hmem
      have hround := @compactRounds_run pages rounds _ (by rw [hpages]; simp)
        (by rw [hpages]; exact round_tidy hrear hrest)
      have hicons : pageIcons ((page.resize graphPageCapacity).2 ::
          spillAll 1 rest (page.resize graphPageCapacity).1) = pageIcons (page :: rest) := by
        rw [pageIcons_cons, spillAll_front hrear hrest, ← List.append_assoc, hpage.resize_icons,
          pageIcons_cons]
      rw [hround] at hrun
      split at hrun
      · obtain rfl := Except.ok.inj hrun
        exact hicons
      · refine (ih ?_ ?_ hrun).trans hicons
        · exact hrear.spillAll
        · exact List.forall_mem_cons.2 ⟨(resize_spec page _).2.1, spillAll_tidy hrear hrest⟩

/-- When the first page that is kept fits, all kept pages stay as they are, renumbered. -/
theorem compactPages_fits {page : LauncherCollection} (h : Sized 1 pages.tail)
    (htidy : ∀ page ∈ pages, page.Tidy) (hkept : kept pages = page :: rest)
    (hfits : ∀ s ∈ page.items, s.slot < graphPageCapacity) :
    compactPages pages = .ok (⟨graphPageCapacity, page.items⟩ :: rest) := by
  have hmem : ∀ page' ∈ page :: rest, page'.Tidy ∧ page'.items ≠ [] := fun page' hpage =>
    ⟨htidy page' (mem_kept.1 (hkept ▸ hpage)).1, (mem_kept.1 (hkept ▸ hpage)).2⟩
  obtain ⟨hpage, hrest⟩ := List.forall_mem_cons.1 hmem
  have hrear : Sized 1 rest := by
    have hsized := sized_kept h
    rwa [hkept] at hsized
  have hround := @round_tidy rest page hrear fun page' hpage' => (hrest page' hpage').1
  rw [hpage.1.resize_fits hfits, spillAll_nil] at hround
  have hrun := @compactRounds_run pages 1 (⟨graphPageCapacity, page.items⟩ :: rest)
    (by rw [hkept]; simp) (by rw [hkept]; exact hround)
  have hall : ∀ page' ∈ (⟨graphPageCapacity, page.items⟩ : LauncherCollection) :: rest,
      page'.items ≠ [] :=
    List.forall_mem_cons.2 ⟨hpage.2, fun page' hpage' => (hrest page' hpage').2⟩
  rw [if_pos (all_not_isEmpty.2 hall)] at hrun
  exact hrun

end Rounds

end Launcher
