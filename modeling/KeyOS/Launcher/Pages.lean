import KeyOS.Launcher.Grid

/-!
# Insertion into the pages

An icon that a full page pushes off goes to the front of the next page, and a page is opened behind
the last one when that was full too. `spill` says what comes of the pages from the one that is
inserted into; those before it are not touched.
-/

namespace Launcher

open KeySort LauncherCollection

/-! ## 1. Pages -/

/-- The icons in reading order: page by page, and by slot on each. -/
def pageIcons (pages : List LauncherCollection) : List LauncherItem := pages.flatMap icons

/-- Each page has the capacity of its index, the first one being at `index`. -/
def Sized : Nat → List LauncherCollection → Prop
  | _, [] => True
  | index, page :: pages => page.capacity = pageCapacityFor index ∧ Sized (index + 1) pages

/-- The pages from one on, with an item put into it. -/
def spill : Nat → List LauncherCollection → Nat → LauncherItem → List LauncherCollection
  | index, [], slot, item => [((new (pageCapacityFor index)).insert slot item).2]
  | index, page :: pages, slot, item =>
    match page.insert slot item with
    | (some overflow, page) => page :: spill (index + 1) pages 0 overflow
    | (none, page) => page :: pages

variable {pages front rest : List LauncherCollection} {index slot : Nat} {item : LauncherItem}

@[simp] theorem pageIcons_nil : pageIcons [] = [] := rfl

@[simp] theorem pageIcons_cons (page : LauncherCollection) (pages : List LauncherCollection) :
    pageIcons (page :: pages) = page.icons ++ pageIcons pages := by
  simp [pageIcons]

@[simp] theorem pageIcons_append (front rest : List LauncherCollection) :
    pageIcons (front ++ rest) = pageIcons front ++ pageIcons rest := by
  simp [pageIcons]

theorem pageCapacityFor_pos (index : Nat) : 0 < pageCapacityFor index := by
  unfold pageCapacityFor
  split <;> decide

@[simp] theorem pageCapacityFor_zero : pageCapacityFor 0 = graphPageCapacity := rfl

@[simp] theorem pageCapacityFor_succ (index : Nat) :
    pageCapacityFor (index + 1) = standardPageCapacity := rfl

theorem sized_append : Sized index (front ++ rest) ↔
    Sized index front ∧ Sized (index + front.length) rest := by
  induction front generalizing index with
  | nil => simp [Sized]
  | cons page front ih =>
    simp only [List.cons_append, Sized, ih, and_assoc, List.length_cons]
    rw [show index + 1 + front.length = index + (front.length + 1) by omega]

/-- Behind the first page all are alike. -/
theorem sized_succ : Sized (index + 1) pages ↔
    ∀ page ∈ pages, page.capacity = standardPageCapacity := by
  induction pages generalizing index with
  | nil => simp [Sized]
  | cons page pages ih => simp [Sized, ih]

theorem Sized.tail (h : Sized index pages) : Sized (index + 1) pages.tail := by
  cases pages with
  | nil => trivial
  | cons page pages => exact h.2

theorem Sized.getElem? {page : LauncherCollection} {i : Nat} (h : Sized index pages)
    (hpage : pages[i]? = some page) : page.capacity = pageCapacityFor (index + i) := by
  induction pages generalizing index i with
  | nil => simp at hpage
  | cons first pages ih =>
    cases i with
    | zero =>
      obtain rfl : first = page := by simpa using hpage
      exact h.1
    | succ i =>
      rw [ih h.2 hpage]
      congr 1
      omega

theorem Sized.set {d : LauncherCollection} {i : Nat} (h : Sized index pages)
    (hd : ∀ page, pages[i]? = some page → d.capacity = page.capacity) :
    Sized index (pages.set i d) := by
  induction pages generalizing index i with
  | nil => exact h
  | cons page pages ih =>
    cases i with
    | zero => exact ⟨(hd page rfl).trans h.1, h.2⟩
    | succ i => exact ⟨h.1, ih h.2 hd⟩

/-- The icons of the pages, with those of one page in front -/
theorem pageIcons_split {page : LauncherCollection} {i : Nat} (h : pages[i]? = some page) :
    ∃ others, (pageIcons pages).Perm (page.icons ++ others) ∧
      ∀ d, (pageIcons (pages.set i d)).Perm (d.icons ++ others) := by
  induction pages generalizing i with
  | nil => simp at h
  | cons first pages ih =>
    cases i with
    | zero =>
      obtain rfl := Option.some.inj h
      exact ⟨pageIcons pages, by simp, fun d => by simp⟩
    | succ i =>
      obtain ⟨others, hperm, hset⟩ := ih h
      have swap : ∀ (d : LauncherCollection) (xs : List LauncherItem), xs.Perm (d.icons ++ others) →
          (first.icons ++ xs).Perm (d.icons ++ (first.icons ++ others)) := by
        intro d xs hxs
        have hswap := (@List.perm_append_comm _ first.icons d.icons).append_right others
        rw [List.append_assoc, List.append_assoc] at hswap
        exact (hxs.append_left first.icons).trans hswap
      refine ⟨first.icons ++ others, ?_, fun d => ?_⟩
      · rw [pageIcons_cons]
        exact swap page _ hperm
      · rw [List.set_cons_succ, pageIcons_cons]
        exact swap d _ (hset d)

theorem tidy_new (n : Nat) : (new n).Tidy := ⟨.nil, by simp [new]⟩

theorem new_insert {n : Nat} (hcap : 0 < n) (slot : Nat) (item : LauncherItem) :
    ((new n).insert slot item).1 = none :=
  (tidy_new n).insert_none hcap (by simp [new, isFree])

/-! ## 2. Where an insertion ends -/

theorem openPages_of_lt (h : index < pages.length) : openPages pages index = pages := by
  rw [openPages, show index + 1 - pages.length = 0 by omega]
  simp

theorem openPages_length (pages : List LauncherCollection) :
    openPages pages pages.length = pages ++ [new (pageCapacityFor pages.length)] := by
  simp [openPages]

theorem spill_some {page d : LauncherCollection} {overflow : LauncherItem}
    (h : page.insert slot item = (some overflow, d)) :
    spill index (page :: pages) slot item = d :: spill (index + 1) pages 0 overflow := by
  rw [spill, h]

theorem spill_none {page d : LauncherCollection} (h : page.insert slot item = (none, d)) :
    spill index (page :: pages) slot item = d :: pages := by
  rw [spill, h]

/-- The loop ends at the latest on a page that it opens. -/
theorem insertLoop_eq {steps : Nat} (hsized : Sized front.length rest)
    (hsteps : rest.length < steps) :
    insertLoop steps (front ++ rest) front.length slot item =
      .ok (front ++ spill front.length rest slot item) := by
  induction rest generalizing front steps slot item with
  | nil =>
    obtain ⟨steps, rfl⟩ : ∃ steps', steps = steps' + 1 := ⟨steps - 1, by omega⟩
    obtain ⟨d, hinsert⟩ : ∃ d, (new (pageCapacityFor front.length)).insert slot item = (none, d) :=
      ⟨_, Prod.ext (new_insert (pageCapacityFor_pos _) slot item) rfl⟩
    have hopen := openPages_length front
    rw [List.append_nil, insertLoop, hopen, List.getElem?_concat_length]
    simp only [hinsert, spill]
    simp [new]
  | cons page rest ih =>
    obtain ⟨steps, rfl⟩ : ∃ steps', steps = steps' + 1 := ⟨steps - 1, by omega⟩
    have hopen : openPages (front ++ page :: rest) front.length = front ++ page :: rest :=
      openPages_of_lt (by simp)
    have hset : ∀ d, (front ++ page :: rest).set front.length d = (front ++ [d]) ++ rest := by
      simp
    rw [insertLoop, hopen]
    simp only [List.getElem?_append_right (le_refl _), Nat.sub_self, List.getElem?_cons_zero,
      hsized.1, ne_eq, not_true_eq_false, if_false, hset]
    rcases hinsert : page.insert slot item with ⟨_ | overflow, d⟩
    · rw [spill_none hinsert]
      simp
    · have hlen : (front ++ [d]).length = front.length + 1 := by simp
      have hrest := @ih (front ++ [d]) 0 overflow steps (hlen ▸ hsized.2) (by simpa using hsteps)
      rw [hlen] at hrest
      rw [spill_some hinsert]
      simpa using hrest

theorem insertItemIntoPages_eq (hsized : Sized front.length rest) :
    insertItemIntoPages (front ++ rest) front.length slot item =
      .ok (front ++ spill front.length rest slot item) :=
  insertLoop_eq hsized (by simp)

/-! ## 3. What an insertion keeps -/

theorem Sized.spill (h : Sized index pages) : Sized index (spill index pages slot item) := by
  induction pages generalizing index slot item with
  | nil => exact ⟨insert_capacity slot item, trivial⟩
  | cons page pages ih =>
    have hcapacity := @insert_capacity page slot item
    rcases hinsert : page.insert slot item with ⟨_ | overflow, d⟩
    · rw [spill_none hinsert]
      rw [hinsert] at hcapacity
      exact ⟨hcapacity.trans h.1, h.2⟩
    · rw [spill_some hinsert]
      rw [hinsert] at hcapacity
      exact ⟨hcapacity.trans h.1, ih h.2⟩

/-- No icon is lost on the way. -/
theorem spill_icons (h : Sized index pages) :
    (pageIcons (spill index pages slot item)).Perm (item :: pageIcons pages) := by
  induction pages generalizing index slot item with
  | nil =>
    have hicons := @insert_icons (new (pageCapacityFor index)) slot item (pageCapacityFor_pos index)
    rw [new_insert (pageCapacityFor_pos index)] at hicons
    simpa [spill, new, icons] using hicons
  | cons page pages ih =>
    have hicons := @insert_icons page slot item (h.1 ▸ pageCapacityFor_pos index)
    rcases hinsert : page.insert slot item with ⟨_ | overflow, d⟩
    · rw [spill_none hinsert]
      rw [hinsert] at hicons
      simpa using hicons.append_right (pageIcons pages)
    · rw [spill_some hinsert, pageIcons_cons, pageIcons_cons]
      rw [hinsert] at hicons
      have hrest := (@ih (index + 1) 0 overflow h.2).append_left d.icons
      refine hrest.trans ?_
      have hall := hicons.append_right (pageIcons pages)
      rwa [List.append_assoc] at hall

/-- At the front of the first page the icon comes before all the others, which keep their order. -/
theorem spill_front (h : Sized index pages) (htidy : ∀ page ∈ pages, page.Tidy) :
    pageIcons (spill index pages 0 item) = item :: pageIcons pages := by
  induction pages generalizing index item with
  | nil =>
    have hicons := @(tidy_new (pageCapacityFor index)).insert_front _ item (pageCapacityFor_pos index)
    rw [new_insert (pageCapacityFor_pos index)] at hicons
    simpa [spill, new, icons] using hicons
  | cons page pages ih =>
    obtain ⟨hpage, hpages⟩ := List.forall_mem_cons.1 htidy
    have hicons := @Tidy.insert_front page item hpage (h.1 ▸ pageCapacityFor_pos index)
    rcases hinsert : page.insert 0 item with ⟨_ | overflow, d⟩
    · rw [spill_none hinsert]
      rw [hinsert] at hicons
      simp only [Option.toList_none, List.append_nil] at hicons
      simp [hicons]
    · rw [spill_some hinsert, pageIcons_cons, pageIcons_cons, ih h.2 hpages]
      rw [hinsert] at hicons
      simp only [Option.toList_some] at hicons
      rw [← List.cons_append, ← hicons]
      simp

/-- What insertion makes of a page and of a new one holds of the pages that come of it. -/
theorem spill_keeps {P : LauncherCollection → Prop} {n : Nat} (h : Sized index pages)
    (hinsert : ∀ page slot item, 0 < page.capacity → P page → P (page.insert slot item).2)
    (hnew : ∀ n slot item, 0 < n → P ((new n).insert slot item).2)
    (hpages : ∀ page ∈ pages.drop n, P page) :
    ∀ page ∈ (spill index pages slot item).drop n, P page := by
  induction pages generalizing index slot item n with
  | nil =>
    cases n with
    | zero => simpa [spill] using hnew _ slot item (pageCapacityFor_pos index)
    | succ n => simp [spill]
  | cons page pages ih =>
    have hcap : 0 < page.capacity := h.1 ▸ pageCapacityFor_pos index
    have hd : n = 0 → P (page.insert slot item).2 := by
      rintro rfl
      exact hinsert page slot item hcap (hpages page (by simp))
    rcases hresult : page.insert slot item with ⟨_ | overflow, d⟩
    · rw [spill_none hresult]
      rw [hresult] at hd
      cases n with
      | zero =>
        have hrest := (List.forall_mem_cons.1 hpages).2
        exact List.forall_mem_cons.2 ⟨hd rfl, hrest⟩
      | succ n => exact hpages
    · rw [spill_some hresult]
      rw [hresult] at hd
      cases n with
      | zero =>
        have hrest := (List.forall_mem_cons.1 hpages).2
        exact List.forall_mem_cons.2 ⟨hd rfl, @ih (index + 1) 0 overflow 0 h.2 hrest⟩
      | succ n => exact @ih (index + 1) 0 overflow n h.2 hpages

theorem spill_tidy (h : Sized index pages) (htidy : ∀ page ∈ pages, page.Tidy) :
    ∀ page ∈ spill index pages slot item, page.Tidy :=
  @spill_keeps pages index slot item Tidy 0 h (fun _ slot item hcap hpage => hpage.insert hcap slot item)
    (fun n slot item hn => (tidy_new n).insert hn slot item) htidy

/-- The icon is on the page that it was put into. -/
theorem spill_here (h : Sized index pages) : ∃ page rest,
    spill index pages slot item = page :: rest ∧
      ⟨min slot (pageCapacityFor index - 1), item⟩ ∈ page.items := by
  cases pages with
  | nil => exact ⟨_, [], rfl, mem_insert (pageCapacityFor_pos index)⟩
  | cons page pages =>
    have hmem := @mem_insert page slot item (h.1 ▸ pageCapacityFor_pos index)
    rw [h.1] at hmem
    rcases hinsert : page.insert slot item with ⟨_ | overflow, d⟩
    · rw [hinsert] at hmem
      exact ⟨d, pages, spill_none hinsert, hmem⟩
    · rw [hinsert] at hmem
      exact ⟨d, _, spill_some hinsert, hmem⟩

/-- The pages after an icon was put into one of them, or onto one behind them. -/
structure PutInto (pages : List LauncherCollection) (index slot : Nat) (item : LauncherItem)
    (pages' : List LauncherCollection) : Prop where
  sized : Sized 0 pages'
  icons : (pageIcons pages').Perm (item :: pageIcons pages)
  tidy : (∀ page ∈ pages, page.Tidy) → ∀ page ∈ pages', page.Tidy
  here : ∃ page, pages'[index]? = some page ∧
    ⟨min slot (pageCapacityFor index - 1), item⟩ ∈ page.items

theorem insertItemIntoPages_ok (h : Sized 0 pages) (hindex : index ≤ pages.length) (slot : Nat)
    (item : LauncherItem) : ∃ pages', insertItemIntoPages pages index slot item = .ok pages' ∧
      PutInto pages index slot item pages' := by
  obtain ⟨front, rest, rfl, rfl⟩ : ∃ front rest, pages = front ++ rest ∧ front.length = index :=
    ⟨pages.take index, pages.drop index, (List.take_append_drop index pages).symm,
      List.length_take_of_le hindex⟩
  obtain ⟨hfront, hrest⟩ := sized_append.1 h
  rw [Nat.zero_add] at hrest
  refine ⟨_, insertItemIntoPages_eq hrest, ?_, ?_, ?_, ?_⟩
  · refine sized_append.2 ⟨hfront, ?_⟩
    rw [Nat.zero_add]
    exact hrest.spill
  · rw [pageIcons_append, pageIcons_append]
    exact ((spill_icons hrest).append_left _).trans List.perm_middle
  · intro htidy page hpage
    rcases List.mem_append.1 hpage with hpage | hpage
    · exact htidy page (List.mem_append_left rest hpage)
    · exact spill_tidy hrest (fun page' hpage' => htidy page' (List.mem_append_right front hpage'))
        page hpage
  · obtain ⟨page, rest', heq, hmem⟩ := @spill_here rest front.length slot item hrest
    refine ⟨page, ?_, hmem⟩
    rw [heq, List.getElem?_append_right (le_refl _), Nat.sub_self, List.getElem?_cons_zero]

/-- At most one page is opened. -/
theorem length_spill : pages.length ≤ (spill index pages slot item).length ∧
    (spill index pages slot item).length ≤ pages.length + 1 := by
  induction pages generalizing index slot item with
  | nil => simp [spill]
  | cons page pages ih =>
    rcases hinsert : page.insert slot item with ⟨_ | overflow, d⟩
    · rw [spill_none hinsert]
      simp
    · rw [spill_some hinsert]
      simpa using @ih (index + 1) 0 overflow

end Launcher
