import KeyOS.Gui.Layers

/-!
# The paint order of the layers

The stack keeps the paint order as long as no layer slides in below another one, and the limits of
the display controller as long as no scaled layer is put on top of a stack without room for it or
moved down to the base. `push` sees to neither, so both are conditions on a push (`Takes`).

Between pushes that meet them, the stack is filled from the bottom up, or holds a scaled layer alone
in slot 1 (`Shape`).
-/

namespace Gui

namespace LayerStack

/-! ## 1. What is asked of a stack -/

/-- Why the layer that was pushed at `i` may be missing. -/
def Excused (pushes : List Layer) (stack : LayerStack) (i : Nat) (layer : Layer) : Prop :=
  layer.isEmpty = true ∨ layer.lowPriority = true ∨ (pushAll (pushes.take i)).Excludes layer ∨
    stack.Crowded

/-- The occupied slots are the pushes at the positions `kept`, in this order. -/
structure Painted (pushes : List Layer) (stack : LayerStack) (kept : List Nat) : Prop where
  ordered : kept.Pairwise (· < ·)
  shown : kept.map (pushes[·]?) = stack.occupied.map some
  missing : ∀ (i : Nat) (layer : Layer), pushes[i]? = some layer → i ∉ kept →
    Excused pushes stack i layer

structure Composited (pushes : List Layer) (stack : LayerStack) : Prop where
  painted : ∃ kept, Painted pushes stack kept
  once : (stack.occupied.filter (·.isScaled)).length ≤ 1
  place : ∀ (i : Nat) (layer : Layer), stack.layers[i]? = some (some layer) →
    layer.isScaled = true → i = 1 ∨ i = 2

theorem map_getElem?_range {α : Type} (xs : List α) :
    (List.range xs.length).map (xs[·]?) = xs.map some := by
  refine List.ext_getElem (by simp) ?_
  intro i hi hi'
  simp

theorem Painted.sublist {pushes : List Layer} {stack : LayerStack} {kept : List Nat}
    (h : Painted pushes stack kept) : stack.occupied.Sublist pushes := by
  have hpositions : kept.Sublist (List.range pushes.length) := by
    refine List.sublist_of_subperm_of_pairwise (List.subperm_of_subset (h.ordered.imp Nat.ne_of_lt) ?_)
      (h.ordered.imp Nat.le_of_lt) (List.pairwise_lt_range.imp Nat.le_of_lt)
    intro i hi
    have hshown : pushes[i]? ∈ stack.occupied.map some := h.shown ▸ List.mem_map_of_mem hi
    obtain ⟨layer, -, hlayer⟩ := List.mem_map.1 hshown
    exact List.mem_range.2 (List.getElem?_eq_some_iff.1 hlayer.symm).1
  have hlayers := (hpositions.map (pushes[·]?)).filterMap id
  rw [h.shown, map_getElem?_range] at hlayers
  simpa [List.filterMap_map] using hlayers

section Push

variable {pushes : List Layer} {stack stack' : LayerStack} {layer : Layer} {kept : List Nat}

theorem Excused.push {i : Nat} {old : Layer} (h : Excused pushes stack i old)
    (hi : i < pushes.length) (hcrowded : stack.Crowded → stack'.Crowded) :
    Excused (pushes ++ [layer]) stack' i old := by
  unfold Excused
  rw [List.take_append_of_le_length (Nat.le_of_lt hi)]
  exact h.imp_right (Or.imp_right (Or.imp_right hcrowded))

theorem Painted.lt (h : Painted pushes stack kept) {i : Nat} (hi : i ∈ kept) :
    i < pushes.length := by
  have hshown : pushes[i]? ∈ stack.occupied.map some := h.shown ▸ List.mem_map_of_mem hi
  obtain ⟨layer, -, hlayer⟩ := List.mem_map.1 hshown
  exact (List.getElem?_eq_some_iff.1 hlayer.symm).1

/-- A push after which other slots are occupied, by pushes at the positions `kept'`. -/
theorem Painted.push {kept' : List Nat} {shown : List Layer} (h : Painted pushes stack kept)
    (hordered : kept'.Pairwise (· < ·)) (hsub : ∀ i ∈ kept', i ∈ kept)
    (hshown : kept'.map (pushes[·]?) = shown.map some)
    (hgone : ∀ i ∈ kept, i ∉ kept' → ∀ old, pushes[i]? = some old → old.lowPriority = true)
    (hcrowded : stack.Crowded → stack'.Crowded) :
    (stack'.occupied = shown → Excused (pushes ++ [layer]) stack' pushes.length layer →
      Painted (pushes ++ [layer]) stack' kept') ∧
    (stack'.occupied = shown ++ [layer] →
      Painted (pushes ++ [layer]) stack' (kept' ++ [pushes.length])) := by
  have hmap : kept'.map ((pushes ++ [layer])[·]?) = shown.map some := by
    rw [← hshown]
    refine List.map_congr_left ?_
    intro i hi
    exact List.getElem?_append_left (h.lt (hsub i hi))
  have hmissing : ∀ (i : Nat) (old : Layer), pushes[i]? = some old → i ∉ kept' →
      Excused (pushes ++ [layer]) stack' i old := by
    intro i old hold hi
    by_cases hkept : i ∈ kept
    · exact .inr (.inl (hgone i hkept hi old hold))
    · exact (h.missing i old hold hkept).push (List.getElem?_eq_some_iff.1 hold).1 hcrowded
  constructor
  · intro hoccupied hexcused
    refine ⟨hordered, hoccupied ▸ hmap, ?_⟩
    intro i old hold hi
    rcases Nat.lt_trichotomy i pushes.length with hlt | rfl | hgt
    · rw [List.getElem?_append_left hlt] at hold
      exact hmissing i old hold hi
    · rw [List.getElem?_concat_length] at hold
      exact Option.some.inj hold ▸ hexcused
    · rw [List.getElem?_eq_none (by simpa using Nat.succ_le_of_lt hgt)] at hold
      cases hold
  · intro hoccupied
    refine ⟨?_, ?_, ?_⟩
    · refine List.pairwise_append.2 ⟨hordered, List.pairwise_singleton _ _, ?_⟩
      intro i hi j hj
      rw [List.mem_singleton.1 hj]
      exact h.lt (hsub i hi)
    · rw [List.map_append, hmap, hoccupied]
      simp
    · intro i old hold hi
      rw [List.mem_append, List.mem_singleton, not_or] at hi
      have hlt : i < pushes.length := by
        have := (List.getElem?_eq_some_iff.1 hold).1
        simp at this
        omega
      rw [List.getElem?_append_left hlt] at hold
      exact hmissing i old hold hi.1

end Push

/-! ## 2. What a push does -/

/-- The stack from the bottom up to its first free slot; above that, nothing. -/
def Filled (stack : LayerStack) (xs : List Layer) : Prop :=
  stack.layers = xs.map some ++ List.replicate (maxLayers - xs.length) none

/-- A scaled layer was the first to come. -/
def Alone (stack : LayerStack) (layer : Layer) : Prop :=
  stack.layers = [none, some layer, none, none] ∧ layer.isScaled = true

section Search

variable {layer : Layer} {i : Nat} {xs : List Layer} {rest : List (Option Layer)}

theorem above_above (below below' : List (Option Layer)) (found : Search) :
    (found.above below').above below = found.above (below ++ below') := by
  cases found <;> simp [Search.above]

theorem search_past (h : layer.isScaled = true → ∀ o ∈ xs, o.isScaled = false) :
    search layer i (xs.map some ++ rest) = (search layer (i + xs.length) rest).above (xs.map some) := by
  induction xs generalizing i with
  | nil =>
    cases hsearch : search layer i rest <;> simp [Search.above, hsearch]
  | cons x xs ih =>
    have hx : (x.isScaled && layer.isScaled) = false := by
      cases hscaled : layer.isScaled with
      | false => simp
      | true => simp [h hscaled x List.mem_cons_self]
    have hxs := @ih (i + 1) fun hscaled o ho => h hscaled o (List.mem_cons_of_mem x ho)
    rw [List.map_cons, List.cons_append, search, hx, if_neg (by simp), hxs, above_above,
      List.length_cons, Nat.add_assoc, Nat.add_comm 1]
    rfl

/-- The loop meets a scaled layer before a slot to scale in. -/
theorem search_skipped (hlayer : layer.isScaled = true) (h : ∃ o ∈ xs, o.isScaled = true) :
    search layer i (xs.map some ++ rest) = .skipped := by
  induction xs generalizing i with
  | nil => simp at h
  | cons x xs ih =>
    by_cases hx : x.isScaled = true
    · simp [search, hx, hlayer]
    · have hxs : ∃ o ∈ xs, o.isScaled = true := by simpa [hx] using h
      simp [search, hx, ih hxs, Search.above]

theorem search_free (h : i = 1 ∨ i = 2 ∨ layer.isScaled = false) :
    search layer i (none :: rest) = .placed (some layer :: rest) := by
  have hplaced : ¬(i ≠ 1 ∧ i ≠ 2 ∧ layer.isScaled = true) := by
    rintro ⟨hone, htwo, hscaled⟩
    simp [hone, htwo, hscaled] at h
  rw [search, if_neg hplaced]

end Search

theorem filled_occupied {stack : LayerStack} {xs : List Layer} (h : stack.Filled xs) :
    stack.occupied = xs := by
  rw [occupied, h, List.filterMap_append, List.filterMap_map]
  simp

theorem filled_length {stack : LayerStack} {xs : List Layer} (h : stack.Filled xs) :
    xs.length ≤ maxLayers := by
  have hlen := stack.length_eq
  rw [h] at hlen
  simp at hlen
  omega

section Effects

variable {stack : LayerStack} {layer : Layer} {xs : List Layer}

/-- How a push goes that finds no slot: the lowest layer of low priority makes room. -/
theorem pushed_noRoom {layers : List (Option Layer)} (hempty : layer.isEmpty = false)
    (h : search layer 0 layers = .noRoom) :
    (∃ p, ∃ hp : p < layers.length, isReplaceable layers[p] = true ∧
      (∀ q, ∀ hq : q < p, isReplaceable layers[q] = false) ∧
      pushed layers layer = layers.eraseIdx p ++ [some layer]) ∨
    ((∀ lo ∈ layers, isReplaceable lo = false) ∧ pushed layers layer = layers) := by
  unfold pushed
  rw [if_neg (by simp [hempty]), h]
  cases hfind : layers.findIdx? isReplaceable with
  | none =>
    refine .inr ⟨?_, rfl⟩
    intro lo hlo
    simpa using List.findIdx?_eq_none_iff.1 hfind lo hlo
  | some p =>
    obtain ⟨hp, hreplaceable, hbefore⟩ := List.findIdx?_eq_some_iff_getElem.1 hfind
    refine .inl ⟨p, hp, hreplaceable, ?_, copyWithin_set _ hp⟩
    intro q hq
    simpa using hbefore q hq

theorem push_empty (h : layer.isEmpty = true) : (stack.push layer).layers = stack.layers :=
  if_pos h

theorem push_placed {layers : List (Option Layer)} (hempty : layer.isEmpty = false)
    (h : search layer 0 stack.layers = .placed layers) : (stack.push layer).layers = layers := by
  show pushed stack.layers layer = layers
  rw [pushed, if_neg (by simp [hempty]), h]

theorem push_skipped (hempty : layer.isEmpty = false)
    (h : search layer 0 stack.layers = .skipped) : (stack.push layer).layers = stack.layers := by
  show pushed stack.layers layer = stack.layers
  rw [pushed, if_neg (by simp [hempty]), h]

/-- The loop gets to the first free slot of a filled stack. -/
theorem search_filled (h : stack.Filled xs)
    (hscaled : layer.isScaled = true → ∀ o ∈ xs, o.isScaled = false) :
    search layer 0 stack.layers = (search layer xs.length
      (List.replicate (maxLayers - xs.length) none)).above (xs.map some) := by
  rw [h, search_past hscaled, Nat.zero_add]

theorem push_on_top (h : stack.Filled xs) (hempty : layer.isEmpty = false)
    (hroom : xs.length < maxLayers)
    (hscaled : layer.isScaled = true → ∀ o ∈ xs, o.isScaled = false)
    (hslot : xs.length = 1 ∨ xs.length = 2 ∨ layer.isScaled = false) :
    (stack.push layer).Filled (xs ++ [layer]) := by
  obtain ⟨free, hfree⟩ : ∃ free, maxLayers - xs.length = free + 1 :=
    ⟨maxLayers - xs.length - 1, by omega⟩
  have hsearch := search_filled h hscaled
  rw [hfree, List.replicate_succ, search_free hslot] at hsearch
  have hrest : maxLayers - (xs ++ [layer]).length = free := by
    simp
    omega
  rw [Filled, push_placed hempty hsearch, hrest]
  simp

/-- A full stack gives up its lowest layer of low priority, or keeps all it has. -/
theorem push_full (h : stack.Filled xs) (hfull : xs.length = maxLayers)
    (hempty : layer.isEmpty = false)
    (hscaled : layer.isScaled = true → ∀ o ∈ xs, o.isScaled = false) :
    (∃ p, ∃ hp : p < xs.length, xs[p].lowPriority = true ∧
      (∀ q, ∀ hq : q < p, xs[q].lowPriority = false) ∧
      (stack.push layer).Filled (xs.eraseIdx p ++ [layer])) ∨
    (stack.Crowded ∧ (stack.push layer).layers = stack.layers) := by
  have hlayers : stack.layers = xs.map some := by
    rw [h, hfull]
    simp
  have hsearch := search_filled h hscaled
  rw [hfull, Nat.sub_self] at hsearch
  rcases pushed_noRoom hempty hsearch with ⟨p, hp, hlow, hbefore, hpushed⟩ | ⟨hhigh, hsame⟩
  · simp only [hlayers, List.length_map, List.getElem_map] at hp hlow hbefore
    refine .inl ⟨p, hp, hlow, hbefore, ?_⟩
    have hrest : maxLayers - (xs.eraseIdx p ++ [layer]).length = 0 := by
      rw [List.length_append, List.length_eraseIdx_of_lt hp]
      simp
      omega
    rw [Filled, hrest]
    show pushed stack.layers layer = _
    rw [hpushed, hlayers, List.eraseIdx_map]
    simp
  · refine .inr ⟨?_, hsame⟩
    intro lo hlo
    have hkept := hhigh lo hlo
    rw [hlayers] at hlo
    obtain ⟨o, -, rfl⟩ := List.mem_map.1 hlo
    exact ⟨o, rfl, hkept⟩

/-- No slot to scale in is left, so the layer ends on top or nowhere. -/
theorem push_scaled_noRoom (h : stack.Filled xs) (hmany : 3 ≤ xs.length)
    (hempty : layer.isEmpty = false) (hlayer : layer.isScaled = true)
    (hscaled : ∀ o ∈ xs, o.isScaled = false) :
    (stack.push layer).layers[3]? = some (some layer) ∨ stack.Crowded := by
  have hsearch := search_filled h (fun _ : layer.isScaled = true => hscaled)
  have hnoRoom : search layer 0 stack.layers = .noRoom := by
    rw [hsearch]
    rcases Nat.lt_or_ge xs.length 4 with hlt | hge
    · have hthree : xs.length = 3 := by omega
      simp [hthree, maxLayers, search, hlayer, Search.above]
    · simp [show maxLayers - xs.length = 0 by simp [maxLayers, hge], search, Search.above]
  rcases pushed_noRoom hempty hnoRoom with ⟨p, hp, -, -, hpushed⟩ | ⟨hhigh, -⟩
  · refine .inl ?_
    show (pushed stack.layers layer)[3]? = _
    have hlen : (stack.layers.eraseIdx p).length = 3 := by
      rw [List.length_eraseIdx_of_lt hp, stack.length_eq]
      rfl
    rw [hpushed, ← hlen, List.getElem?_concat_length]
  · refine .inr ?_
    intro lo hlo
    have hkept := hhigh lo hlo
    cases lo with
    | none => simp [isReplaceable] at hkept
    | some o => exact ⟨o, rfl, hkept⟩

theorem push_first_scaled (h : stack.Filled []) (hempty : layer.isEmpty = false)
    (hlayer : layer.isScaled = true) : (stack.push layer).Alone layer := by
  have hsearch : search layer 0 stack.layers = .placed [none, some layer, none, none] := by
    rw [h]
    simp [maxLayers, List.replicate, search, hlayer, Search.above]
  exact ⟨push_placed hempty hsearch, hlayer⟩

variable {only : Layer}

theorem push_alone_scaled (h : stack.Alone only) (hempty : layer.isEmpty = false)
    (hlayer : layer.isScaled = true) : (stack.push layer).layers = stack.layers := by
  refine push_skipped hempty ?_
  rw [h.1]
  simp [search, hlayer, h.2, Search.above]

/-- The layer slides in below the one that was there first. -/
theorem push_alone_unscaled (h : stack.Alone only) (hempty : layer.isEmpty = false)
    (hlayer : layer.isScaled = false) :
    (stack.push layer).layers = [some layer, some only, none, none] := by
  refine push_placed hempty ?_
  rw [h.1]
  simp [search, hlayer]

end Effects

/-! ## 3. Pushes that keep order and limits -/

/-- A slot is free below an occupied one. -/
def Gap (stack : LayerStack) : Prop :=
  ∃ (i j : Nat) (layer : Layer), i < j ∧ stack.layers[i]? = some none ∧
    stack.layers[j]? = some (some layer)

/-- The base is of low priority, and the layer above it is scaled. -/
def ScaledOverLow (stack : LayerStack) : Prop :=
  ∃ base above : Layer, stack.layers[0]? = some (some base) ∧ base.lowPriority = true ∧
    stack.layers[1]? = some (some above) ∧ above.isScaled = true

/-- What a push has to find so that it keeps order and limits. -/
inductive Takes (stack : LayerStack) (layer : Layer) : Prop where
  | empty (hempty : layer.isEmpty = true)
  | excluded (hexcluded : stack.Excludes layer)
  | scaled (hscaled : layer.isScaled = true)
      (hroom : stack.layers[1]? = some none ∨ stack.layers[2]? = some none ∨ stack.Crowded)
  | unscaled (hscaled : layer.isScaled = false) (hgap : ¬stack.Gap)
      (hbase : none ∉ stack.layers → ¬stack.ScaledOverLow)

/-- The limits, of the occupied slots of a filled stack. -/
structure Limits (xs : List Layer) : Prop where
  once : (xs.filter (·.isScaled)).length ≤ 1
  place : ∀ (i : Nat) (layer : Layer), xs[i]? = some layer → layer.isScaled = true →
    i = 1 ∨ i = 2

theorem filled_getElem? {stack : LayerStack} {xs : List Layer} (h : stack.Filled xs) (i : Nat)
    (layer : Layer) : stack.layers[i]? = some (some layer) ↔ xs[i]? = some layer := by
  rw [h]
  rcases Nat.lt_or_ge i xs.length with hlt | hge
  · rw [List.getElem?_append_left (by simpa using hlt)]
    simp
  · rw [List.getElem?_append_right (by simpa using hge), List.getElem?_eq_none hge,
      List.getElem?_replicate]
    split <;> simp

theorem filled_limits {pushes : List Layer} {stack : LayerStack} {xs : List Layer}
    (h : stack.Filled xs) :
    Composited pushes stack ↔ (∃ kept, Painted pushes stack kept) ∧ Limits xs := by
  constructor
  · rintro ⟨hpainted, honce, hplace⟩
    rw [filled_occupied h] at honce
    refine ⟨hpainted, honce, ?_⟩
    intro i layer hlayer
    exact hplace i layer ((filled_getElem? h i layer).2 hlayer)
  · rintro ⟨hpainted, honce, hplace⟩
    refine ⟨hpainted, (filled_occupied h).symm ▸ honce, ?_⟩
    intro i layer hlayer
    exact hplace i layer ((filled_getElem? h i layer).1 hlayer)

theorem Limits.append {xs : List Layer} {layer : Layer} (h : Limits xs)
    (hscaled : layer.isScaled = true → (∀ o ∈ xs, o.isScaled = false) ∧
      (xs.length = 1 ∨ xs.length = 2)) : Limits (xs ++ [layer]) := by
  constructor
  · cases hlayer : layer.isScaled with
    | false => simpa [hlayer] using h.once
    | true =>
      have hnone : xs.filter (·.isScaled) = [] := by
        simpa [List.filter_eq_nil_iff] using (hscaled hlayer).1
      simp [hnone, hlayer]
  · intro i o ho hlit
    rcases Nat.lt_trichotomy i xs.length with hlt | rfl | hgt
    · rw [List.getElem?_append_left hlt] at ho
      exact h.place i o ho hlit
    · rw [List.getElem?_concat_length] at ho
      cases ho
      exact (hscaled hlit).2
    · rw [List.getElem?_eq_none (by simpa using Nat.succ_le_of_lt hgt)] at ho
      cases ho

/-- The layers above the one that goes move down by one slot. -/
theorem Limits.eraseIdx {xs : List Layer} {p : Nat} (h : Limits xs)
    (hbase : p = 0 → ∀ o, xs[1]? = some o → o.isScaled = false) : Limits (xs.eraseIdx p) := by
  constructor
  · exact Nat.le_trans ((List.eraseIdx_sublist xs p).filter _).length_le h.once
  · intro i o ho hlit
    rw [List.getElem?_eraseIdx] at ho
    split at ho
    · exact h.place i o ho hlit
    next hpi =>
      rcases h.place (i + 1) o ho hlit with hone | htwo
      · have hi : i = 0 := by omega
        subst hi
        rw [hbase (Nat.le_zero.1 (Nat.not_lt.1 hpi)) o ho] at hlit
        cases hlit
      · exact .inl (by omega)

/-- What is known after pushes that keep order and limits. -/
structure Good (pushes : List Layer) (stack : LayerStack) : Prop where
  composited : Composited pushes stack
  bare : stack.occupied = [] → ∀ layer ∈ pushes, layer.isEmpty = true
  shape : (∃ xs, stack.Filled xs) ∨ (∃ only, stack.Alone only) ∧
    ∀ layer ∈ pushes, layer.isEmpty = true ∨ layer.isScaled = true

section Step

variable {pushes : List Layer} {stack stack' : LayerStack} {layer : Layer} {xs : List Layer}
  {kept : List Nat}

theorem occupied_congr (h : stack'.layers = stack.layers) : stack'.occupied = stack.occupied := by
  rw [occupied, occupied, h]

theorem Painted.same (h : Painted pushes stack kept) (hsame : stack'.layers = stack.layers)
    (hexcused : layer.isEmpty = true ∨ (pushAll pushes).Excludes layer ∨ stack.Crowded) :
    Painted (pushes ++ [layer]) stack' kept := by
  have hcrowded : stack.Crowded → stack'.Crowded := by
    intro hfull
    rw [Crowded, hsame]
    exact hfull
  refine (h.push h.ordered (fun _ => id) h.shown ?_ hcrowded).1 (occupied_congr hsame) ?_
  · intro i hi hnot
    exact absurd hi hnot
  · unfold Excused
    rw [List.take_append_of_le_length (Nat.le_refl _), List.take_length]
    rcases hexcused with hempty | hexcluded | hfull
    · exact .inl hempty
    · exact .inr (.inr (.inl hexcluded))
    · exact .inr (.inr (.inr (hcrowded hfull)))

theorem Composited.same (h : Composited pushes stack) (hsame : stack'.layers = stack.layers)
    (hexcused : layer.isEmpty = true ∨ (pushAll pushes).Excludes layer ∨ stack.Crowded) :
    Composited (pushes ++ [layer]) stack' := by
  obtain ⟨⟨kept, hpainted⟩, honce, hplace⟩ := h
  refine ⟨⟨kept, hpainted.same hsame hexcused⟩, (occupied_congr hsame).symm ▸ honce, ?_⟩
  rw [hsame]
  exact hplace

theorem not_crowded_of_free {i : Nat} (h : stack.layers[i]? = some none) : ¬stack.Crowded := by
  intro hcrowded
  obtain ⟨o, ho, -⟩ := hcrowded none (List.mem_of_getElem? h)
  cases ho

theorem none_not_mem_of_crowded (h : stack.Crowded) : none ∉ stack.layers := by
  intro hnone
  obtain ⟨o, ho, -⟩ := h none hnone
  cases ho

theorem occupied_of_crowded (h : stack.Crowded) : stack.occupied ≠ [] := by
  have hbase : 0 < stack.layers.length := by
    rw [stack.length_eq]
    decide
  obtain ⟨o, ho, -⟩ := h stack.layers[0] (List.getElem_mem hbase)
  refine List.ne_nil_of_mem (a := o) ?_
  rw [occupied, List.mem_filterMap]
  exact ⟨some o, ho ▸ List.getElem_mem hbase, rfl⟩

theorem Painted.onTop (h : Painted pushes stack kept) (hcrowded : ¬stack.Crowded)
    (hshown : stack'.occupied = stack.occupied ++ [layer]) :
    Painted (pushes ++ [layer]) stack' (kept ++ [pushes.length]) := by
  refine (h.push h.ordered (fun _ => id) h.shown ?_ fun hfull => absurd hfull hcrowded).2 hshown
  intro i hi hnot
  exact absurd hi hnot

theorem mem_eraseIdx_or {kept : List Nat} {p i : Nat} (hi : i ∈ kept) (hnot : i ∉ kept.eraseIdx p) :
    kept[p]? = some i := by
  obtain ⟨q, hq, rfl⟩ := List.getElem_of_mem hi
  by_cases hqp : q = p
  · rw [← hqp]
    exact List.getElem?_eq_getElem hq
  · exact absurd (List.mem_eraseIdx_iff_getElem.2 ⟨q, hq, hqp, rfl⟩) hnot

theorem Painted.replaced (h : Painted pushes stack kept) (hfilled : stack.Filled xs) {p : Nat}
    (hp : p < xs.length) (hlow : xs[p].lowPriority = true)
    (hnext : stack'.Filled (xs.eraseIdx p ++ [layer])) :
    Painted (pushes ++ [layer]) stack' (kept.eraseIdx p ++ [pushes.length]) := by
  have hshown := h.shown
  rw [filled_occupied hfilled] at hshown
  have hcrowded : ¬stack.Crowded := by
    intro hall
    obtain ⟨o, ho, hhigh⟩ := hall (some xs[p]) (List.mem_of_getElem?
      ((filled_getElem? hfilled p xs[p]).2 (List.getElem?_eq_getElem hp)))
    rw [← Option.some.inj ho, hlow] at hhigh
    cases hhigh
  refine (h.push (h.ordered.sublist (List.eraseIdx_sublist kept p))
    (fun _ hi => (List.eraseIdx_sublist kept p).subset hi) ?_ ?_ fun hfull => absurd hfull hcrowded).2
    (filled_occupied hnext)
  · rw [← List.eraseIdx_map, hshown, List.eraseIdx_map]
  · intro i hi hnot old hold
    have hat : (kept.map (pushes[·]?))[p]? = some (some old) := by
      rw [List.getElem?_map, mem_eraseIdx_or hi hnot, Option.map_some, hold]
    rw [hshown, List.getElem?_map, List.getElem?_eq_getElem hp] at hat
    simp at hat
    exact hat ▸ hlow

theorem filled_excludes (h : stack.Filled xs) :
    stack.Excludes layer ↔ layer.isScaled = true ∧ ∃ o ∈ xs, o.isScaled = true := by
  rw [Excludes, filled_occupied h]

/-- Whether the stack is filled or holds one layer alone, a scaled one is kept out. -/
theorem Good.push_excluded (h : Good pushes stack) (hempty : layer.isEmpty = false)
    (hexcluded : stack.Excludes layer) : (stack.push layer).layers = stack.layers := by
  rcases h.shape with ⟨xs, hfilled⟩ | ⟨⟨only, halone⟩, -⟩
  · obtain ⟨hlayer, hscaled⟩ := (filled_excludes hfilled).1 hexcluded
    refine push_skipped hempty ?_
    rw [hfilled]
    exact search_skipped hlayer hscaled
  · exact push_alone_scaled halone hempty hexcluded.1

theorem good_default : Good [] default := by
  refine ⟨⟨⟨[], .nil, rfl, ?_⟩, by decide, ?_⟩, fun _ layer hlayer => ?_, .inl ⟨[], rfl⟩⟩
  · intro i layer hlayer
    simp at hlayer
  · intro i layer hlayer
    simp [default, List.getElem?_replicate] at hlayer
  · simp at hlayer

theorem Good.same (h : Good pushes (pushAll pushes))
    (hsame : stack'.layers = (pushAll pushes).layers)
    (hexcused : layer.isEmpty = true ∨ (pushAll pushes).Excludes layer ∨
      (pushAll pushes).Crowded) : Good (pushes ++ [layer]) stack' := by
  refine ⟨h.composited.same hsame hexcused, ?_, ?_⟩
  · intro hbare
    rw [occupied_congr hsame] at hbare
    have hempty : layer.isEmpty = true := by
      rcases hexcused with hempty | ⟨-, o, ho, -⟩ | hcrowded
      · exact hempty
      · simp [hbare] at ho
      · exact absurd hbare (occupied_of_crowded hcrowded)
    intro o ho
    rcases List.mem_append.1 ho with hold | hnew
    · exact h.bare hbare o hold
    · rw [List.mem_singleton.1 hnew]
      exact hempty
  · rcases h.shape with ⟨xs, hfilled⟩ | ⟨⟨only, halone⟩, hall⟩
    · exact .inl ⟨xs, hsame.trans hfilled⟩
    · refine .inr ⟨⟨only, hsame.trans halone.1, halone.2⟩, ?_⟩
      have hcrowded : ¬(pushAll pushes).Crowded := @not_crowded_of_free _ 0 (by simp [halone.1])
      intro o ho
      rcases List.mem_append.1 ho with hold | hnew
      · exact hall o hold
      · rw [List.mem_singleton.1 hnew]
        exact hexcused.imp_right fun hor => (hor.resolve_right hcrowded).1

theorem Good.onTop (h : Good pushes stack) (hfilled : stack.Filled xs)
    (hempty : layer.isEmpty = false) (hroom : xs.length < maxLayers)
    (hscaled : layer.isScaled = true → ∀ o ∈ xs, o.isScaled = false)
    (hslot : xs.length = 1 ∨ xs.length = 2 ∨ layer.isScaled = false) :
    Good (pushes ++ [layer]) (stack.push layer) := by
  have hnext := push_on_top hfilled hempty hroom hscaled hslot
  obtain ⟨⟨kept, hpainted⟩, hlimits⟩ := (filled_limits hfilled).1 h.composited
  have hfree : ¬stack.Crowded := by
    refine @not_crowded_of_free _ xs.length ?_
    have hopen : xs.length - (xs.map some).length < maxLayers - xs.length := by
      rw [List.length_map]
      omega
    rw [hfilled, List.getElem?_append_right (by simp), List.getElem?_replicate, if_pos hopen]
  refine ⟨(filled_limits hnext).2 ⟨⟨_, hpainted.onTop hfree ?_⟩, hlimits.append ?_⟩, ?_,
    .inl ⟨_, hnext⟩⟩
  · rw [filled_occupied hnext, filled_occupied hfilled]
  · intro hlayer
    refine ⟨hscaled hlayer, ?_⟩
    rcases hslot with hone | htwo | hunscaled
    · exact .inl hone
    · exact .inr htwo
    · rw [hunscaled] at hlayer
      cases hlayer
  · simp [filled_occupied hnext]

theorem Good.full (h : Good pushes (pushAll pushes)) (hfilled : (pushAll pushes).Filled xs)
    (hempty : layer.isEmpty = false) (hfull : xs.length = maxLayers)
    (hunscaled : layer.isScaled = false) (hbase : ¬(pushAll pushes).ScaledOverLow) :
    Good (pushes ++ [layer]) ((pushAll pushes).push layer) := by
  have hscaled : layer.isScaled = true → ∀ o ∈ xs, o.isScaled = false := by
    intro hlayer
    rw [hunscaled] at hlayer
    cases hlayer
  obtain ⟨⟨kept, hpainted⟩, hlimits⟩ := (filled_limits hfilled).1 h.composited
  rcases push_full hfilled hfull hempty hscaled with ⟨p, hp, hlow, -, hnext⟩ | ⟨hcrowded, hsame⟩
  · refine ⟨(filled_limits hnext).2 ⟨⟨_, hpainted.replaced hfilled hp hlow hnext⟩,
      (hlimits.eraseIdx ?_).append ?_⟩, ?_, .inl ⟨_, hnext⟩⟩
    · rintro rfl o ho
      cases hlit : o.isScaled with
      | false => rfl
      | true =>
        refine absurd ⟨xs[0], o, ?_, hlow, ?_, hlit⟩ hbase
        · exact (filled_getElem? hfilled 0 _).2 (List.getElem?_eq_getElem hp)
        · exact (filled_getElem? hfilled 1 o).2 ho
    · intro hlayer
      rw [hunscaled] at hlayer
      cases hlayer
    · simp [filled_occupied hnext]
  · exact h.same hsame (.inr (.inr hcrowded))

theorem filled_full (h : stack.Filled xs) : none ∉ stack.layers ↔ xs.length = maxLayers := by
  have hle := filled_length h
  rw [h]
  simp
  omega

theorem Good.first_scaled (h : Good pushes stack) (hfilled : stack.Filled [])
    (hempty : layer.isEmpty = false) (hlayer : layer.isScaled = true) :
    Good (pushes ++ [layer]) (stack.push layer) := by
  have hnext := push_first_scaled hfilled hempty hlayer
  have hbare := h.bare (filled_occupied hfilled)
  have hfree : ¬stack.Crowded := @not_crowded_of_free _ 0 (congrArg (·[0]?) hfilled)
  obtain ⟨⟨kept, hpainted⟩, -, -⟩ := h.composited
  have hoccupied : (stack.push layer).occupied = [layer] := by simp [occupied, hnext.1]
  refine ⟨⟨⟨_, hpainted.onTop hfree ?_⟩, ?_, ?_⟩, ?_, .inr ⟨⟨layer, hnext⟩, ?_⟩⟩
  · rw [hoccupied, filled_occupied hfilled]
    rfl
  · simp [hoccupied, hlayer]
  · intro i o ho _
    rw [hnext.1] at ho
    rcases i with _ | _ | _ | _ | i <;> simp at ho ⊢
  · simp [hoccupied]
  · intro o ho
    rcases List.mem_append.1 ho with hold | hnew
    · exact .inl (hbare o hold)
    · rw [List.mem_singleton.1 hnew]
      exact .inr hlayer

theorem Good.push_scaled (h : Good pushes (pushAll pushes)) (hfilled : (pushAll pushes).Filled xs)
    (hempty : layer.isEmpty = false) (hlayer : layer.isScaled = true)
    (hexcluded : ¬(pushAll pushes).Excludes layer)
    (hroom : (pushAll pushes).layers[1]? = some none ∨ (pushAll pushes).layers[2]? = some none ∨
      (pushAll pushes).Crowded) :
    Good (pushes ++ [layer]) ((pushAll pushes).push layer) := by
  have hscaled : ∀ o ∈ xs, o.isScaled = false := by
    intro o ho
    rw [filled_excludes hfilled] at hexcluded
    simpa using fun hlit => hexcluded ⟨hlayer, o, ho, hlit⟩
  have htaken : ∀ i, i < xs.length → (pushAll pushes).layers[i]? ≠ some none := by
    intro i hi hfree
    rw [(filled_getElem? hfilled i xs[i]).2 (List.getElem?_eq_getElem hi)] at hfree
    cases hfree
  by_cases hcrowded : (pushAll pushes).Crowded
  · have hfull := (filled_full hfilled).1 (none_not_mem_of_crowded hcrowded)
    rcases push_full hfilled hfull hempty fun _ => hscaled with
      ⟨p, hp, hlow, -, -⟩ | ⟨-, hsame⟩
    · obtain ⟨o, ho, hhigh⟩ := hcrowded (some xs[p]) (List.mem_of_getElem?
        ((filled_getElem? hfilled p xs[p]).2 (List.getElem?_eq_getElem hp)))
      rw [← Option.some.inj ho, hlow] at hhigh
      cases hhigh
    · exact h.same hsame (.inr (.inr hcrowded))
  · have hfew : xs.length ≤ 2 := by
      refine Nat.le_of_not_lt fun hmany => ?_
      rcases hroom with hone | htwo | hfull
      · exact htaken 1 (by omega) hone
      · exact htaken 2 hmany htwo
      · exact hcrowded hfull
    rcases Nat.eq_zero_or_pos xs.length with hzero | hpos
    · rw [List.length_eq_zero_iff.1 hzero] at hfilled
      exact h.first_scaled hfilled hempty hlayer
    · refine h.onTop hfilled hempty (Nat.lt_of_le_of_lt hfew (by decide)) (fun _ => hscaled) ?_
      omega

/-- A push that finds what it needs keeps what is known. -/
theorem Good.push (h : Good pushes (pushAll pushes)) (htakes : (pushAll pushes).Takes layer) :
    Good (pushes ++ [layer]) ((pushAll pushes).push layer) := by
  cases hempty : layer.isEmpty with
  | true => exact h.same (push_empty hempty) (.inl hempty)
  | false =>
    cases htakes with
    | empty hnot =>
      rw [hempty] at hnot
      cases hnot
    | excluded hexcluded =>
      exact h.same (h.push_excluded hempty hexcluded) (.inr (.inl hexcluded))
    | unscaled hunscaled hgap hbase =>
      rcases h.shape with ⟨xs, hfilled⟩ | ⟨⟨only, halone⟩, -⟩
      · rcases Nat.lt_or_eq_of_le (filled_length hfilled) with hroom | hfull
        · refine h.onTop hfilled hempty hroom ?_ (.inr (.inr hunscaled))
          intro hlayer
          rw [hunscaled] at hlayer
          cases hlayer
        · exact h.full hfilled hempty hfull hunscaled (hbase ((filled_full hfilled).2 hfull))
      · refine absurd ⟨0, 1, only, Nat.zero_lt_one, ?_, ?_⟩ hgap
        · simp [halone.1]
        · simp [halone.1]
    | scaled hscaled hroom =>
      by_cases hexcluded : (pushAll pushes).Excludes layer
      · exact h.same (h.push_excluded hempty hexcluded) (.inr (.inl hexcluded))
      · rcases h.shape with ⟨xs, hfilled⟩ | ⟨⟨only, halone⟩, -⟩
        · exact h.push_scaled hfilled hempty hscaled hexcluded hroom
        · refine absurd ⟨hscaled, only, ?_, halone.2⟩ hexcluded
          simp [occupied, halone.1]

theorem not_gap_of_filled (h : stack.Filled xs) : ¬stack.Gap := by
  rintro ⟨i, j, o, hij, hfree, ho⟩
  have hj := (List.getElem?_eq_some_iff.1 ((filled_getElem? h j o).1 ho)).1
  have hi : i < xs.length := Nat.lt_trans hij hj
  rw [(filled_getElem? h i xs[i]).2 (List.getElem?_eq_getElem hi)] at hfree
  cases hfree

theorem room_of_composited (hfilled : stack.Filled xs) (hempty : layer.isEmpty = false)
    (hlayer : layer.isScaled = true) (hexcluded : ¬stack.Excludes layer)
    (hnext : Composited (pushes ++ [layer]) (stack.push layer)) :
    stack.layers[1]? = some none ∨ stack.layers[2]? = some none ∨ stack.Crowded := by
  have hscaled : ∀ o ∈ xs, o.isScaled = false := by
    intro o ho
    rw [filled_excludes hfilled] at hexcluded
    simpa using fun hlit => hexcluded ⟨hlayer, o, ho, hlit⟩
  have hfree : ∀ i, xs.length ≤ i → i < maxLayers → stack.layers[i]? = some none := by
    intro i hi hlt
    rw [hfilled, List.getElem?_append_right (by simpa using hi), List.getElem?_replicate]
    simp
    omega
  rcases Nat.lt_or_ge 1 xs.length with htwo | hone
  · rcases Nat.lt_or_ge 2 xs.length with hthree | htwo
    · rcases push_scaled_noRoom hfilled hthree hempty hlayer hscaled with htop | hcrowded
      · have hslot := hnext.place 3 layer htop hlayer
        simp at hslot
      · exact .inr (.inr hcrowded)
    · exact .inr (.inl (hfree 2 htwo (by decide)))
  · exact .inl (hfree 1 hone (by decide))

theorem base_of_composited (hfilled : stack.Filled xs) (hempty : layer.isEmpty = false)
    (hlayer : layer.isScaled = false) (hfull : xs.length = maxLayers)
    (hbase : stack.ScaledOverLow)
    (hnext : Composited (pushes ++ [layer]) (stack.push layer)) : False := by
  obtain ⟨base, above, hzero, hlow, hone, hlit⟩ := hbase
  have hunscaled : layer.isScaled = true → ∀ o ∈ xs, o.isScaled = false := by
    intro hscaled
    rw [hlayer] at hscaled
    cases hscaled
  rcases push_full hfilled hfull hempty hunscaled with ⟨p, hp, -, hbefore, hpushed⟩ | ⟨hcrowded, -⟩
  · have hbottom : p = 0 := by
      refine Nat.eq_zero_of_not_pos fun hpos => ?_
      have hhigh := hbefore 0 hpos
      obtain ⟨_, hx⟩ := List.getElem?_eq_some_iff.1 ((filled_getElem? hfilled 0 base).1 hzero)
      rw [hx, hlow] at hhigh
      cases hhigh
    have hmoved : (xs.eraseIdx p ++ [layer])[0]? = some above := by
      have hx := (filled_getElem? hfilled 1 above).1 hone
      have hlen : 0 < (xs.eraseIdx p).length := by
        rw [List.length_eraseIdx_of_lt hp, hfull]
        decide
      rw [List.getElem?_append_left hlen, List.getElem?_eraseIdx, hbottom]
      simpa using hx
    have hslot := hnext.place 0 above ((filled_getElem? hpushed 0 above).2 hmoved) hlit
    simp at hslot
  · obtain ⟨o, ho, hhigh⟩ := hcrowded (some base) (List.mem_of_getElem? hzero)
    rw [← Option.some.inj ho, hlow] at hhigh
    cases hhigh

/-- A push that does not find it breaks the order or a limit. -/
theorem Good.takes (h : Good pushes (pushAll pushes))
    (hnext : Composited (pushes ++ [layer]) ((pushAll pushes).push layer)) :
    (pushAll pushes).Takes layer := by
  cases hempty : layer.isEmpty with
  | true => exact .empty hempty
  | false =>
    cases hlayer : layer.isScaled with
    | true =>
      by_cases hexcluded : (pushAll pushes).Excludes layer
      · exact .excluded hexcluded
      · rcases h.shape with ⟨xs, hfilled⟩ | ⟨⟨only, halone⟩, -⟩
        · exact .scaled hlayer (room_of_composited hfilled hempty hlayer hexcluded hnext)
        · refine absurd ⟨hlayer, only, ?_, halone.2⟩ hexcluded
          simp [occupied, halone.1]
    | false =>
      rcases h.shape with ⟨xs, hfilled⟩ | ⟨⟨only, halone⟩, hall⟩
      · refine .unscaled hlayer (not_gap_of_filled hfilled) ?_
        intro hfull hbase
        exact base_of_composited hfilled hempty hlayer ((filled_full hfilled).1 hfull) hbase hnext
      · obtain ⟨kept, hpainted⟩ := hnext.painted
        have hsublist := hpainted.sublist
        rw [occupied, push_alone_unscaled halone hempty hlayer] at hsublist
        obtain ⟨below, top, hsplit, hbelow, htop⟩ := List.sublist_append_iff.1 hsublist
        -- The layer below the scaled one would have to be an earlier push.
        cases below with
        | nil =>
          have hlen := htop.length_le
          rw [← List.nil_append top, ← hsplit] at hlen
          simp at hlen
        | cons o below =>
          have hold : layer ∈ pushes := by
            obtain ⟨rfl, -⟩ : layer = o ∧ _ := by simpa using hsplit
            exact hbelow.subset List.mem_cons_self
          rcases hall layer hold with hnot | hnot
          · simp [hempty] at hnot
          · simp [hlayer] at hnot

end Step

/-! ## 4. Sequences of pushes -/

theorem pushAll_append (pushes : List Layer) (layer : Layer) :
    pushAll (pushes ++ [layer]) = (pushAll pushes).push layer := by
  simp [pushAll]

/-- Every push of a sequence finds what it needs. -/
def AllTaken (pushes : List Layer) : Prop :=
  ∀ (n : Nat) (layer : Layer), pushes[n]? = some layer → (pushAll (pushes.take n)).Takes layer

theorem allTaken_append {pushes : List Layer} {layer : Layer} :
    AllTaken (pushes ++ [layer]) ↔ AllTaken pushes ∧ (pushAll pushes).Takes layer := by
  constructor
  · intro h
    refine ⟨fun n o ho => ?_, ?_⟩
    · have hlt := (List.getElem?_eq_some_iff.1 ho).1
      have htakes := h n o (by rw [List.getElem?_append_left hlt, ho])
      rwa [List.take_append_of_le_length (Nat.le_of_lt hlt)] at htakes
    · have htakes := h pushes.length layer (by simp)
      rwa [List.take_left] at htakes
  · rintro ⟨hold, hnew⟩ n o ho
    rcases Nat.lt_trichotomy n pushes.length with hlt | rfl | hgt
    · rw [List.getElem?_append_left hlt] at ho
      rw [List.take_append_of_le_length (Nat.le_of_lt hlt)]
      exact hold n o ho
    · rw [List.getElem?_concat_length] at ho
      rw [List.take_left]
      exact Option.some.inj ho ▸ hnew
    · rw [List.getElem?_eq_none (by simpa using Nat.succ_le_of_lt hgt)] at ho
      cases ho

theorem good_of_allTaken {pushes : List Layer} (h : AllTaken pushes) :
    Good pushes (pushAll pushes) := by
  induction pushes using List.reverseRecOn with
  | nil => exact good_default
  | append_singleton pushes layer ih =>
    obtain ⟨hold, hnew⟩ := allTaken_append.1 h
    rw [pushAll_append]
    exact (ih hold).push hnew

/-- In every state of a sequence of pushes the layers keep their paint order and the limits of the
display, and none is missing without an excuse, if and only if every push finds what it needs. -/
theorem layers_composited_iff (pushes : List Layer) :
    (∀ shorter, shorter <+: pushes → Composited shorter (pushAll shorter)) ↔ AllTaken pushes := by
  constructor
  · intro h
    induction pushes using List.reverseRecOn with
    | nil =>
      intro n layer hlayer
      simp at hlayer
    | append_singleton pushes layer ih =>
      have hold := ih fun shorter hshorter => h shorter (hshorter.trans (List.prefix_append _ _))
      refine allTaken_append.2 ⟨hold, (good_of_allTaken hold).takes ?_⟩
      rw [← pushAll_append]
      exact h _ (List.prefix_refl _)
  · rintro h shorter ⟨rest, rfl⟩
    refine (good_of_allTaken ?_).composited
    intro n layer hlayer
    have hlt := (List.getElem?_eq_some_iff.1 hlayer).1
    have htakes := h n layer (by rw [List.getElem?_append_left hlt, hlayer])
    rwa [List.take_append_of_le_length (Nat.le_of_lt hlt)] at htakes

/-- A scaled layer that comes first goes into slot 1, and the next one below it. -/
theorem scaled_layer_is_overpainted :
    ¬Composited [(Layer.newSingleColor 0 0 0 480 800).withDstSize 240 400,
        Layer.newSingleColor 255 255 255 480 800]
      (pushAll [(Layer.newSingleColor 0 0 0 480 800).withDstSize 240 400,
        Layer.newSingleColor 255 255 255 480 800]) := by
  rintro ⟨⟨kept, hpainted⟩, -, -⟩
  exact absurd hpainted.sublist (by decide)

end LayerStack

end Gui
