import Mathlib

/-!
# Maps and sets with their keys in order

A finite map is the list of its entries by ascending key, so it has one entry for each key
and is read in the order of the keys.
-/

/-- `BTreeMap` -/
structure SortedMap (K V : Type) [LT K] where
  entries : List (K × V)
  sorted : entries.Pairwise fun a b => a.1 < b.1

/-- `BTreeSet` -/
structure SortedSet (K : Type) [LT K] where
  elements : List K
  sorted : elements.Pairwise (· < ·)

namespace SortedMap

variable {K V : Type} [LT K]

def empty : SortedMap K V := ⟨[], List.Pairwise.nil⟩

def keys (m : SortedMap K V) : List K := m.entries.map Prod.fst

theorem mem_keys {m : SortedMap K V} {k : K} : k ∈ m.keys ↔ ∃ v, (k, v) ∈ m.entries := by
  constructor
  · intro h
    obtain ⟨⟨k', v⟩, hmem, rfl⟩ := List.mem_map.1 h
    exact ⟨v, hmem⟩
  · rintro ⟨v, hmem⟩
    exact List.mem_map.2 ⟨(k, v), hmem, rfl⟩

section Lookup

variable [DecidableEq K]

def get? (m : SortedMap K V) (k : K) : Option V := m.entries.lookup k

theorem mem_of_get? {m : SortedMap K V} {k : K} {v : V} (h : m.get? k = some v) :
    (k, v) ∈ m.entries := by
  obtain ⟨l₁, l₂, heq, -⟩ := List.lookup_eq_some_iff.1 h
  rw [heq]
  exact List.mem_append_right _ List.mem_cons_self

theorem get?_eq_none_iff {m : SortedMap K V} {k : K} : m.get? k = none ↔ k ∉ m.keys := by
  unfold get?
  rw [List.lookup_eq_none_iff, mem_keys]
  constructor
  · rintro h ⟨v, hmem⟩
    exact absurd (h _ hmem) (by simp)
  · intro h p hp
    by_contra hk
    obtain rfl : k = p.1 := by simpa using hk
    exact h ⟨p.2, hp⟩

variable [Std.Irrefl (α := K) (· < ·)]

omit [DecidableEq K] in
theorem nodup_keys (m : SortedMap K V) : m.keys.Nodup := by
  refine (List.pairwise_map.2 m.sorted).imp ?_
  rintro a b hlt rfl
  exact Std.Irrefl.irrefl a hlt

omit [DecidableEq K] in
/-- A key has at most one entry. -/
theorem eq_of_mem {m : SortedMap K V} {k : K} {v w : V} (hv : (k, v) ∈ m.entries)
    (hw : (k, w) ∈ m.entries) : v = w :=
  congrArg Prod.snd (List.inj_on_of_nodup_map m.nodup_keys hv hw rfl)

theorem get?_eq_some_iff {m : SortedMap K V} {k : K} {v : V} :
    m.get? k = some v ↔ (k, v) ∈ m.entries := by
  refine ⟨mem_of_get?, fun hv => ?_⟩
  cases h : m.get? k with
  | none => exact absurd (mem_keys.2 ⟨v, hv⟩) (get?_eq_none_iff.1 h)
  | some w => rw [eq_of_mem (mem_of_get? h) hv]

end Lookup

end SortedMap

/-! ## Maps that change -/

namespace SortedMap

variable {K V : Type} [LinearOrder K]

/-- A key that has an entry gets a new one in its place. -/
def insertEntry (k : K) (v : V) : List (K × V) → List (K × V)
  | [] => [(k, v)]
  | e :: rest =>
    if k < e.1 then (k, v) :: e :: rest
    else if k = e.1 then (k, v) :: rest
    else e :: insertEntry k v rest

theorem mem_insertEntry {k : K} {v : V} {e : K × V} {l : List (K × V)}
    (h : e ∈ insertEntry k v l) : e = (k, v) ∨ e ∈ l := by
  induction l with
  | nil => exact .inl (List.mem_singleton.1 h)
  | cons a l ih =>
    unfold insertEntry at h
    split at h
    · exact List.mem_cons.1 h
    · split at h
      · exact (List.mem_cons.1 h).imp_right (List.mem_cons_of_mem _)
      · rcases List.mem_cons.1 h with rfl | hrest
        · exact .inr List.mem_cons_self
        · exact (ih hrest).imp_right (List.mem_cons_of_mem _)

theorem insertEntry_sorted {k : K} {v : V} {l : List (K × V)}
    (h : l.Pairwise fun a b => a.1 < b.1) :
    (insertEntry k v l).Pairwise fun a b => a.1 < b.1 := by
  induction l with
  | nil => exact List.pairwise_singleton _ _
  | cons a l ih =>
    obtain ⟨hfirst, hrest⟩ := List.pairwise_cons.1 h
    unfold insertEntry
    split
    next hlt =>
      refine List.pairwise_cons.2 ⟨fun e he => ?_, h⟩
      rcases List.mem_cons.1 he with rfl | hmem
      · exact hlt
      · exact lt_trans hlt (hfirst e hmem)
    next hnlt =>
      split
      next heq => exact List.pairwise_cons.2 ⟨fun e he => heq ▸ hfirst e he, hrest⟩
      next hne =>
        refine List.pairwise_cons.2 ⟨fun e he => ?_, ih hrest⟩
        rcases mem_insertEntry he with rfl | hmem
        · exact lt_of_le_of_ne (not_lt.1 hnlt) (Ne.symm hne)
        · exact hfirst e hmem

theorem lookup_cons_of_ne {k b : K} {w : V} {l : List (K × V)} (h : k ≠ b) :
    ((b, w) :: l).lookup k = l.lookup k := by
  rw [List.lookup_cons, beq_false_of_ne h]

theorem lookup_insertEntry {k k' : K} {v : V} {l : List (K × V)} :
    (insertEntry k v l).lookup k' = if k' = k then some v else l.lookup k' := by
  induction l with
  | nil =>
    split
    next heq => rw [heq, insertEntry, List.lookup_cons_self]
    next hne => rw [insertEntry, lookup_cons_of_ne hne]
  | cons a l ih =>
    obtain ⟨b, w⟩ := a
    unfold insertEntry
    split
    next =>
      split
      next heq => rw [heq, List.lookup_cons_self]
      next hne => rw [lookup_cons_of_ne hne]
    next =>
      split
      next heq =>
        obtain rfl : k = b := heq
        split
        next heq => rw [heq, List.lookup_cons_self]
        next hne => rw [lookup_cons_of_ne hne, lookup_cons_of_ne hne]
      next hne =>
        by_cases hb : k' = b
        · rw [if_neg fun heq => hne (heq.symm.trans hb), hb, List.lookup_cons_self,
            List.lookup_cons_self]
        · rw [lookup_cons_of_ne hb, lookup_cons_of_ne hb, ih]

def insert (m : SortedMap K V) (k : K) (v : V) : SortedMap K V :=
  ⟨insertEntry k v m.entries, insertEntry_sorted m.sorted⟩

/-- `remove` -/
def erase (m : SortedMap K V) (k : K) : SortedMap K V :=
  ⟨m.entries.filter fun e => e.1 ≠ k, m.sorted.filter _⟩

@[simp] theorem get?_empty (k : K) : (empty : SortedMap K V).get? k = none := rfl

theorem get?_insert (m : SortedMap K V) (k k' : K) (v : V) :
    (m.insert k v).get? k' = if k' = k then some v else m.get? k' :=
  lookup_insertEntry

theorem get?_erase (m : SortedMap K V) (k k' : K) :
    (m.erase k).get? k' = if k' = k then none else m.get? k' := by
  split
  next heq =>
    subst heq
    refine get?_eq_none_iff.2 fun hmem => ?_
    obtain ⟨v, hv⟩ := mem_keys.1 hmem
    exact of_decide_eq_true (List.mem_filter.1 hv).2 rfl
  next hne =>
    cases hget : m.get? k' with
    | none =>
      refine get?_eq_none_iff.2 fun hmem => ?_
      obtain ⟨v, hv⟩ := mem_keys.1 hmem
      exact get?_eq_none_iff.1 hget (mem_keys.2 ⟨v, (List.mem_filter.1 hv).1⟩)
    | some v =>
      exact get?_eq_some_iff.2 (List.mem_filter.2 ⟨get?_eq_some_iff.1 hget, decide_eq_true hne⟩)

/-- `retain` -/
def retain (m : SortedMap K V) (p : V → Bool) : SortedMap K V :=
  ⟨m.entries.filter fun e => p e.2, m.sorted.filter _⟩

/-- `pop_first` as long as the first key satisfies `p`. -/
def dropWhile (m : SortedMap K V) (p : K → Bool) : SortedMap K V :=
  ⟨m.entries.dropWhile fun e => p e.1, m.sorted.sublist (List.dropWhile_sublist _)⟩

theorem insertEntry_perm {k : K} {v : V} {l : List (K × V)} (h : k ∉ l.map Prod.fst) :
    (insertEntry k v l).Perm ((k, v) :: l) := by
  induction l with
  | nil => exact .refl _
  | cons a l ih =>
    rw [List.map_cons, List.mem_cons, not_or] at h
    unfold insertEntry
    split
    next => exact .refl _
    next =>
      rw [if_neg h.1]
      exact ((ih h.2).cons a).trans (.swap _ _ _)

theorem insert_perm {m : SortedMap K V} {k : K} (v : V) (h : k ∉ m.keys) :
    (m.insert k v).entries.Perm ((k, v) :: m.entries) :=
  insertEntry_perm h

theorem erase_perm {m : SortedMap K V} {k : K} {v : V} (h : (k, v) ∈ m.entries) :
    m.entries.Perm ((k, v) :: (m.erase k).entries) := by
  have hentry : (m.entries.filter fun e => !decide (e.1 ≠ k)) = [(k, v)] := by
    refine List.perm_singleton.1 ((List.perm_ext_iff_of_nodup
      ((List.Nodup.of_map _ m.nodup_keys).filter _) (List.nodup_singleton _)).2 fun e => ?_)
    rw [List.mem_filter, List.mem_singleton]
    constructor
    · rintro ⟨hmem, hkey⟩
      obtain ⟨k', w⟩ := e
      obtain rfl : k' = k := by simpa using hkey
      rw [m.eq_of_mem hmem h]
    · rintro rfl
      exact ⟨h, by simp⟩
  have hsplit := List.filter_append_perm (fun e : K × V => decide (e.1 ≠ k)) m.entries
  rw [hentry] at hsplit
  exact hsplit.symm.trans List.perm_append_comm

/-- Where the keys go up, the first key that fails `p` bounds those that stay. -/
theorem not_of_mem_dropWhile {m : SortedMap K V} {p : K → Bool}
    (hp : ∀ k k', k ≤ k' → p k' = true → p k = true) {e : K × V}
    (h : e ∈ (m.dropWhile p).entries) : p e.1 = false := by
  obtain ⟨l, hl⟩ := m
  unfold dropWhile at h
  dsimp only at h
  induction l with
  | nil => cases h
  | cons a l ih =>
    obtain ⟨hfirst, hrest⟩ := List.pairwise_cons.1 hl
    rw [List.dropWhile_cons] at h
    split at h
    next => exact ih hrest h
    next hfails =>
      rcases List.mem_cons.1 h with rfl | hmem
      · exact Bool.eq_false_iff.2 hfails
      · exact Bool.eq_false_iff.2 fun htrue => hfails (hp _ _ (le_of_lt (hfirst e hmem)) htrue)

theorem mem_insert {m : SortedMap K V} {k : K} {v : V} {e : K × V} :
    e ∈ (m.insert k v).entries ↔ e = (k, v) ∨ e ∈ m.entries ∧ e.1 ≠ k := by
  obtain ⟨k', w⟩ := e
  rw [← get?_eq_some_iff, get?_insert]
  by_cases hk : k' = k
  · rw [if_pos hk, hk]
    simp [eq_comm]
  · rw [if_neg hk, get?_eq_some_iff]
    simp [hk]

theorem mem_erase {m : SortedMap K V} {k : K} {e : K × V} :
    e ∈ (m.erase k).entries ↔ e ∈ m.entries ∧ e.1 ≠ k := by
  unfold erase
  simp [List.mem_filter]

/-- `range(..=k).next_back()` -/
def lastUpTo (m : SortedMap K V) (k : K) : Option (K × V) :=
  (m.entries.filter fun e => e.1 ≤ k).getLast?

/-- `range(k..).next()` -/
def firstFrom (m : SortedMap K V) (k : K) : Option (K × V) := m.entries.find? fun e => k ≤ e.1

theorem of_lastUpTo {m : SortedMap K V} {k : K} {e : K × V} (h : m.lastUpTo k = some e) :
    e ∈ m.entries ∧ e.1 ≤ k ∧ ∀ e' ∈ m.entries, e'.1 ≤ k → e'.1 ≤ e.1 := by
  obtain ⟨before, heq⟩ := List.getLast?_eq_some_iff.1 h
  have hmem : ∀ e', e' ∈ before ++ [e] ↔ e' ∈ m.entries ∧ e'.1 ≤ k := by
    intro e'
    rw [← heq, List.mem_filter, decide_eq_true_iff]
  have hsorted := heq ▸ m.sorted.filter fun e : K × V => decide (e.1 ≤ k)
  obtain ⟨-, -, hlast⟩ := List.pairwise_append.1 hsorted
  obtain ⟨hentry, hle⟩ := (hmem e).1 List.mem_concat_self
  refine ⟨hentry, hle, fun e' hentry' hle' => ?_⟩
  rcases List.mem_append.1 ((hmem e').2 ⟨hentry', hle'⟩) with hbefore | hself
  · exact le_of_lt (hlast e' hbefore e (List.mem_singleton_self e))
  · rw [List.mem_singleton.1 hself]

theorem exists_lastUpTo {m : SortedMap K V} {k : K} {e : K × V} (h : e ∈ m.entries)
    (hle : e.1 ≤ k) : ∃ e', m.lastUpTo k = some e' := by
  refine Option.isSome_iff_exists.1 ?_
  rw [lastUpTo, List.getLast?_isSome]
  exact List.ne_nil_of_mem (List.mem_filter.2 ⟨h, decide_eq_true hle⟩)

theorem of_firstFrom {m : SortedMap K V} {k : K} {e : K × V} (h : m.firstFrom k = some e) :
    e ∈ m.entries ∧ k ≤ e.1 ∧ ∀ e' ∈ m.entries, k ≤ e'.1 → e.1 ≤ e'.1 := by
  obtain ⟨hle, before, after, heq, hbefore⟩ := List.find?_eq_some_iff_append.1 h
  refine ⟨List.mem_of_find?_eq_some h, of_decide_eq_true hle, fun e' hmem hle' => ?_⟩
  have hsorted := heq ▸ m.sorted
  obtain ⟨-, hafter, -⟩ := List.pairwise_append.1 hsorted
  rw [heq] at hmem
  rcases List.mem_append.1 hmem with hearly | hlate
  · have hfails := hbefore e' hearly
    simp [hle'] at hfails
  · rcases List.mem_cons.1 hlate with rfl | hlate
    · exact le_refl _
    · exact le_of_lt ((List.pairwise_cons.1 hafter).1 e' hlate)

theorem firstFrom_eq_none {m : SortedMap K V} {k : K} (h : m.firstFrom k = none) :
    ∀ e ∈ m.entries, e.1 < k := by
  intro e hmem
  have hfails := List.find?_eq_none.1 h e hmem
  simpa using hfails

/-- A map is known by its lookups. -/
theorem ext_get? {m m' : SortedMap K V} (h : ∀ k, m.get? k = m'.get? k) : m = m' := by
  obtain ⟨l, hl⟩ := m
  obtain ⟨l', hl'⟩ := m'
  have hmem : ∀ e, e ∈ l ↔ e ∈ l' := by
    intro e
    rw [← get?_eq_some_iff (m := ⟨l, hl⟩), ← get?_eq_some_iff (m := ⟨l', hl'⟩), h]
  have hnodup : ∀ {l : List (K × V)}, l.Pairwise (fun a b => a.1 < b.1) → l.Nodup :=
    fun hsorted => hsorted.imp fun hlt heq => absurd (heq ▸ hlt) (lt_irrefl _)
  congr
  refine List.Perm.eq_of_pairwise ?_ hl hl' ((List.perm_ext_iff_of_nodup (hnodup hl) (hnodup hl')).2 hmem)
  intro a b _ _ hab hba
  exact absurd hab (lt_asymm hba)

end SortedMap
