import KeyOS.Lib.SortedMap

/-!
# Heaviest chains of intervals

A chain takes weighted intervals in the order in which they are listed, each of them beginning no
earlier than the one before it ends. The heaviest chains are found an interval at a time: a
staircase holds, for every point, the weight of the heaviest chain that has ended by then, and
under each weight a tag that leads to the chain.
-/

namespace WeightedChains

/-! ## 1. Chains -/

/-- Where an interval begins and ends, and what it weighs. -/
structure Intervals (α K : Type) [LE K] where
  lo : α → K
  hi : α → K
  weight : α → Nat
  lo_le_hi : ∀ a, lo a ≤ hi a

variable {α K τ : Type} [LinearOrder K]

section Chains

variable (W : Intervals α K)

def IsChain (c : List α) : Prop := c.Pairwise fun a b => W.hi a ≤ W.lo b

def load (c : List α) : Nat := (c.map W.weight).sum

/-- A chain of the intervals seen that has ended by `x`. -/
structure ChainBy (seen : List α) (x : K) (c : List α) : Prop where
  sub : c.Sublist seen
  chain : IsChain W c
  ended : ∀ a ∈ c, W.hi a ≤ x

variable {W} {seen c : List α} {x y : K} {a : α}

theorem load_append_singleton : load W (c ++ [a]) = load W c + W.weight a := by
  simp [load]

theorem chainBy_nil : ChainBy W seen x [] := ⟨List.nil_sublist _, List.Pairwise.nil, nofun⟩

theorem ChainBy.mono (h : ChainBy W seen x c) (hle : x ≤ y) : ChainBy W seen y c :=
  ⟨h.sub, h.chain, fun a ha => le_trans (h.ended a ha) hle⟩

theorem ChainBy.seen_append (h : ChainBy W seen x c) (more : List α) :
    ChainBy W (seen ++ more) x c :=
  ⟨h.sub.trans (List.sublist_append_left _ _), h.chain, h.ended⟩

theorem isChain_concat : IsChain W (c ++ [a]) ↔ IsChain W c ∧ ∀ b ∈ c, W.hi b ≤ W.lo a := by
  unfold IsChain
  rw [List.pairwise_append]
  simp

/-- An interval goes behind a chain that has ended by its beginning. -/
theorem ChainBy.concat (h : ChainBy W seen (W.lo a) c) :
    ChainBy W (seen ++ [a]) (W.hi a) (c ++ [a]) := by
  refine ⟨h.sub.append (List.Sublist.refl [a]), isChain_concat.2 ⟨h.chain, h.ended⟩, ?_⟩
  intro b hb
  rcases List.mem_append.1 hb with hb | hb
  · exact le_trans (h.ended b hb) (W.lo_le_hi a)
  · rw [List.mem_singleton.1 hb]

theorem sublist_concat (h : c.Sublist (seen ++ [a])) :
    c.Sublist seen ∨ ∃ c', c = c' ++ [a] ∧ c'.Sublist seen := by
  obtain ⟨before, last, rfl, hbefore, hlast⟩ := List.sublist_append_iff.1 h
  rcases List.sublist_cons_iff.1 hlast with hnil | ⟨rest, rfl, hrest⟩
  · left
    rw [List.sublist_nil.1 hnil, List.append_nil]
    exact hbefore
  · right
    rw [List.sublist_nil.1 hrest]
    exact ⟨before, rfl, hbefore⟩

/-- A chain does without the last interval, or ends in it. -/
theorem ChainBy.cases_concat (h : ChainBy W (seen ++ [a]) x c) :
    ChainBy W seen x c ∨ ∃ c', c = c' ++ [a] ∧ ChainBy W seen (W.lo a) c' ∧ W.hi a ≤ x := by
  rcases sublist_concat h.sub with hsub | ⟨c', rfl, hsub⟩
  · exact .inl ⟨hsub, h.chain, h.ended⟩
  · obtain ⟨hchain, hended⟩ := isChain_concat.1 h.chain
    exact .inr ⟨c', rfl, ⟨hsub, hchain, hended⟩, h.ended a List.mem_concat_self⟩

/-- Whatever a chain is, it has ended by then. -/
theorem ChainBy.exists_end [Nonempty K] (hsub : c.Sublist seen) (hchain : IsChain W c) :
    ∃ x, ChainBy W seen x c := by
  rcases List.eq_nil_or_concat c with rfl | ⟨before, a, rfl⟩
  · exact ⟨Classical.arbitrary K, chainBy_nil⟩
  · rw [List.concat_eq_append] at *
    refine ⟨W.hi a, hsub, hchain, fun b hb => ?_⟩
    obtain ⟨-, hended⟩ := isChain_concat.1 hchain
    rcases List.mem_append.1 hb with hb | hb
    · exact le_trans (hended b hb) (W.lo_le_hi a)
    · rw [List.mem_singleton.1 hb]

end Chains

/-! ## 2. Staircases -/

abbrev Stairs (K τ : Type) [LinearOrder K] : Type := SortedMap K (Nat × τ)

/-- The steps get higher. -/
def Rising (m : Stairs K τ) : Prop :=
  ∀ e ∈ m.entries, ∀ e' ∈ m.entries, e.1 < e'.1 → e.2.1 < e'.2.1

/-- There is a step by `x` that is as high as `height`. -/
def Reaches (m : Stairs K τ) (x : K) (height : Nat) : Prop :=
  ∃ e ∈ m.entries, e.1 ≤ x ∧ height ≤ e.2.1

/-- The steps from `key` on that are no higher than `height` are taken away, up to the first that
is. -/
def prune (m : Stairs K τ) (key : K) (height : Nat) : Stairs K τ :=
  match _ : m.firstFrom key with
  | none => m
  | some (later, best, _) =>
    if height < best then m else prune (m.erase later) key height
termination_by m.entries.length
decreasing_by
  obtain ⟨hmem, -⟩ := SortedMap.of_firstFrom ‹_›
  refine List.length_filter_lt_length_iff_exists.2 ⟨_, hmem, ?_⟩
  simp

section Stairs

variable {m : Stairs K τ} {x key : K} {height : Nat} {tag : τ}

theorem Rising.erase (h : Rising m) (k : K) : Rising (m.erase k) := fun e he e' he' =>
  h e (SortedMap.mem_erase.1 he).1 e' (SortedMap.mem_erase.1 he').1

/-- The last step by `x` is the highest. -/
theorem Rising.le_of_reaches (h : Rising m) {k : K} {best : Nat}
    (hlast : m.lastUpTo x = some (k, best, tag)) (hreaches : Reaches m x height) :
    height ≤ best := by
  obtain ⟨hmem, -, hgreatest⟩ := SortedMap.of_lastUpTo hlast
  obtain ⟨⟨k', n, t⟩, hmem', hle, hheight⟩ := hreaches
  rcases lt_or_eq_of_le (hgreatest _ hmem' hle) with hlt | heq
  · exact le_trans hheight (le_of_lt (h _ hmem' _ hmem hlt))
  · obtain rfl : k' = k := heq
    obtain ⟨rfl, rfl⟩ := Prod.mk.injEq .. ▸ SortedMap.eq_of_mem hmem' hmem
    exact hheight

theorem reaches_of_lastUpTo {k : K} {best : Nat} (hlast : m.lastUpTo x = some (k, best, tag))
    (hle : x ≤ key) (hheight : height ≤ best) : Reaches m key height := by
  obtain ⟨hmem, hkey, -⟩ := SortedMap.of_lastUpTo hlast
  exact ⟨_, hmem, le_trans hkey hle, hheight⟩

theorem mem_prune (h : Rising m) {e : K × Nat × τ} :
    e ∈ (prune m key height).entries ↔ e ∈ m.entries ∧ (e.1 < key ∨ height < e.2.1) := by
  fun_induction prune m key height with
  | case1 m hnone =>
    exact ⟨fun he => ⟨he, .inl (SortedMap.firstFrom_eq_none hnone e he)⟩, And.left⟩
  | case2 m later best t hfirst hlt =>
    -- The steps behind the first that is higher are higher still.
    obtain ⟨hmem, -, hleast⟩ := SortedMap.of_firstFrom hfirst
    refine ⟨fun he => ⟨he, ?_⟩, And.left⟩
    rcases lt_or_ge e.1 key with hbefore | hfrom
    · exact .inl hbefore
    · rcases lt_or_eq_of_le (hleast e he hfrom) with hafter | heq
      · exact .inr (lt_trans hlt (h _ hmem e he hafter))
      · obtain ⟨k, v⟩ := e
        obtain rfl : later = k := heq
        rw [← SortedMap.eq_of_mem hmem he]
        exact .inr hlt
  | case3 m later best t hfirst hle ih =>
    obtain ⟨hmem, hfrom, -⟩ := SortedMap.of_firstFrom hfirst
    rw [ih (h.erase later), SortedMap.mem_erase]
    refine ⟨fun ⟨⟨he, _⟩, hkept⟩ => ⟨he, hkept⟩, fun ⟨he, hkept⟩ => ⟨⟨he, ?_⟩, hkept⟩⟩
    rintro heq
    obtain ⟨k, v⟩ := e
    obtain rfl : k = later := heq
    obtain rfl := SortedMap.eq_of_mem hmem he
    exact hkept.elim (fun hlt => absurd hlt (not_lt.2 hfrom)) hle

/-- A step that rises above the one before it. -/
theorem mem_raise (h : Rising m) {k : K} {best : Nat} {t : τ}
    (hlast : m.lastUpTo key = some (k, best, t)) (hbest : best < height) {e : K × Nat × τ} :
    e ∈ ((prune m key height).insert key (height, tag)).entries ↔
      e = (key, height, tag) ∨ e ∈ m.entries ∧ (e.1 < key ∨ height < e.2.1) := by
  rw [SortedMap.mem_insert, mem_prune h]
  refine or_congr_right ⟨And.left, fun hkept => ⟨hkept, fun heq => ?_⟩⟩
  rcases hkept.2 with hlt | hlt
  · exact absurd heq (ne_of_lt hlt)
  · have hle := h.le_of_reaches hlast ⟨e, hkept.1, le_of_eq heq, le_refl _⟩
    omega

theorem Rising.raise (h : Rising m) {k : K} {best : Nat} {t : τ}
    (hlast : m.lastUpTo key = some (k, best, t)) (hbest : best < height) :
    Rising ((prune m key height).insert key (height, tag)) := by
  intro e he e' he' hlt
  rw [mem_raise h hlast hbest] at he he'
  rcases he with rfl | ⟨he, hkept⟩ <;> rcases he' with rfl | ⟨he', hkept'⟩
  · exact absurd hlt (lt_irrefl _)
  · exact hkept'.resolve_left (lt_asymm hlt)
  · exact lt_of_le_of_lt (h.le_of_reaches hlast ⟨e, he, le_of_lt hlt, le_refl _⟩) hbest
  · exact h e he e' he' hlt

/-- What is taken away is no higher than the new step, and behind it. -/
theorem Reaches.raise {n : Nat} (hreaches : Reaches m x n) (h : Rising m) {k : K} {best : Nat}
    {t : τ} (hlast : m.lastUpTo key = some (k, best, t)) (hbest : best < height) :
    Reaches ((prune m key height).insert key (height, tag)) x n := by
  obtain ⟨e, he, hle, hheight⟩ := hreaches
  by_cases hkept : e.1 < key ∨ height < e.2.1
  · exact ⟨e, (mem_raise h hlast hbest).2 (.inr ⟨he, hkept⟩), hle, hheight⟩
  · rw [not_or, not_lt, not_lt] at hkept
    exact ⟨_, (mem_raise h hlast hbest).2 (.inl rfl), le_trans hkept.1 hle,
      le_trans hheight hkept.2⟩

end Stairs

/-! ## 3. The heaviest chains -/

/-- The stairs over the intervals seen: every step is a chain that its tag leads to, and no chain
is heavier than the steps by its end. -/
structure Frontier (W : Intervals α K) (Leads : τ → List α → Prop) (seen : List α)
    (m : Stairs K τ) : Prop where
  rising : Rising m
  sound : ∀ e ∈ m.entries, ∃ c, Leads e.2.2 c ∧ ChainBy W seen e.1 c ∧ load W c = e.2.1
  covers : ∀ x c, ChainBy W seen x c → Reaches m x (load W c)

/-- A chain that is as heavy as any, and what leads to it. -/
structure Winner (W : Intervals α K) (Leads : τ → List α → Prop) (seen : List α)
    (best : Nat × τ) : Prop where
  sound : ∃ c, Leads best.2 c ∧ c.Sublist seen ∧ IsChain W c ∧ load W c = best.1
  covers : ∀ c, c.Sublist seen → IsChain W c → load W c ≤ best.1

section Frontier

variable {W : Intervals α K} {Leads Leads' : τ → List α → Prop} {seen : List α} {m : Stairs K τ}
  {x k : K} {n : Nat} {t tag : τ} {a : α}

/-- The empty chain alone. -/
theorem Frontier.nil {bottom : K} (hbottom : ∀ x, bottom ≤ x) (hleads : Leads tag []) :
    Frontier W Leads [] (SortedMap.empty.insert bottom (0, tag)) where
  rising e he e' he' hlt := by
    rw [SortedMap.mem_insert] at he he'
    obtain rfl := he.resolve_right fun h => nomatch h.1
    obtain rfl := he'.resolve_right fun h => nomatch h.1
    exact absurd hlt (lt_irrefl _)
  sound e he := by
    rw [SortedMap.mem_insert] at he
    obtain rfl := he.resolve_right fun h => nomatch h.1
    exact ⟨[], hleads, chainBy_nil, rfl⟩
  covers x c hc := by
    obtain rfl := List.sublist_nil.1 hc.sub
    exact ⟨_, SortedMap.mem_insert.2 (.inl rfl), hbottom x, le_refl _⟩

theorem Frontier.exists_last (h : Frontier W Leads seen m) (x : K) :
    ∃ k best t, m.lastUpTo x = some (k, best, t) := by
  obtain ⟨e, hmem, hle, -⟩ := h.covers x [] chainBy_nil
  obtain ⟨⟨k, best, t⟩, hlast⟩ := SortedMap.exists_lastUpTo hmem hle
  exact ⟨k, best, t, hlast⟩

/-- The last step by `x` is the heaviest chain that has ended by then. -/
theorem Frontier.heaviest (h : Frontier W Leads seen m) (hlast : m.lastUpTo x = some (k, n, t)) :
    (∃ c, Leads t c ∧ ChainBy W seen x c ∧ load W c = n) ∧
      ∀ c, ChainBy W seen x c → load W c ≤ n := by
  refine ⟨?_, fun c hc => h.rising.le_of_reaches hlast (h.covers x c hc)⟩
  obtain ⟨hmem, hle, -⟩ := SortedMap.of_lastUpTo hlast
  obtain ⟨c, hleads, hc, hload⟩ := h.sound _ hmem
  exact ⟨c, hleads, hc.mono hle, hload⟩

theorem Frontier.covers_concat (h : Frontier W Leads seen m) {m' : Stairs K τ}
    (hlast : m.lastUpTo (W.lo a) = some (k, n, t))
    (hold : ∀ x height, Reaches m x height → Reaches m' x height)
    (hnew : ∀ x height, W.hi a ≤ x → height ≤ n + W.weight a → Reaches m' x height)
    {c : List α} (hc : ChainBy W (seen ++ [a]) x c) : Reaches m' x (load W c) := by
  rcases hc.cases_concat with hc | ⟨c', rfl, hc', hle⟩
  · exact hold x _ (h.covers x c hc)
  · rw [load_append_singleton]
    exact hnew x _ hle (Nat.add_le_add_right ((h.heaviest hlast).2 c' hc') _)

/-- The chains that end in the new interval are no heavier than one that has ended by then. -/
theorem Frontier.keep (h : Frontier W Leads seen m)
    (hmono : ∀ e ∈ m.entries, ∀ c, Leads e.2.2 c → Leads' e.2.2 c)
    (hlast : m.lastUpTo (W.lo a) = some (k, n, t)) {k' : K} {best : Nat} {t' : τ}
    (hend : m.lastUpTo (W.hi a) = some (k', best, t')) (hbest : n + W.weight a ≤ best) :
    Frontier W Leads' (seen ++ [a]) m where
  rising := h.rising
  sound e he := by
    obtain ⟨c, hleads, hc, hload⟩ := h.sound e he
    exact ⟨c, hmono e he c hleads, hc.seen_append [a], hload⟩
  covers x c hc := h.covers_concat hlast (fun _ _ => id)
    (fun _ _ hle hheight => reaches_of_lastUpTo hend hle (le_trans hheight hbest)) hc

theorem Frontier.raise (h : Frontier W Leads seen m)
    (hmono : ∀ e ∈ m.entries, ∀ c, Leads e.2.2 c → Leads' e.2.2 c)
    (hlast : m.lastUpTo (W.lo a) = some (k, n, t))
    (hleads : ∀ c, Leads t c → Leads' tag (c ++ [a])) {k' : K} {best : Nat} {t' : τ}
    (hend : m.lastUpTo (W.hi a) = some (k', best, t')) (hbest : best < n + W.weight a) :
    Frontier W Leads' (seen ++ [a])
      ((prune m (W.hi a) (n + W.weight a)).insert (W.hi a) (n + W.weight a, tag)) where
  rising := h.rising.raise hend hbest
  sound e he := by
    rcases (mem_raise h.rising hend hbest).1 he with rfl | ⟨he, -⟩
    · obtain ⟨⟨c, hc, hchain, hload⟩, -⟩ := h.heaviest hlast
      exact ⟨c ++ [a], hleads c hc, hchain.concat, by rw [load_append_singleton, hload]⟩
    · obtain ⟨c, hc, hchain, hload⟩ := h.sound e he
      exact ⟨c, hmono e he c hc, hchain.seen_append [a], hload⟩
  covers x c hc := h.covers_concat hlast (fun _ _ hreaches => hreaches.raise h.rising hend hbest)
    (fun _ _ hle hheight =>
      ⟨_, (mem_raise h.rising hend hbest).2 (.inl rfl), hle, hheight⟩) hc

theorem Winner.nil (hleads : Leads tag []) : Winner W Leads [] (0, tag) where
  sound := ⟨[], hleads, List.Sublist.refl _, List.Pairwise.nil, rfl⟩
  covers c hsub _ := by
    rw [List.sublist_nil.1 hsub]
    exact le_refl _

/-- The better of the winner and the heaviest chain that ends in the new interval. -/
theorem Winner.step {best : Nat × τ} (h : Winner W Leads seen best)
    (hm : Frontier W Leads seen m) (hmono : ∀ c, Leads best.2 c → Leads' best.2 c)
    (hlast : m.lastUpTo (W.lo a) = some (k, n, t))
    (hleads : ∀ c, Leads t c → Leads' tag (c ++ [a])) :
    Winner W Leads' (seen ++ [a])
      (if best.1 < n + W.weight a then (n + W.weight a, tag) else best) := by
  have : Nonempty K := ⟨k⟩
  obtain ⟨⟨c, hc, hby, hload⟩, hmost⟩ := hm.heaviest hlast
  have hcovers : ∀ c, c.Sublist (seen ++ [a]) → IsChain W c →
      load W c ≤ best.1 ∨ load W c ≤ n + W.weight a := by
    intro c hsub hchain
    obtain ⟨x, hx⟩ := ChainBy.exists_end hsub hchain
    rcases hx.cases_concat with hold | ⟨c', rfl, hc', -⟩
    · exact .inl (h.covers c hold.sub hold.chain)
    · right
      rw [load_append_singleton]
      exact Nat.add_le_add_right (hmost c' hc') _
  split
  · next hlt =>
    refine ⟨⟨c ++ [a], hleads c hc, hby.concat.sub, hby.concat.chain, ?_⟩, ?_⟩
    · rw [load_append_singleton, hload]
    · exact fun c hsub hchain => (hcovers c hsub hchain).elim
        (fun hle => le_trans hle (le_of_lt hlt)) id
  · next hle =>
    obtain ⟨c, hc, hsub, hchain, hload⟩ := h.sound
    refine ⟨⟨c, hmono c hc, hsub.trans (List.sublist_append_left _ _), hchain, hload⟩, ?_⟩
    exact fun c hsub hchain => (hcovers c hsub hchain).elim id
      fun hweight => le_trans hweight (not_lt.1 hle)

end Frontier

end WeightedChains
