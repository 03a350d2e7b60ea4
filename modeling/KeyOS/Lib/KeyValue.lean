import Mathlib

/-!
# Texts of pairs

A list of pairs as a text: a separator between the pairs, another one between the parts of a pair.
Split again, it is the list, as long as no part has the separator that would cut it.
-/

namespace KeyValue

variable {α : Type} {sep assign : α} {key value : List α}

/-- What is before the first of some letter, and what is after it -/
def splitOnce [DecidableEq α] (c : α) (s : List α) : Option (List α × List α) :=
  if c ∈ s then some (s.takeWhile (· ≠ c), (s.dropWhile (· ≠ c)).tail) else none

def pair (assign : α) (p : List α × List α) : List α := p.1 ++ assign :: p.2

def render (sep assign : α) (pairs : List (List α × List α)) : List α :=
  [sep].intercalate (pairs.map (pair assign))

theorem splitOnce_pair [DecidableEq α] (h : assign ∉ key) :
    splitOnce assign (pair assign (key, value)) = some (key, value) := by
  have hkey : ∀ x ∈ key, decide (x ≠ assign) = true := fun x hx =>
    decide_eq_true fun he => h (he ▸ hx)
  simp only [splitOnce, pair, List.takeWhile_append_of_pos hkey, List.dropWhile_append_of_pos hkey]
  simp

theorem not_mem_pair (hne : sep ≠ assign) (hkey : sep ∉ key) (hvalue : sep ∉ value) :
    sep ∉ pair assign (key, value) := by
  simp [pair, hne, hkey, hvalue]

theorem splitOn_render [DecidableEq α] {pairs : List (List α × List α)} (hne : sep ≠ assign) (hnil : pairs ≠ [])
    (hsep : ∀ p ∈ pairs, sep ∉ p.1 ∧ sep ∉ p.2) :
    (render sep assign pairs).splitOn sep = pairs.map (pair assign) := by
  refine List.splitOn_intercalate sep (fun l hl => ?_) (by simpa using hnil)
  obtain ⟨p, hp, rfl⟩ := List.mem_map.1 hl
  exact not_mem_pair hne (hsep p hp).1 (hsep p hp).2

/-- The text begins with the first key, or with the letter after it. -/
theorem head_render (sep assign : α) (key value : List α) (pairs : List (List α × List α)) :
    (render sep assign ((key, value) :: pairs)).head? = some (key.headD assign) := by
  unfold render pair
  cases pairs <;> cases key <;> simp [List.intercalate_cons_cons]

end KeyValue
