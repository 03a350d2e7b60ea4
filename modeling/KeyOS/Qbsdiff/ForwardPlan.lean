import KeyOS.Qbsdiff.Forward

/-!
# The longest forward chain

The pieces lie in the order of the target and inside both files. The plan's scores are a staircase
of chains, so the chain that is selected is as long as any that moves forward in the source.
-/

namespace Qbsdiff.Forward

open WeightedChains

/-! ## 1. The pieces -/

/-- The source bytes of the records are in a file of `len` bytes. -/
def AddsInside (len : Nat) : List Control → Int → Prop
  | [], _ => True
  | ctrl :: cs, pos => (0 < ctrl.add → 0 ≤ pos ∧ pos + ctrl.add ≤ len) ∧
      AddsInside len cs (asI64 (asU64 (pos + ctrl.add + ctrl.seek)))

/-- No sum of the positions leaves the range of an `i64`. -/
def SumsFit : List Control → Int → Prop
  | [], _ => True
  | ctrl :: cs, pos => FitsI64 (ctrl.add + ctrl.seek) ∧ FitsI64 (pos + (ctrl.add + ctrl.seek)) ∧
      SumsFit cs (pos + ctrl.add + ctrl.seek)

/-- What the matcher may hand over. In a build that checks arithmetic the positions that it means
are numbers of an `i64`; in one that does not they may wrap around. -/
structure Handed (overflowChecks : Bool) (files : Files) (cs : List Control) : Prop where
  inside : AddsInside files.old.length cs 0
  total_eq : total cs = files.new.length
  fits : overflowChecks = true → SumsFit cs 0

/-- Two pieces in the order of the target. -/
def Match.Before (r r' : Match) : Prop := r.target + r.len ≤ r'.target

/-- A piece lies inside the old file and below a target position. -/
def Match.Within (oldLen target : Nat) (r : Match) : Prop :=
  r.source + r.len ≤ oldLen ∧ r.target + r.len ≤ target

/-- The pieces of the first `target` bytes. -/
structure Arranged (oldLen target : Nat) (pieces : List Match) : Prop where
  within : ∀ r ∈ pieces, r.Within oldLen target
  before : pieces.Pairwise Match.Before

section Pieces

variable {source target add offset oldLen : Nat} {pieces : List Match} {r : Match}

theorem mem_cutPieces (h : r ∈ cutPieces source target add offset) :
    r.source + r.len ≤ source + add ∧ target + offset ≤ r.target ∧
      r.target + r.len ≤ target + add := by
  fun_induction cutPieces source target add offset with
  | case1 offset hlt ih =>
    rcases List.mem_cons.1 h with rfl | hrest
    · dsimp only
      omega
    · obtain ⟨hsource, hfrom, hto⟩ := ih hrest
      exact ⟨hsource, by omega, hto⟩
  | case2 => cases h

theorem cutPieces_before : (cutPieces source target add offset).Pairwise Match.Before := by
  fun_induction cutPieces source target add offset with
  | case1 offset hlt ih =>
    refine List.pairwise_cons.2 ⟨fun r hr => ?_, ih⟩
    obtain ⟨-, hfrom, -⟩ := mem_cutPieces hr
    unfold Match.Before
    dsimp only
    omega
  | case2 => exact .nil

theorem Arranged.cutPieces (h : Arranged oldLen target pieces) (hadd : source + add ≤ oldLen)
    (copy : Nat) : Arranged oldLen (target + (add + copy))
      (pieces ++ Forward.cutPieces source target add 0) where
  within r hr := by
    rcases List.mem_append.1 hr with hr | hr
    · obtain ⟨hsource, htarget⟩ := h.within r hr
      exact ⟨hsource, by omega⟩
    · obtain ⟨hsource, -, htarget⟩ := mem_cutPieces hr
      exact ⟨by omega, by omega⟩
  before := by
    refine List.pairwise_append.2 ⟨h.before, cutPieces_before, fun r hr r' hr' => ?_⟩
    obtain ⟨-, htarget⟩ := h.within r hr
    obtain ⟨-, hfrom, -⟩ := mem_cutPieces hr'
    exact Nat.le_trans htarget hfrom

theorem Arranged.longer (h : Arranged oldLen target pieces) (more : Nat) :
    Arranged oldLen (target + more) pieces where
  within r hr := ⟨(h.within r hr).1, Nat.le_trans (h.within r hr).2 (Nat.le_add_right _ _)⟩
  before := h.before

end Pieces

/-! ## 2. Collecting -/

section Collect

variable {overflowChecks : Bool} {files : Files} {s : Collected} {ctrl : Control}
  {cs : List Control} {pos : Int} {target : Nat}

theorem require_ok {p : Panic} {c : Prop} [Decidable c] (h : c) : require p c = .ok () := if_pos h

theorem addUsize_ok {a b : Nat} (h : a + b < 2 ^ 64) : addUsize overflowChecks a b = .ok (a + b) := by
  unfold addUsize
  rw [require_ok fun _ => h, Nat.mod_eq_of_lt h]
  rfl

theorem addI64_ok {a b : Int} (h : overflowChecks = true → FitsI64 (a + b)) :
    addI64 overflowChecks a b = .ok (asI64 (asU64 (a + b))) := by
  unfold addI64
  rw [require_ok h]
  rfl

/-- Sums that wrap around one after the other. -/
theorem asI64_asU64_add (a b : Int) :
    asI64 (asU64 (a + asI64 (asU64 b))) = asI64 (asU64 (a + b)) := by
  unfold asI64 asU64
  split <;> split <;> split <;> omega

theorem piecesOf_ok (hpos : FitsI64 s.source)
    (hinside : 0 < ctrl.add → 0 ≤ s.source ∧ s.source + ctrl.add ≤ files.old.length)
    (harranged : Arranged files.old.length s.target s.pieces) :
    ∃ pieces, piecesOf overflowChecks files.old s ctrl.add = .ok pieces ∧
      Arranged files.old.length (s.target + (ctrl.add + ctrl.copy)) (s.pieces ++ pieces) := by
  have hshort := files.old_short
  unfold piecesOf
  split
  · next hadd =>
    obtain ⟨hpositive, hle⟩ := hinside hadd
    have hnat := asU64_of_nonneg hpos hpositive
    have hfits : asU64 s.source + ctrl.add ≤ files.old.length := by omega
    refine ⟨_, ?_, harranged.cutPieces hfits _⟩
    rw [require_ok hpositive, addUsize_ok (by omega)]
    show (do require .sourceOutsideFile (_ ≤ _); _) = _
    rw [require_ok hfits]
    rfl
  · refine ⟨[], rfl, ?_⟩
    rw [List.append_nil]
    exact harranged.longer _

theorem asI64_asU64_fits (x : Int) : FitsI64 (asI64 (asU64 x)) := by
  unfold asI64 asU64 FitsI64
  split <;> omega

/-- One record: its pieces, and where the next one stands. -/
theorem collect_ok (hpos : FitsI64 s.source)
    (hinside : 0 < ctrl.add → 0 ≤ s.source ∧ s.source + ctrl.add ≤ files.old.length)
    (hsums : overflowChecks = true →
      FitsI64 (ctrl.add + ctrl.seek) ∧ FitsI64 (s.source + (ctrl.add + ctrl.seek)))
    (htarget : s.target + (ctrl.add + ctrl.copy) ≤ files.new.length)
    (harranged : Arranged files.old.length s.target s.pieces) :
    ∃ s', collect overflowChecks files.old s ctrl = .ok s' ∧
      s'.source = asI64 (asU64 (s.source + ctrl.add + ctrl.seek)) ∧
      s'.target = s.target + (ctrl.add + ctrl.copy) ∧
      Arranged files.old.length s'.target s'.pieces := by
  have hshort := files.new_short
  obtain ⟨pieces, hpieces, harranged'⟩ :=
    @piecesOf_ok overflowChecks files s ctrl hpos hinside harranged
  have hadd : asI64 ctrl.add = ctrl.add := by
    rw [asI64, if_pos (by omega)]
  have hmoved : overflowChecks = true →
      FitsI64 (s.source + asI64 (asU64 (ctrl.add + ctrl.seek))) := fun hchecks => by
    rw [asI64_asU64 (hsums hchecks).1]
    exact (hsums hchecks).2
  refine ⟨⟨s.pieces ++ pieces, _, _⟩, ?_, rfl, rfl, harranged'⟩
  unfold collect
  rw [hpieces, addUsize_ok (a := ctrl.add) (by omega)]
  show (do let _ ← addUsize _ _ _; _) = _
  rw [addUsize_ok (by omega), hadd]
  show (do let _ ← addI64 _ _ _; _) = _
  rw [addI64_ok fun hchecks => (hsums hchecks).1]
  show (do let _ ← addI64 _ _ _; _) = _
  rw [addI64_ok hmoved, asI64_asU64_add, ← Int.add_assoc]
  rfl

theorem collectAll_ok (hpos : FitsI64 s.source)
    (hinside : AddsInside files.old.length cs s.source)
    (hsums : overflowChecks = true → SumsFit cs s.source)
    (htarget : s.target + total cs = files.new.length)
    (harranged : Arranged files.old.length s.target s.pieces) :
    ∃ s', cs.foldlM (collect overflowChecks files.old) s = .ok s' ∧
      s'.target = files.new.length ∧ Arranged files.old.length files.new.length s'.pieces := by
  induction cs generalizing s with
  | nil =>
    rw [total_nil, Nat.add_zero] at htarget
    exact ⟨s, rfl, htarget, htarget ▸ harranged⟩
  | cons ctrl cs ih =>
    rw [total_cons] at htarget
    obtain ⟨hadd, hrest⟩ := hinside
    obtain ⟨s', hcollect, hsource, hnext, harranged'⟩ := collect_ok hpos hadd
      (fun hchecks => ⟨(hsums hchecks).1, (hsums hchecks).2.1⟩) (by omega) harranged
    rw [← hsource] at hrest
    obtain ⟨s'', hall, hlast⟩ := ih (s := s') (hsource ▸ asI64_asU64_fits _) hrest
      (fun hchecks => by
        rw [hsource, Int.add_assoc, asI64_asU64 (hsums hchecks).2.1, ← Int.add_assoc]
        exact (hsums hchecks).2.2)
      (by omega) harranged'
    refine ⟨s'', ?_, hlast⟩
    rw [List.foldlM_cons, hcollect]
    exact hall

end Collect

/-! ## 3. The plan -/

/-- A piece as an interval of the source. -/
def ranges : Intervals Match Nat where
  lo r := r.source
  hi r := r.source + r.len
  weight r := r.len
  lo_le_hi r := Nat.le_add_right r.source r.len

/-- The pieces that the table leads back to from an index, the last one at the end. -/
inductive Traced (pieces : List Match) (previous : List (Option Nat)) :
    Option Nat → List Match → Prop
  | none : Traced pieces previous none []
  | some {i : Nat} {r : Match} {before : Option Nat} {c : List Match} :
      pieces[i]? = some r → previous[i]? = some before → (∀ j ∈ before, j < i) →
      Traced pieces previous before c → Traced pieces previous (some i) (c ++ [r])

/-- A tag of the first `n` pieces, and the chain that it leads to. -/
def Leads (pieces : List Match) (previous : List (Option Nat)) (n : Nat) (last : Option Nat)
    (c : List Match) : Prop :=
  (∀ j ∈ last, j < n) ∧ Traced pieces previous last c

/-- The plan when `n` pieces have been considered. -/
structure Considered (pieces : List Match) (n : Nat) (p : Plan) : Prop where
  chains : Frontier ranges (Leads pieces p.previous n) (pieces.take n) p.chains
  winner : Winner ranges (Leads pieces p.previous n) (pieces.take n) p.winner
  table : p.previous.length = pieces.length

section Plan

variable {pieces : List Match} {previous : List (Option Nat)} {n i : Nat} {last : Option Nat}
  {c : List Match} {r : Match} {p : Plan}

/-- What a tag leads to does not depend on the rows of later pieces. -/
theorem Traced.set (h : Traced pieces previous last c) (hlast : ∀ j ∈ last, j < n)
    (row : Option Nat) : Traced pieces (previous.set n row) last c := by
  induction h with
  | none => exact .none
  | @some i r before c hr hrow hbefore _ ih =>
    have hi : i < n := hlast i rfl
    refine .some hr ?_ hbefore (ih fun j hj => Nat.lt_trans (hbefore j hj) hi)
    rw [List.getElem?_set_ne (Nat.ne_of_gt hi)]
    exact hrow

theorem Leads.set (h : Leads pieces previous n last c) (row : Option Nat) :
    Leads pieces (previous.set n row) (n + 1) last c :=
  ⟨fun j hj => Nat.lt_succ_of_lt (h.1 j hj), h.2.set h.1 row⟩

/-- The new piece behind a chain. -/
theorem Leads.concat (h : Leads pieces previous n last c) (hr : pieces[n]? = some r)
    (htable : n < previous.length) :
    Leads pieces (previous.set n last) (n + 1) (some n) (c ++ [r]) := by
  refine ⟨fun j hj => ?_, .some hr (List.getElem?_set_self htable) h.1 (h.2.set h.1 last)⟩
  obtain rfl := Option.mem_some_iff.1 hj
  exact Nat.lt_succ_self _

theorem considered_start (pieces : List Match) : Considered pieces 0 (.start pieces) where
  chains := Frontier.nil Nat.zero_le ⟨nofun, .none⟩
  winner := Winner.nil ⟨nofun, .none⟩
  table := List.length_replicate

theorem scoreBy_ok {chains : SortedMap Nat Score} {x k : Nat} {score : Score}
    (h : chains.lastUpTo x = some (k, score)) : scoreBy chains x = .ok score := by
  rw [scoreBy, h]

theorem consider_ok (h : Considered pieces n p) (hr : pieces[n]? = some r) :
    ∃ p', consider p n r = .ok p' ∧ Considered pieces (n + 1) p' := by
  obtain ⟨hchains, hwinner, htable⟩ := h
  obtain ⟨hn, hget⟩ := List.getElem?_eq_some_iff.1 hr
  have htake : pieces.take (n + 1) = pieces.take n ++ [r] := by
    rw [List.take_add_one, hr]
    rfl
  obtain ⟨k, len, before, hprior⟩ := hchains.exists_last r.source
  obtain ⟨k', best, t', hbest⟩ := hchains.exists_last (r.source + r.len)
  have hset : ∀ t c, Leads pieces p.previous n t c →
      Leads pieces (p.previous.set n before) (n + 1) t c := fun _ _ hc => hc.set before
  have hleads : ∀ c, Leads pieces p.previous n before c →
      Leads pieces (p.previous.set n before) (n + 1) (some n) (c ++ [r]) :=
    fun c hc => hc.concat hr (htable ▸ hn)
  -- The stairs stay, or get the new step: the winner is the same in both cases.
  obtain ⟨chains, himprove, hfrontier⟩ : ∃ chains,
      improve p.chains (r.source + r.len) (len + r.len, some n) = .ok chains ∧
        Frontier ranges (Leads pieces (p.previous.set n before) (n + 1)) (pieces.take (n + 1))
          chains := by
    unfold improve
    rw [scoreBy_ok hbest, htake]
    rcases Nat.lt_or_ge best (len + r.len) with hlt | hge
    · refine ⟨_, if_neg (Nat.not_le.2 hlt), ?_⟩
      exact hchains.raise (W := ranges) (fun e _ => hset e.2.2) hprior hleads hbest hlt
    · refine ⟨_, if_pos hge, ?_⟩
      exact hchains.keep (W := ranges) (fun e _ => hset e.2.2) hprior hbest hge
  let winner := if p.winner.1 < len + r.len then (len + r.len, some n) else p.winner
  refine ⟨⟨chains, p.previous.set n before, winner⟩, ?_, hfrontier, ?_,
    List.length_set.trans htable⟩
  · unfold consider
    rw [scoreBy_ok hprior]
    show (do let _ ← improve _ _ _; _) = _
    rw [himprove]
    rfl
  · rw [htake]
    exact hwinner.step hchains (hset _) hprior hleads

theorem considerFrom_ok {rest before : List Match} (h : Considered pieces n p)
    (hsplit : pieces = before ++ rest) (hn : before.length = n) :
    ∃ p', considerFrom n rest p = .ok p' ∧ Considered pieces pieces.length p' := by
  induction rest generalizing n p before with
  | nil =>
    rw [List.append_nil] at hsplit
    rw [hsplit, hn]
    exact ⟨p, rfl, hsplit ▸ h⟩
  | cons r rest ih =>
    have hr : pieces[n]? = some r := by
      rw [hsplit, ← hn]
      simp
    obtain ⟨p', hconsider, hnext⟩ := consider_ok h hr
    obtain ⟨p'', hrest, hlast⟩ := @ih _ _ (before ++ [r]) hnext (by simpa using hsplit)
      (by simp [hn])
    refine ⟨p'', ?_, hlast⟩
    rw [considerFrom, hconsider]
    exact hrest

theorem index_ok {α : Type} {xs : List α} {x : α} (h : xs[i]? = some x) : index xs i = .ok x := by
  rw [index, h]

/-- The loop back ends at the first piece of the chain. -/
theorem follow_ok {rounds : Nat} (h : Traced pieces previous last c)
    (hrounds : ∀ j ∈ last, j < rounds) : ∃ selected, follow previous rounds last = .ok selected ∧
      selected.reverse.map (fun i => pieces[i]?) = c.map some := by
  induction h generalizing rounds with
  | none =>
    cases rounds <;> exact ⟨[], rfl, rfl⟩
  | @some i r before c hr hrow hbefore _ ih =>
    have hi : i < rounds := hrounds i rfl
    cases rounds with
    | zero => exact absurd hi (Nat.not_lt_zero i)
    | succ rounds =>
      obtain ⟨selected, hfollow, hmap⟩ := @ih rounds fun j hj =>
        Nat.lt_of_lt_of_le (hbefore j hj) (Nat.le_of_lt_succ hi)
      refine ⟨i :: selected, ?_, ?_⟩
      · rw [follow, index_ok hrow]
        show (do let _ ← follow _ _ _; _) = _
        rw [hfollow]
        rfl
      · rw [List.reverse_cons, List.map_append, List.map_append, hmap]
        simp [hr]

end Plan

/-- The pieces that are kept: in the order of the target, forward in the source, and of a total
length that no such choice exceeds. -/
structure Longest (pieces kept : List Match) : Prop where
  sublist : kept.Sublist pieces
  forward : kept.Pairwise fun r r' => r.source + r.len ≤ r'.source
  most : ∀ other : List Match, other.Sublist pieces →
    (other.Pairwise fun r r' => r.source + r.len ≤ r'.source) →
    (other.map Match.len).sum ≤ (kept.map Match.len).sum

theorem select_ok (pieces : List Match) : ∃ selected kept, select pieces = .ok selected ∧
    selected.reverse.map (fun i => pieces[i]?) = kept.map some ∧ Longest pieces kept := by
  obtain ⟨p, hconsider, -, hwinner, -⟩ :=
    @considerFrom_ok pieces 0 _ pieces [] (considered_start pieces) rfl rfl
  rw [List.take_length] at hwinner
  obtain ⟨⟨kept, ⟨hlast, htraced⟩, hsub, hchain, hload⟩, hmost⟩ := hwinner
  obtain ⟨selected, hfollow, hmap⟩ := follow_ok htraced hlast
  refine ⟨selected, kept, ?_, hmap, hsub, hchain, fun other hother hforward => ?_⟩
  · unfold select
    rw [hconsider]
    exact hfollow
  · exact Nat.le_trans (hmost other hother hforward) (Nat.le_of_eq hload.symm)

end Qbsdiff.Forward
