import Mathlib

/-!
# A tree of files whose entries go by two names

An entry of a FAT directory is found by its name, without regard to case, or by the short name
that was made up for it. Names are folded to one case here. A short name that is not the name
itself holds a `~`.

A call can fail. It then has no effect, but for a recursive removal, which may have removed any
part of what it was to remove, a write, which may have written a prefix, and the calls that say
so.
-/

namespace FatTree

/-- A name in one case. -/
abbrev Name := List Char

abbrev Path := List Name

abbrev Bytes := List UInt8

inductive Node where
  | dir
  | file (data : Bytes)
deriving DecidableEq

/-- The entries, and in each directory the names that short names stand for. -/
structure Tree where
  node : Path → Option Node
  short : Path → Name → Option Name

inductive Error where
  | fileNotFound
  | io
deriving DecidableEq, Repr

namespace Tree

variable {t t' t'' : Tree} {d p q raw : Path} {n : Name}

/-! ## 1. Names -/

def file? (t : Tree) (p : Path) : Option Bytes :=
  match t.node p with
  | some (.file data) => some data
  | _ => none

/-- The entry that a name finds in a directory, or the name itself. -/
def entry (t : Tree) (d : Path) (n : Name) : Name :=
  if (t.node (d ++ [n])).isSome ∨ '~' ∉ n then n
  else
    match t.short d n with
    | none => n
    | some k => if (t.node (d ++ [k])).isSome then k else n

def resolveFrom (t : Tree) : Path → Path → Path
  | d, [] => d
  | d, n :: ns => resolveFrom t (d ++ [t.entry d n]) ns

/-- The place that a path stands for. -/
def resolve (t : Tree) (raw : Path) : Path := t.resolveFrom [] raw

theorem entry_of_some (h : (t.node (d ++ [n])).isSome) : t.entry d n = n := if_pos (.inl h)

theorem entry_of_not_mem (h : '~' ∉ n) : t.entry d n = n := if_pos (.inr h)

theorem entry_eq_or (t : Tree) (d : Path) (n : Name) :
    t.entry d n = n ∨ (t.node (d ++ [t.entry d n])).isSome := by
  unfold entry
  split
  · exact .inl rfl
  · split
    · exact .inl rfl
    · split
      next h => exact .inr h
      next => exact .inl rfl

theorem entry_of_none (h : t.node (d ++ [t.entry d n]) = none) : t.entry d n = n :=
  (t.entry_eq_or d n).resolve_right (by rw [h]; exact Bool.false_ne_true)

/-- What a name may find in a directory. -/
def Names (t : Tree) (d : Path) (n k : Name) : Prop := k = n ∨ t.short d n = some k

theorem entry_names (t : Tree) (d : Path) (n : Name) : t.Names d n (t.entry d n) := by
  unfold entry
  split
  · exact .inl rfl
  · split
    next => exact .inl rfl
    next k hk =>
      split
      · exact .inr hk
      · exact .inl rfl

@[simp] theorem resolveFrom_cons (ns : Path) :
    t.resolveFrom d (n :: ns) = t.resolveFrom (d ++ [t.entry d n]) ns := rfl

theorem resolveFrom_append (ns ms : Path) :
    t.resolveFrom d (ns ++ ms) = t.resolveFrom (t.resolveFrom d ns) ms := by
  induction ns generalizing d with
  | nil => rfl
  | cons n ns ih => exact ih

theorem resolve_append (ns ms : Path) : t.resolve (ns ++ ms) = t.resolveFrom (t.resolve ns) ms :=
  resolveFrom_append ns ms

theorem resolve_concat (raw : Path) (n : Name) :
    t.resolve (raw ++ [n]) = t.resolve raw ++ [t.entry (t.resolve raw) n] :=
  resolve_append raw [n]

theorem prefix_resolveFrom (d ns : Path) : d <+: t.resolveFrom d ns := by
  induction ns generalizing d with
  | nil => exact List.prefix_refl d
  | cons n ns ih => exact (List.prefix_append d _).trans (ih _)

theorem length_resolveFrom (d ns : Path) :
    (t.resolveFrom d ns).length = d.length + ns.length := by
  induction ns generalizing d with
  | nil => rfl
  | cons n ns ih =>
    rw [resolveFrom_cons, ih, List.length_append, List.length_singleton, List.length_cons]
    omega

/-- A path without a `~` stands for itself. -/
theorem resolve_plain {raw : Path} (h : ∀ n ∈ raw, '~' ∉ n) : t.resolve raw = raw := by
  suffices hfrom : ∀ d : Path, t.resolveFrom d raw = d ++ raw from hfrom []
  induction raw with
  | nil => exact fun d => (List.append_nil d).symm
  | cons n ns ih =>
    intro d
    rw [resolveFrom_cons, entry_of_not_mem (h n List.mem_cons_self),
      ih fun m hm => h m (List.mem_cons_of_mem n hm), List.append_assoc]
    rfl

/-! ## 2. Changes below a directory -/

/-- `t'` differs from `t` in entries below `d` only. -/
structure Below (d : Path) (t t' : Tree) : Prop where
  node : ∀ q, (d <+: q → q = d) → t'.node q = t.node q
  short : ∀ e, ¬ d <+: e → t'.short e = t.short e

theorem Below.trans (h : Below d t t') (h' : Below d t' t'') : Below d t t'' :=
  ⟨fun q hq => (h'.node q hq).trans (h.node q hq), fun e he => (h'.short e he).trans (h.short e he)⟩

theorem Below.entry {e : Path} (h : Below d t t') (hlt : e.length < d.length) (n : Name) :
    t'.entry e n = t.entry e n := by
  have hnode (m : Name) : t'.node (e ++ [m]) = t.node (e ++ [m]) := by
    refine h.node _ fun hpre => (hpre.eq_of_length ?_).symm
    have hle := hpre.length_le
    rw [List.length_append, List.length_singleton] at hle ⊢
    omega
  have hshort : t'.short e = t.short e := h.short e fun hpre => by
    have hle := hpre.length_le
    omega
  unfold Tree.entry
  simp only [hnode, hshort]

/-- The directory itself is found as before. -/
theorem Below.resolve (h : Below (t.resolve raw) t t') : t'.resolve raw = t.resolve raw := by
  have hlength : (t.resolve raw).length = raw.length := by
    rw [Tree.resolve, length_resolveFrom]
    exact Nat.zero_add _
  suffices hfrom : ∀ (ns e : Path), e.length + ns.length ≤ (t.resolve raw).length →
      t'.resolveFrom e ns = t.resolveFrom e ns from
    hfrom raw [] (by rw [hlength]; exact (Nat.zero_add _).le)
  intro ns
  induction ns with
  | nil => exact fun _ _ => rfl
  | cons n ns ih =>
    intro e he
    rw [List.length_cons] at he
    rw [resolveFrom_cons, resolveFrom_cons, h.entry (by omega)]
    refine ih _ ?_
    rw [List.length_append, List.length_singleton]
    omega

/-! ## 3. Closed trees -/

/-- What an entry is in is a directory. -/
def Closed (t : Tree) : Prop := ∀ d n, (t.node (d ++ [n])).isSome → t.node d = some .dir

theorem Closed.dir_above (h : Closed t) (hpre : p <+: q) (hne : p ≠ q)
    (hq : (t.node q).isSome) : t.node p = some .dir := by
  obtain ⟨ns, rfl⟩ := hpre
  induction ns using List.reverseRecOn with
  | nil => exact (hne (List.append_nil p).symm).elim
  | append_singleton ns n ih =>
    rw [← List.append_assoc] at hq
    have hdir := h _ _ hq
    cases ns with
    | nil => rwa [List.append_nil] at hdir
    | cons m ms =>
      refine ih (fun heq => ?_) (by rw [hdir]; rfl)
      have hlength := congrArg List.length heq
      rw [List.length_append, List.length_cons] at hlength
      omega

/-- Nothing is below what is not there. -/
theorem Closed.none_below (h : Closed t) (hpre : p <+: q) (hp : t.node p = none) :
    t.node q = none := by
  rcases eq_or_ne p q with rfl | hne
  · exact hp
  · by_contra hq
    have hdir := h.dir_above hpre hne (Option.ne_none_iff_isSome.1 hq)
    rw [hp] at hdir
    cases hdir

/-- The tree with these entries and no short names. -/
def ofList (entries : List (Path × Node)) : Tree where
  node p := (entries.find? fun entry => entry.1 = p).map Prod.snd
  short _ _ := none

theorem ofList_closed {entries : List (Path × Node)}
    (h : ∀ entry ∈ entries, entry.1 ≠ [] → (ofList entries).node entry.1.dropLast = some .dir) :
    Closed (ofList entries) := by
  intro d n hn
  obtain ⟨v, hv⟩ := Option.isSome_iff_exists.1 hn
  obtain ⟨entry, hfind, -⟩ := Option.map_eq_some_iff.1 hv
  have hpath : entry.1 = d ++ [n] := by simpa using List.find?_some hfind
  have hdir := h entry (List.mem_of_find?_eq_some hfind) (by rw [hpath]; simp)
  rwa [hpath, List.dropLast_concat] at hdir

/-! ## 4. Edits -/

/-- Without `p` and what is below it. -/
def erase (t : Tree) (p : Path) : Tree :=
  { t with node := fun q => if p <+: q then none else t.node q }

/-- With part of what is below `p`, and `p` itself if a part is left. -/
def prune (t : Tree) (p : Path) (kept : Path → Bool) : Tree :=
  { t with node := fun q =>
      if p <+: q ∧ ∃ r ∈ q.inits, p <+: r ∧ kept r = false then none else t.node q }

/-- With an entry at `p`, which also goes by the name `short`. -/
def put (t : Tree) (p : Path) (v : Node) (short : Option Name) : Tree where
  node := Function.update t.node p (some v)
  short :=
    match short with
    | none => t.short
    | some s => Function.update t.short p.dropLast
        (Function.update (t.short p.dropLast) s p.getLast?)

/-- With the entries at and below `p` at `q`. -/
def move (t : Tree) (p q : Path) (short : Option Name) : Tree where
  node := fun r =>
    if q <+: r then t.node (p ++ r.drop q.length)
    else if p <+: r then none
    else t.node r
  short := fun d n =>
    if q <+: d then t.short (p ++ d.drop q.length) n
    else if d = q.dropLast ∧ short = some n then q.getLast?
    else t.short d n

@[simp] theorem put_self (v : Node) (s : Option Name) : (t.put p v s).node p = some v :=
  Function.update_self ..

theorem put_of_ne (v : Node) (s : Option Name) (h : q ≠ p) : (t.put p v s).node q = t.node q :=
  Function.update_of_ne h ..

theorem put_short (v : Node) {s : Option Name} (h : s ≠ some n) (d : Path) :
    (t.put p v s).short d n = t.short d n := by
  cases s with
  | none => rfl
  | some s =>
    have hne : n ≠ s := fun heq => h (by rw [heq])
    show Function.update t.short p.dropLast _ d n = _
    rcases eq_or_ne d p.dropLast with rfl | hd
    · rw [Function.update_self, Function.update_of_ne hne]
    · rw [Function.update_of_ne hd]

theorem erase_inside (h : p <+: q) : (t.erase p).node q = none := if_pos h

theorem erase_outside (h : ¬ p <+: q) : (t.erase p).node q = t.node q := if_neg h

theorem prune_outside (kept : Path → Bool) (h : ¬ p <+: q) :
    (t.prune p kept).node q = t.node q := if_neg fun hq => h hq.1

theorem prune_eq_or (kept : Path → Bool) (q : Path) :
    (t.prune p kept).node q = none ∨ (t.prune p kept).node q = t.node q := by
  show (if _ then none else t.node q) = none ∨ (if _ then none else t.node q) = t.node q
  split
  · exact .inl rfl
  · exact .inr rfl

theorem erase_closed (h : Closed t) (p : Path) : Closed (t.erase p) := by
  intro d n hn
  by_cases hpre : p <+: d ++ [n]
  · rw [erase_inside hpre] at hn
    cases hn
  · rw [erase_outside hpre] at hn
    rw [erase_outside fun hd => hpre (hd.trans (List.prefix_append d [n]))]
    exact h d n hn

theorem prune_closed (h : Closed t) (p : Path) (kept : Path → Bool) : Closed (t.prune p kept) := by
  intro d n hn
  have hleft : ¬ (p <+: d ++ [n] ∧ ∃ r ∈ (d ++ [n]).inits, p <+: r ∧ kept r = false) := by
    intro hgone
    rw [prune] at hn
    simp only [if_pos hgone] at hn
    cases hn
  have hnode : (t.node (d ++ [n])).isSome := by
    rw [prune] at hn
    simpa only [if_neg hleft] using hn
  show (if _ then none else t.node d) = _
  rw [if_neg, h d n hnode]
  rintro ⟨hpd, r, hr, hpr, hkept⟩
  refine hleft ⟨hpd.trans (List.prefix_append d [n]), r, ?_, hpr, hkept⟩
  rw [List.mem_inits] at hr ⊢
  exact hr.trans (List.prefix_append d [n])

theorem put_closed (h : Closed t) (v : Node) (s : Option Name) (hp : t.node p = none)
    (hne : p ≠ []) (hdir : t.node p.dropLast = some .dir) : Closed (t.put p v s) := by
  intro d n hn
  have hd : d ≠ p ∨ ∃ n', (t.node (p ++ [n'])).isSome := by
    rcases eq_or_ne d p with rfl | hd
    · refine .inr ⟨n, ?_⟩
      have hlong : d ++ [n] ≠ d := fun heq => by
        have := congrArg List.length heq
        rw [List.length_append, List.length_singleton] at this
        omega
      rwa [put_of_ne v s hlong] at hn
    · exact .inl hd
  have hd : d ≠ p := by
    rcases hd with hd | ⟨n', hn'⟩
    · exact hd
    · rw [h p n' hn'] at hp
      cases hp
  rw [put_of_ne v s hd]
  rcases eq_or_ne (d ++ [n]) p with rfl | hnp
  · rwa [List.dropLast_concat] at hdir
  · rw [put_of_ne v s hnp] at hn
    exact h d n hn

/-- Contents are changed in place. -/
theorem put_file_closed (h : Closed t) {data data' : Bytes} (hp : t.node p = some (.file data)) :
    Closed (t.put p (.file data') none) := by
  intro d n hn
  have hd : d ≠ p := by
    rintro rfl
    have hlong : d ++ [n] ≠ d := fun heq => by
      have := congrArg List.length heq
      rw [List.length_append, List.length_singleton] at this
      omega
    rw [put_of_ne _ _ hlong] at hn
    rw [h d n hn] at hp
    cases hp
  rw [put_of_ne _ _ hd]
  rcases eq_or_ne (d ++ [n]) p with rfl | hnp
  · exact h d n (by rw [hp]; rfl)
  · rw [put_of_ne _ _ hnp] at hn
    exact h d n hn

theorem move_inside (s : Option Name) (r : Path) (h : q <+: r) :
    (t.move p q s).node r = t.node (p ++ r.drop q.length) := if_pos h

theorem move_of_source (s : Option Name) {r : Path} (h : ¬ q <+: r) (hp : p <+: r) :
    (t.move p q s).node r = none := (if_neg h).trans (if_pos hp)

theorem move_of_neither (s : Option Name) {r : Path} (h : ¬ q <+: r) (hp : ¬ p <+: r) :
    (t.move p q s).node r = t.node r := (if_neg h).trans (if_neg hp)

@[simp] theorem move_self (s : Option Name) : (t.move p q s).node q = t.node p := by
  rw [move_inside s q (List.prefix_refl q), List.drop_length, List.append_nil]

theorem move_closed (h : Closed t) (s : Option Name) (hq : q ≠ [])
    (hdir : t.node q.dropLast = some .dir) (hfar : ¬ p <+: q.dropLast) : Closed (t.move p q s) := by
  intro d n hn
  by_cases hqd : q <+: d
  · rw [move_inside s _ (hqd.trans (List.prefix_append d [n])),
      List.drop_append_of_le_length hqd.length_le, ← List.append_assoc] at hn
    rw [move_inside s _ hqd]
    exact h _ n hn
  · by_cases hqn : q <+: d ++ [n]
    · -- `q` itself: its directory is in place
      have heq : q = d ++ [n] := by
        refine hqn.eq_of_length_le ?_
        by_contra hlt
        exact hqd (List.prefix_of_prefix_length_le hqn (List.prefix_append d [n]) (by
          rw [List.length_append, List.length_singleton] at hlt
          omega))
      subst heq
      rw [List.dropLast_concat] at hdir hfar
      rw [move_of_neither s hqd hfar]
      exact hdir
    · by_cases hpn : p <+: d ++ [n]
      · rw [move_of_source s hqn hpn] at hn
        cases hn
      · rw [move_of_neither s hqn hpn] at hn
        rw [move_of_neither s hqd fun hpd => hpn (hpd.trans (List.prefix_append d [n]))]
        exact h d n hn

/-! ## 5. Calls -/

/-- Why nothing is found at `p`. -/
def missing (t : Tree) (p : Path) : Error :=
  if ∃ d ∈ p.inits, (t.file? d).isSome then .io else .fileNotFound

/-- Recursive removal. A failing one leaves what is `kept`. -/
def remove (t : Tree) (fault : Option (Path → Bool)) (raw : Path) : Except Error Unit × Tree :=
  match fault with
  | some kept => (.error .io, t.prune (t.resolve raw) kept)
  | none =>
    match t.node (t.resolve raw) with
    | none => (.error (t.missing (t.resolve raw)), t)
    | some _ => (.ok (), t.erase (t.resolve raw))

def makeDir (shorts : Path → Option Name) (t : Tree) (p : Path) : Tree :=
  match t.node p with
  | none => t.put p .dir (shorts p)
  | some _ => t

/-- The directories on the way from `d` down a path. -/
def makeDirs (shorts : Path → Option Name) (t : Tree) (d : Path) : Path → Tree
  | [] => t
  | n :: ns => makeDirs shorts (makeDir shorts t (d ++ [n])) (d ++ [n]) ns

/-- The directories above a path are created. A failing call has created the first `made`. -/
def ensureParentDirExists (t : Tree) (fault : Option Nat) (shorts : Path → Option Name)
    (raw : Path) : Except Error Unit × Tree :=
  if ∃ d ∈ (t.resolve raw).dropLast.inits, (t.file? d).isSome then (.error .io, t)
  else
    match fault with
    | some made => (.error .io, makeDirs shorts t [] ((t.resolve raw).dropLast.take made))
    | none => (.ok (), makeDirs shorts t [] (t.resolve raw).dropLast)

/-- Open a file, creating it if nothing is there. The handle is the place of the file. -/
def create (t : Tree) (short : Option Name) (raw : Path) : Except Error Path × Tree :=
  match t.node (t.resolve raw) with
  | some .dir => (.error .io, t)
  | some (.file _) => (.ok (t.resolve raw), t)
  | none =>
    if t.node (t.resolve raw).dropLast = some .dir ∧ t.resolve raw ≠ [] then
      (.ok (t.resolve raw), t.put (t.resolve raw) (.file []) short)
    else (.error (t.missing (t.resolve raw)), t)

/-- Create a directory in one that is there, if its name is free. -/
def createDir (t : Tree) (short : Option Name) (raw : Path) : Tree :=
  if t.node (t.resolve raw) = none ∧ t.node (t.resolve raw).dropLast = some .dir ∧
      t.resolve raw ≠ [] then
    t.put (t.resolve raw) .dir short
  else t

/-- A failing `open_file` may have created the file. -/
def openFile (t : Tree) (fault : Option Bool) (short : Option Name) (raw : Path) :
    Except Error Path × Tree :=
  match fault with
  | none => t.create short raw
  | some true => (.error .io, (t.create short raw).2)
  | some false => (.error .io, t)

/-- `u32::MAX` -/
def MAX_FILE_SIZE : Nat := 4294967295

/-- The bytes of `data` with `chunk` written at `offset`. -/
def overwrite (data : Bytes) (offset : Nat) (chunk : Bytes) : Bytes :=
  data.take offset ++ chunk ++ data.drop (offset + chunk.length)

/-- How much of a chunk is written. -/
def writable (fault : Option Nat) (offset : Nat) (payload : Bytes) : Nat :=
  min (fault.getD payload.length) (MAX_FILE_SIZE - offset)

/-- `write_all` at an offset. What was written before an error stays. -/
def writeAll (t : Tree) (fault : Option Nat) (p : Path) (offset : Nat) (payload : Bytes) :
    Except Error Unit × Tree × Nat :=
  match t.file? p with
  | none => (.error .io, t, offset)
  | some data =>
    (if fault = none ∧ offset + payload.length ≤ MAX_FILE_SIZE then .ok () else .error .io,
      t.put p (.file (overwrite data offset (payload.take (writable fault offset payload)))) none,
      offset + (payload.take (writable fault offset payload)).length)

/-- An entry keeps its contents under another name, which must be free. -/
def moveTo (t : Tree) (short : Option Name) (src dst : Path) : Except Error Unit × Tree :=
  match t.node (t.resolve src), t.node (t.resolve dst) with
  | none, _ => (.error (t.missing (t.resolve src)), t)
  | some _, some _ => (if t.resolve src = t.resolve dst then .ok () else .error .io, t)
  | some _, none =>
    if t.node (t.resolve dst).dropLast = some .dir ∧ t.resolve dst ≠ [] then
      (.ok (), t.move (t.resolve src) (t.resolve dst) short)
    else (.error (t.missing (t.resolve dst)), t)

/-- A failing `rename` may have moved the entry. -/
def rename (t : Tree) (fault : Option Bool) (short : Option Name) (src dst : Path) :
    Except Error Unit × Tree :=
  match fault with
  | none => t.moveTo short src dst
  | some true => (.error .io, (t.moveTo short src dst).2)
  | some false => (.error .io, t)

/-! ## 6. What calls do -/

section Remove

variable {fault : Option (Path → Bool)}

theorem remove_short : (t.remove fault raw).2.short = t.short := by
  unfold remove
  split
  · rfl
  · split <;> rfl

theorem remove_outside (h : ¬ t.resolve raw <+: q) :
    (t.remove fault raw).2.node q = t.node q := by
  unfold remove
  split
  · exact prune_outside _ h
  · split
    · rfl
    · exact erase_outside h

/-- A removal adds nothing. -/
theorem remove_eq_or (t : Tree) (fault : Option (Path → Bool)) (raw q : Path) :
    (t.remove fault raw).2.node q = none ∨ (t.remove fault raw).2.node q = t.node q := by
  by_cases h : t.resolve raw <+: q
  · unfold remove
    split
    · exact prune_eq_or _ q
    · split
      · exact .inr rfl
      · exact .inl (erase_inside h)
  · exact .inr (remove_outside h)

theorem remove_closed (h : Closed t) : Closed (t.remove fault raw).2 := by
  unfold remove
  split
  · exact prune_closed h _ _
  · split
    · exact h
    · exact erase_closed h _

theorem remove_below (fault : Option (Path → Bool)) (hne : t.resolve raw ≠ []) :
    Below (t.resolve raw).dropLast t (t.remove fault raw).2 := by
  refine ⟨fun q hq => remove_outside fun hpre => ?_, fun e _ => by rw [remove_short]⟩
  have heq := hq ((List.dropLast_prefix _).trans hpre)
  have hle := hpre.length_le
  rw [heq, List.length_dropLast] at hle
  have := List.length_pos_iff.2 hne
  omega

/-- After a removal that succeeds, or finds nothing, nothing is there. -/
theorem remove_gone (h : Closed t) (hok : ∀ e, (t.remove fault raw).1 = .error e → e = .fileNotFound)
    (hpre : t.resolve raw <+: q) : (t.remove fault raw).2.node q = none := by
  cases fault with
  | some kept => cases hok _ rfl
  | none =>
    unfold remove
    cases hnode : t.node (t.resolve raw) with
    | none => exact h.none_below hpre hnode
    | some v => exact erase_inside hpre

theorem remove_file? (t : Tree) (fault : Option (Path → Bool)) (raw q : Path) :
    (t.remove fault raw).2.file? q = none ∨ (t.remove fault raw).2.file? q = t.file? q := by
  unfold file?
  rcases remove_eq_or t fault raw q with h | h
  · rw [h]
    exact .inl rfl
  · rw [h]
    exact .inr rfl

end Remove

section Directories

variable (shorts : Path → Option Name)

/-- What `makeDirs` does: directories appear on the way, and nothing else changes. -/
structure MadeDirs (d ns : Path) (t t' : Tree) : Prop where
  closed : Closed t'
  node : ∀ q, t'.node q = t.node q ∨
    t.node q = none ∧ t'.node q = some .dir ∧ q <+: d ++ ns ∧ ¬ q <+: d
  dir : t'.node (d ++ ns) = some .dir

theorem makeDirs_spec {ns : Path} (h : Closed t) (hd : t.node d = some .dir)
    (hfile : ∀ q, q <+: d ++ ns → t.file? q = none) :
    MadeDirs d ns t (makeDirs shorts t d ns) := by
  induction ns generalizing t d with
  | nil => exact ⟨h, fun _ => .inl rfl, by rw [List.append_nil]; exact hd⟩
  | cons n ns ih =>
    have hsplit : d ++ n :: ns = d ++ [n] ++ ns := by rw [List.append_assoc, List.singleton_append]
    have hpre : d ++ [n] <+: d ++ n :: ns := by rw [hsplit]; exact List.prefix_append _ ns
    show MadeDirs d (n :: ns) t (makeDirs shorts (makeDir shorts t (d ++ [n])) (d ++ [n]) ns)
    cases hnode : t.node (d ++ [n]) with
    | some v =>
      have hdir : t.node (d ++ [n]) = some .dir := by
        have hnone := hfile _ hpre
        rw [file?, hnode] at hnone
        cases v with
        | dir => exact hnode
        | file data => cases hnone
      have hmake : makeDir shorts t (d ++ [n]) = t := by simp only [makeDir, hnode]
      rw [hmake]
      obtain ⟨hclosed, hnodes, hlast⟩ := ih h hdir (by rw [← hsplit]; exact hfile)
      rw [← hsplit] at hnodes hlast
      refine ⟨hclosed, fun q => ?_, hlast⟩
      rcases hnodes q with hsame | ⟨hnone, hnew, hq, hnot⟩
      · exact .inl hsame
      · exact .inr ⟨hnone, hnew, hq, fun hqd => hnot (hqd.trans (List.prefix_append d [n]))⟩
    | none =>
      have hmake : makeDir shorts t (d ++ [n]) = t.put (d ++ [n]) .dir (shorts (d ++ [n])) := by
        simp only [makeDir, hnode]
      rw [hmake]
      have hclosed := put_closed h .dir (shorts (d ++ [n])) hnode (by simp)
        (by rw [List.dropLast_concat]; exact hd)
      obtain ⟨hclosed, hnodes, hlast⟩ := ih hclosed (put_self _ _) (by
        intro q hq
        rw [← hsplit] at hq
        rcases eq_or_ne q (d ++ [n]) with rfl | hne
        · rw [file?, put_self]
        · rw [file?, put_of_ne _ _ hne]
          exact hfile q hq)
      rw [← hsplit] at hnodes hlast
      refine ⟨hclosed, fun q => ?_, hlast⟩
      rcases eq_or_ne q (d ++ [n]) with rfl | hne
      · refine .inr ⟨hnode, ?_, hpre, fun hle => ?_⟩
        · rcases hnodes (d ++ [n]) with hsame | ⟨-, hnew, -⟩
          · rw [hsame, put_self]
          · exact hnew
        · have hlength := hle.length_le
          rw [List.length_append, List.length_singleton] at hlength
          omega
      · rcases hnodes q with hsame | ⟨hnone, hnew, hq, hnot⟩
        · rw [put_of_ne _ _ hne] at hsame
          exact .inl hsame
        · rw [put_of_ne _ _ hne] at hnone
          exact .inr ⟨hnone, hnew, hq, fun hqd => hnot (hqd.trans (List.prefix_append d [n]))⟩

/-- Short names are made for the directories that are missing. -/
theorem makeDirs_short {ns e : Path} (he : ∀ n, e ++ [n] <+: d ++ ns → (t.node (e ++ [n])).isSome) :
    (makeDirs shorts t d ns).short e = t.short e := by
  induction ns generalizing t d with
  | nil => rfl
  | cons n ns ih =>
    have hsplit : d ++ n :: ns = d ++ [n] ++ ns := by rw [List.append_assoc, List.singleton_append]
    show (makeDirs shorts (makeDir shorts t (d ++ [n])) (d ++ [n]) ns).short e = _
    cases hnode : t.node (d ++ [n]) with
    | some v =>
      have hmake : makeDir shorts t (d ++ [n]) = t := by simp only [makeDir, hnode]
      rw [hmake]
      exact ih fun m hm => he m (by rw [hsplit]; exact hm)
    | none =>
      have hmake : makeDir shorts t (d ++ [n]) = t.put (d ++ [n]) .dir (shorts (d ++ [n])) := by
        simp only [makeDir, hnode]
      have hed : e ≠ d := by
        rintro rfl
        have hsome := he n (by rw [hsplit]; exact List.prefix_append _ ns)
        rw [hnode] at hsome
        cases hsome
      rw [hmake, ih]
      · unfold put
        split
        · rfl
        · rw [List.dropLast_concat]
          exact Function.update_of_ne hed ..
      · intro m hm
        rw [put_of_ne]
        · exact he m (by rw [hsplit]; exact hm)
        · exact fun heq => hed (List.append_inj_left' heq rfl)

/-- A path is found as before when directories on its way are made. -/
theorem resolve_makeDirs {ns : Path} (h : Closed t) (hroot : t.node [] = some .dir)
    (hns : ns <+: t.resolve raw) (hfile : ∀ q, q <+: [] ++ ns → t.file? q = none) :
    (makeDirs shorts t [] ns).resolve raw = t.resolve raw := by
  have hmade := makeDirs_spec shorts h hroot hfile
  have hmono : ∀ q, (t.node q).isSome → ((makeDirs shorts t [] ns).node q).isSome := by
    intro q hq
    rcases hmade.node q with hsame | ⟨hnone, -⟩
    · rwa [hsame]
    · rw [hnone] at hq
      cases hq
  suffices hfrom : ∀ (ms e : Path), t.resolveFrom e ms = t.resolve raw →
      (makeDirs shorts t [] ns).resolveFrom e ms = t.resolveFrom e ms from hfrom raw [] rfl
  intro ms
  induction ms with
  | nil => exact fun _ _ => rfl
  | cons m ms ih =>
    intro e he
    have hway : e ++ [t.entry e m] <+: t.resolve raw := by
      rw [← he]
      exact prefix_resolveFrom _ ms
    -- what is made in `e` is the entry on the way
    have honly : ∀ k, e ++ [k] <+: ns → k = t.entry e m := by
      intro k hk
      have hlength : (e ++ [k]).length = (e ++ [t.entry e m]).length := by simp
      have heq := List.prefix_of_prefix_length_le (hk.trans hns) hway hlength.le
      exact List.singleton_inj.1 (List.append_cancel_left (heq.eq_of_length hlength))
    have hentry : (makeDirs shorts t [] ns).entry e m = t.entry e m := by
      by_cases hsome : (t.node (e ++ [t.entry e m])).isSome
      · have hshort : (makeDirs shorts t [] ns).short e = t.short e := by
          refine makeDirs_short shorts fun k hk => ?_
          rw [honly k hk]
          exact hsome
        rcases eq_or_ne (t.entry e m) m with heq | hne
        · rw [heq] at hsome ⊢
          exact entry_of_some (hmono _ hsome)
        · have hnone : ((makeDirs shorts t [] ns).node (e ++ [m])).isSome =
              (t.node (e ++ [m])).isSome := by
            rcases hmade.node (e ++ [m]) with hsame | ⟨-, -, hpre, -⟩
            · rw [hsame]
            · exact (hne (honly m hpre).symm).elim
          have hkept : ((makeDirs shorts t [] ns).node (e ++ [t.entry e m])).isSome = true :=
            hmono _ hsome
          revert hkept hsome hne
          unfold entry
          rw [hnone, hshort]
          split
          · exact fun _ hne => (hne rfl).elim
          · split
            · exact fun _ hne => (hne rfl).elim
            next k _ =>
              split
              next hk =>
                intro _ _ hkept
                rw [if_pos hkept]
              next => exact fun _ hne => (hne rfl).elim
      · have hnone : t.node (e ++ [t.entry e m]) = none := by
          rwa [Option.not_isSome_iff_eq_none] at hsome
        have heq := entry_of_none hnone
        rw [heq] at hnone ⊢
        by_cases hnew : ((makeDirs shorts t [] ns).node (e ++ [m])).isSome
        · exact entry_of_some hnew
        · -- nothing is made in `e`
          have hno : ∀ k, ¬ e ++ [k] <+: ns := by
            intro k hk
            have hkm := honly k hk
            rw [heq] at hkm
            subst hkm
            have hdir := hmade.dir
            rw [List.nil_append] at hdir
            rcases eq_or_ne (e ++ [k]) ns with heq' | hne
            · rw [heq', hdir] at hnew
              exact hnew rfl
            · rw [hmade.closed.dir_above hk hne (by rw [hdir]; rfl)] at hnew
              exact hnew rfl
          have hshort : (makeDirs shorts t [] ns).short e = t.short e :=
            makeDirs_short shorts fun k hk => (hno k hk).elim
          have hnode : ∀ k, (makeDirs shorts t [] ns).node (e ++ [k]) = t.node (e ++ [k]) := by
            intro k
            rcases hmade.node (e ++ [k]) with hsame | ⟨-, -, hpre, -⟩
            · exact hsame
            · exact (hno k hpre).elim
          have hsame : (makeDirs shorts t [] ns).entry e m = t.entry e m := by
            unfold entry
            simp only [hnode, hshort]
          exact hsame.trans heq
    rw [resolveFrom_cons, resolveFrom_cons, hentry]
    exact ih _ he

/-- What `ensure_parent_dir_exists` does, whether it fails or not. -/
structure Prepared (raw : Path) (t t' : Tree) : Prop where
  closed : Closed t'
  node : ∀ q, t'.node q = t.node q ∨
    t.node q = none ∧ t'.node q = some .dir ∧ q <+: (t.resolve raw).dropLast
  resolve : t'.resolve raw = t.resolve raw
  short : t'.short (t.resolve raw).dropLast = t.short (t.resolve raw).dropLast

theorem Prepared.file? (h : Prepared raw t t') (q : Path) : t'.file? q = t.file? q := by
  unfold Tree.file?
  rcases h.node q with hsame | ⟨hnone, hnew, -⟩
  · rw [hsame]
  · rw [hnone, hnew]

theorem makeDirs_prepared {ns : Path} (h : Closed t) (hroot : t.node [] = some .dir)
    (hns : ns <+: (t.resolve raw).dropLast) (hfile : ∀ q, q <+: [] ++ ns → t.file? q = none) :
    Prepared raw t (makeDirs shorts t [] ns) := by
  have hmade := makeDirs_spec shorts h hroot hfile
  refine ⟨hmade.closed, fun q => ?_, ?_, ?_⟩
  · rcases hmade.node q with hsame | ⟨hnone, hnew, hpre, -⟩
    · exact .inl hsame
    · exact .inr ⟨hnone, hnew, hpre.trans hns⟩
  · exact resolve_makeDirs shorts h hroot (hns.trans (List.dropLast_prefix _)) hfile
  · refine makeDirs_short shorts fun n hn => ?_
    have hle := (hn.trans hns).length_le
    rw [List.length_append, List.length_singleton] at hle
    omega

theorem ensureParentDirExists_spec (fault : Option Nat) (raw : Path) (h : Closed t)
    (hroot : t.node [] = some .dir) :
    Prepared raw t (t.ensureParentDirExists fault shorts raw).2 ∧
      ((t.ensureParentDirExists fault shorts raw).1 = .ok () →
        (t.ensureParentDirExists fault shorts raw).2.node (t.resolve raw).dropLast = some .dir) := by
  unfold ensureParentDirExists
  split
  next => exact ⟨⟨h, fun _ => .inl rfl, rfl, rfl⟩, nofun⟩
  next hno =>
    have hfile : ∀ ns, ns <+: (t.resolve raw).dropLast → ∀ q, q <+: [] ++ ns → t.file? q = none := by
      intro ns hns q hq
      rw [List.nil_append] at hq
      by_contra hsome
      exact hno ⟨q, (List.mem_inits _ _).2 (hq.trans hns), Option.ne_none_iff_isSome.1 hsome⟩
    split
    next made =>
      have hns := List.take_prefix made (t.resolve raw).dropLast
      exact ⟨makeDirs_prepared shorts h hroot hns (hfile _ hns), nofun⟩
    next =>
      have hns := List.prefix_refl (t.resolve raw).dropLast
      exact ⟨makeDirs_prepared shorts h hroot hns (hfile _ hns),
        fun _ => (makeDirs_spec shorts h hroot (hfile _ hns)).dir⟩

end Directories

section Files

variable (short : Option Name)

/-- Either nothing changes, or an empty file appears at a place that was free. -/
theorem create_eq_or (t : Tree) (raw : Path) :
    (t.create short raw).2 = t ∨
      t.node (t.resolve raw) = none ∧ t.node (t.resolve raw).dropLast = some .dir ∧
        t.resolve raw ≠ [] ∧
        t.create short raw = (.ok (t.resolve raw), t.put (t.resolve raw) (.file []) short) := by
  unfold create
  split
  · exact .inl rfl
  · exact .inl rfl
  next hnone =>
    split
    next h => exact .inr ⟨hnone, h.1, h.2, rfl⟩
    next => exact .inl rfl

theorem create_closed (h : Closed t) : Closed (t.create short raw).2 := by
  rcases create_eq_or short t raw with heq | ⟨hnone, hdir, hne, heq⟩
  · rw [heq]
    exact h
  · rw [heq]
    exact put_closed h _ _ hnone hne hdir

theorem put_below (v : Node) (hne : p ≠ []) : Below p.dropLast t (t.put p v short) := by
  refine ⟨fun q hq => put_of_ne v short fun heq => ?_, fun e he => ?_⟩
  · subst heq
    have hlength := congrArg List.length (hq (List.dropLast_prefix q))
    rw [List.length_dropLast] at hlength
    have := List.length_pos_iff.2 hne
    omega
  · unfold put
    split
    · rfl
    · exact Function.update_of_ne (fun heq : e = _ => he (heq ▸ List.prefix_refl _)) ..

/-- A tree with entries at the same places and the same short names finds the same places. -/
theorem resolve_congr (hnode : ∀ q, (t'.node q).isSome = (t.node q).isSome)
    (hshort : t'.short = t.short) (raw : Path) : t'.resolve raw = t.resolve raw := by
  suffices hfrom : ∀ d : Path, t'.resolveFrom d raw = t.resolveFrom d raw from hfrom []
  induction raw with
  | nil => exact fun _ => rfl
  | cons n ns ih =>
    intro d
    have hentry : t'.entry d n = t.entry d n := by
      unfold entry
      simp only [hnode, hshort]
    rw [resolveFrom_cons, resolveFrom_cons, hentry]
    exact ih _

/-- What is put where a path is found, at a free place, is found there. -/
theorem resolve_put (v : Node) (hnone : t.node (t.resolve raw) = none) (hne : raw ≠ []) :
    (t.put (t.resolve raw) v short).resolve raw = t.resolve raw := by
  obtain ⟨d, n, rfl⟩ : ∃ d n, raw = d ++ [n] :=
    ⟨_, _, (List.dropLast_append_getLast hne).symm⟩
  rw [resolve_concat] at hnone ⊢
  have hentry := entry_of_none hnone
  have hbelow := put_below short (t := t) (p := t.resolve d ++ [t.entry (t.resolve d) n]) v
    (by simp)
  rw [List.dropLast_concat] at hbelow
  rw [resolve_concat, hbelow.resolve, hentry, entry_of_some]
  rw [put_self]
  rfl

/-- Contents that change in place change no place. -/
theorem resolve_put_file {data data' : Bytes} (hp : t.node p = some (.file data)) (raw : Path) :
    (t.put p (.file data') none).resolve raw = t.resolve raw := by
  have hnode : ∀ q, ((t.put p (.file data') none).node q).isSome = (t.node q).isSome := by
    intro q
    rcases eq_or_ne q p with rfl | hne
    · rw [put_self, hp]
      rfl
    · rw [put_of_ne _ _ hne]
  exact resolve_congr hnode rfl raw

theorem openFile_eq_or (t : Tree) (fault : Option Bool) (raw : Path) :
    (t.openFile fault short raw).2 = t ∨ (t.openFile fault short raw).2 = (t.create short raw).2 := by
  unfold openFile
  split
  · exact .inr rfl
  · exact .inr rfl
  · exact .inl rfl

/-- Writing changes the contents of one file. -/
theorem writeAll_eq_or (t : Tree) (fault : Option Nat) (p : Path) (offset : Nat) (payload : Bytes) :
    (t.writeAll fault p offset payload).2.1 = t ∨
      ∃ data data', t.node p = some (.file data) ∧
        (t.writeAll fault p offset payload).2.1 = t.put p (.file data') none := by
  unfold writeAll
  split
  · exact .inl rfl
  next data hfile =>
    refine .inr ⟨data, _, ?_, rfl⟩
    unfold file? at hfile
    split at hfile
    next d hnode => rw [hnode, Option.some.inj hfile]
    next => cases hfile

/-- Either nothing changes, or what is at the source moves to a place that was free. -/
theorem moveTo_eq_or (t : Tree) (src dst : Path) :
    (t.moveTo short src dst).2 = t ∨
      (t.node (t.resolve src)).isSome ∧ t.node (t.resolve dst) = none ∧
        t.node (t.resolve dst).dropLast = some .dir ∧ t.resolve dst ≠ [] ∧
        t.moveTo short src dst = (.ok (), t.move (t.resolve src) (t.resolve dst) short) := by
  unfold moveTo
  split
  · exact .inl rfl
  · exact .inl rfl
  next v hsrc hdst =>
    split
    next h => exact .inr ⟨by rw [hsrc]; rfl, hdst, h.1, h.2, rfl⟩
    next => exact .inl rfl

/-- An entry that moves within a directory changes nothing above it. -/
theorem move_below (hp : p ≠ []) (hq : q ≠ []) (hdir : p.dropLast = q.dropLast) :
    Below q.dropLast t (t.move p q short) := by
  have hbelow : ∀ r : Path, r ≠ [] → ∀ e, (r.dropLast <+: e → e = r.dropLast) → ¬ r <+: e := by
    intro r hr e he hpre
    have heq := he ((List.dropLast_prefix r).trans hpre)
    have hle := hpre.length_le
    rw [heq, List.length_dropLast] at hle
    have := List.length_pos_iff.2 hr
    omega
  refine ⟨fun e he => move_of_neither short (hbelow q hq e he) (hbelow p hp e (hdir ▸ he)), ?_⟩
  intro e he
  have hne : e ≠ q.dropLast := fun heq => he (heq ▸ List.prefix_refl _)
  have hnq : ¬ q <+: e := fun hpre => he ((List.dropLast_prefix q).trans hpre)
  funext n
  show (if q <+: e then _ else if e = q.dropLast ∧ short = some n then _ else _) = _
  rw [if_neg hnq, if_neg fun h => hne h.1]

theorem rename_eq_or (t : Tree) (fault : Option Bool) (src dst : Path) :
    (t.rename fault short src dst).2 = t ∨
      (t.rename fault short src dst).2 = (t.moveTo short src dst).2 := by
  unfold rename
  split
  · exact .inr rfl
  · exact .inr rfl
  · exact .inl rfl

/-- A rename that succeeds moves the entry, or finds it in place already. -/
theorem rename_ok {fault : Option Bool} {src dst : Path}
    (h : (t.rename fault short src dst).1 = .ok ()) :
    (t.resolve src = t.resolve dst ∧ (t.node (t.resolve dst)).isSome ∧
        (t.rename fault short src dst).2 = t) ∨
      (t.node (t.resolve dst) = none ∧ (t.node (t.resolve src)).isSome ∧ fault = none ∧
        (t.rename fault short src dst).2 = t.move (t.resolve src) (t.resolve dst) short) := by
  cases fault with
  | some done => cases done <;> cases h
  | none =>
    rw [rename] at h ⊢
    unfold moveTo at h ⊢
    cases hsrc : t.node (t.resolve src) with
    | none =>
      rw [hsrc] at h
      cases h
    | some v =>
      cases hdst : t.node (t.resolve dst) with
      | some w =>
        rw [hsrc, hdst] at h
        by_cases heq : t.resolve src = t.resolve dst
        · exact .inl ⟨heq, rfl, rfl⟩
        · rw [if_neg heq] at h
          cases h
      | none =>
        rw [hsrc, hdst] at h
        dsimp only at h ⊢
        split at h
        next hfree => exact .inr ⟨rfl, rfl, rfl, by rw [if_pos hfree]⟩
        next => cases h

end Files

end Tree

end FatTree
