import KeyOS.Recovery.Worker

/-!
# What calls change

Each call changes files below the place of its path only, and adds no file but the one it writes.
-/

namespace Recovery

open FatTree

/-! ## 1. One partition -/

/-- Closed trees stay closed, and files outside `S` as they are. -/
structure Kept (S : Path → Prop) (t t' : Tree) : Prop where
  closed : t.Closed → t'.Closed
  root : t.node [] = some .dir → t'.node [] = some .dir
  files : ∀ q, ¬ S q → t'.file? q = t.file? q

/-- Every file was there, or is admitted by `V`. -/
def Within (V : Path → Bytes → Prop) (t t' : Tree) : Prop :=
  ∀ q data, t'.file? q = some data → t.file? q = some data ∨ V q data

section

variable {S U : Path → Prop} {V : Path → Bytes → Prop} {t t' t'' : Tree} {raw : Path}

theorem Kept.refl (S : Path → Prop) (t : Tree) : Kept S t t := ⟨id, id, fun _ _ => rfl⟩

theorem Kept.trans (h : Kept S t t') (h' : Kept S t' t'') : Kept S t t'' :=
  ⟨fun hc => h'.closed (h.closed hc), fun hr => h'.root (h.root hr),
    fun q hq => (h'.files q hq).trans (h.files q hq)⟩

theorem Kept.mono (h : Kept S t t') (hS : ∀ q, S q → U q) : Kept U t t' :=
  ⟨h.closed, h.root, fun q hq => h.files q fun hs => hq (hS q hs)⟩

theorem Within.refl (V : Path → Bytes → Prop) (t : Tree) : Within V t t := fun _ _ => .inl

theorem Within.trans (h : Within V t t') (h' : Within V t' t'') : Within V t t'' := by
  intro q data hq
  rcases h' q data hq with hq | hv
  · exact h q data hq
  · exact .inr hv

theorem file?_congr {q : Path} (h : t'.node q = t.node q) : t'.file? q = t.file? q := by
  rw [Tree.file?, h, Tree.file?]

theorem node_of_file? {q : Path} {data : Bytes} (h : t.file? q = some data) :
    t.node q = some (.file data) := by
  rw [Tree.file?] at h
  split at h
  next hnode => rw [hnode, Option.some.inj h]
  next => cases h

theorem remove_kept (fault : Option (Path → Bool)) (hraw : raw ≠ [])
    (hS : ∀ q, t.resolve raw <+: q → S q) : Kept S t (t.remove fault raw).2 := by
  refine ⟨Tree.remove_closed, fun hroot => ?_, fun q hq =>
    file?_congr (Tree.remove_outside fun h => hq (hS q h))⟩
  rw [Tree.remove_outside, hroot]
  intro hpre
  have hlength := congrArg List.length (List.prefix_nil.1 hpre)
  rw [Tree.resolve, Tree.length_resolveFrom] at hlength
  exact hraw (List.eq_nil_of_length_eq_zero (by simpa using hlength))

theorem remove_within (fault : Option (Path → Bool)) (raw : Path) :
    Within V t (t.remove fault raw).2 := by
  intro q data hq
  rcases Tree.remove_file? t fault raw q with h | h
  · rw [h] at hq
    cases hq
  · exact .inl (by rwa [h] at hq)

theorem createDir_kept (S : Path → Prop) (t : Tree) (short : Option Name) (raw : Path) :
    Kept S t (t.createDir short raw) := by
  unfold Tree.createDir
  split
  next hfree =>
    obtain ⟨hnone, hdir, hne⟩ := hfree
    have hfile : ∀ q, (t.put (t.resolve raw) .dir short).file? q = t.file? q := by
      intro q
      rcases eq_or_ne q (t.resolve raw) with rfl | hq
      · rw [Tree.file?, Tree.put_self, Tree.file?, hnone]
      · exact file?_congr (Tree.put_of_ne _ _ hq)
    exact ⟨fun hc => Tree.put_closed hc _ _ hnone hne hdir,
      fun hroot => by rw [Tree.put_of_ne _ _ hne.symm, hroot], fun q _ => hfile q⟩
  next => exact .refl S t

theorem createDirAllFrom_kept (S : Path → Prop) (f : DirFaults) (t : Tree) (dir parts : Path) :
    Kept S t (createDirAllFrom f t dir parts) := by
  induction parts generalizing t dir with
  | nil => exact .refl S t
  | cons part parts ih =>
    unfold createDirAllFrom
    refine Kept.trans ?_ (ih _ _)
    split
    · exact .refl S t
    · exact createDir_kept S t _ _

/-- No file changes when directories are created. -/
theorem createDirAll_kept (S : Path → Prop) (f : DirFaults) (t : Tree) (path : Path) :
    Kept S t (createDirAll f path t) := createDirAllFrom_kept S f t [] path

theorem Kept.within (h : Kept (fun _ => False) t t') : Within V t t' :=
  fun q _ hq => .inl (by rwa [h.files q id] at hq)

/-! ## 2. Files that are written -/

/-- The calls on a file change the file where its path is found. -/
structure AtPlace (raw : Path) (t t' : Tree) : Prop where
  closed : t.Closed → t'.Closed
  root : t.node [] = some .dir → t'.node [] = some .dir
  others : ∀ q, q ≠ t.resolve raw → t'.node q = t.node q
  resolve : t'.resolve raw = t.resolve raw

theorem AtPlace.refl (raw : Path) (t : Tree) : AtPlace raw t t := ⟨id, id, fun _ _ => rfl, rfl⟩

theorem AtPlace.trans (h : AtPlace raw t t') (h' : AtPlace raw t' t'') : AtPlace raw t t'' :=
  ⟨fun hc => h'.closed (h.closed hc), fun hr => h'.root (h.root hr),
    fun q hq => (h'.others q (h.resolve ▸ hq)).trans (h.others q hq), h'.resolve.trans h.resolve⟩

theorem AtPlace.kept (h : AtPlace raw t t') (hS : S (t.resolve raw)) : Kept S t t' :=
  ⟨h.closed, h.root, fun q hq => file?_congr (h.others q fun heq => hq (heq ▸ hS))⟩

theorem create_atPlace (short : Option Name) (hraw : raw ≠ []) :
    AtPlace raw t (t.create short raw).2 := by
  rcases Tree.create_eq_or short t raw with heq | ⟨hnone, hdir, hne, heq⟩
  · rw [heq]
    exact .refl raw t
  · rw [heq]
    exact ⟨fun hc => Tree.put_closed hc _ _ hnone hne hdir,
      fun hroot => by rw [Tree.put_of_ne _ _ hne.symm, hroot],
      fun q hq => Tree.put_of_ne _ _ hq, Tree.resolve_put _ _ hnone hraw⟩

theorem openFile_atPlace (fault : Option Bool) (short : Option Name) (hraw : raw ≠ []) :
    AtPlace raw t (t.openFile fault short raw).2 := by
  rcases Tree.openFile_eq_or short t fault raw with h | h
  · rw [h]
    exact .refl raw t
  · rw [h]
    exact create_atPlace short hraw

/-- A file that is open is where its path is found. -/
theorem openFile_place {fault : Option Bool} {short : Option Name} {file : Path}
    (h : t.openFile fault short raw = (.ok file, t')) :
    file = t.resolve raw ∧ ∃ data, t'.file? file = some data := by
  unfold Tree.openFile at h
  split at h
  · unfold Tree.create at h
    split at h
    · cases h
    next data hnode =>
      cases h
      exact ⟨rfl, data, by rw [Tree.file?, hnode]⟩
    · split at h
      · cases h
        exact ⟨rfl, [], by rw [Tree.file?, Tree.put_self]⟩
      · cases h
  · cases h
  · cases h

theorem put_file_atPlace {data data' : Bytes} (h : t.file? (t.resolve raw) = some data) :
    AtPlace raw t (t.put (t.resolve raw) (.file data') none) := by
  have hnode := node_of_file? h
  refine ⟨fun hc => Tree.put_file_closed hc hnode, fun hroot => ?_,
    fun q hq => Tree.put_of_ne _ _ hq, Tree.resolve_put_file hnode raw⟩
  rw [Tree.put_of_ne, hroot]
  intro heq
  rw [← heq, hroot] at hnode
  cases hnode

theorem writeAll_atPlace (fault : Option Nat) (offset : Nat) (payload : Bytes) :
    AtPlace raw t (t.writeAll fault (t.resolve raw) offset payload).2.1 := by
  unfold Tree.writeAll
  split
  next => exact .refl raw t
  next data h => exact put_file_atPlace h

theorem writeFile_atPlace (f : WriteFaults) (payload : Bytes) (hraw : raw ≠ []) :
    AtPlace raw t (writeFile f raw payload t).2 := by
  have hopen := openFile_atPlace (t := t) f.openFile f.short hraw
  unfold writeFile
  split
  next heq =>
    rw [heq] at hopen
    exact hopen
  next file t₁ heq =>
    rw [heq] at hopen
    obtain ⟨rfl, -⟩ := openFile_place heq
    have hwrite := hopen.trans (writeAll_atPlace f.write 0 payload)
    rw [hopen.resolve] at hwrite
    split
    next heq' =>
      rw [heq'] at hwrite
      exact hwrite
    next t₂ offset heq' =>
      rw [heq'] at hwrite
      split
      next => exact hwrite
      next =>
        split
        next => exact hwrite
        next data hdata =>
          have hput : AtPlace raw t₂ (t₂.put (t₂.resolve raw) (.file (data.take offset)) none) :=
            put_file_atPlace (by rw [hwrite.resolve]; exact hdata)
          rw [hwrite.resolve] at hput
          exact hwrite.trans hput

/-- A file that is written holds what was written. -/
theorem writeFile_holds {f : WriteFaults} {payload : Bytes}
    (h : writeFile f raw payload t = (true, t')) : t'.file? (t.resolve raw) = some payload := by
  unfold writeFile at h
  split at h
  next => cases h
  next file t₁ heq =>
    obtain ⟨rfl, data, hdata⟩ := openFile_place heq
    split at h
    next => cases h
    next t₂ offset hwrite =>
      split at h
      next => cases h
      next =>
        split at h
        next => cases h
        next held hheld =>
          cases h
          unfold Tree.writeAll at hwrite
          rw [hdata] at hwrite
          dsimp only at hwrite
          split at hwrite
          next hok =>
            obtain ⟨hnone, hle⟩ := hok
            cases hwrite
            have hall : Tree.writable f.write 0 payload = payload.length := by
              unfold Tree.writable
              rw [hnone, Option.getD_none]
              omega
            rw [Tree.file?, Tree.put_self] at hheld ⊢
            dsimp only at hheld ⊢
            cases hheld
            rw [hall, List.take_length, Nat.zero_add, Tree.overwrite, List.take_zero,
              List.nil_append, List.take_left]
          next => cases hwrite

/-! ## 3. Names without a short form -/

/-- A path that stands for itself. -/
def Plain (p : Path) : Prop := ∀ n ∈ p, '~' ∉ n

theorem Plain.resolve (h : Plain raw) (t : Tree) : t.resolve raw = raw := Tree.resolve_plain h

theorem Plain.prefix_resolve {p : Path} (h : Plain p) (hpre : p <+: raw) (t : Tree) :
    p <+: t.resolve raw := by
  obtain ⟨ns, rfl⟩ := hpre
  rw [Tree.resolve_append, h.resolve]
  exact Tree.prefix_resolveFrom _ ns

theorem rename_kept (fault : Option Bool) (short : Option Name) {src dst : Path} (hsrc : Plain src)
    (hdst : Plain dst) (hlength : src.length = dst.length) (hne : dst ≠ [])
    (hS : ∀ q, src <+: q ∨ dst <+: q → S q) : Kept S t (t.rename fault short src dst).2 := by
  suffices hmove : Kept S t (t.moveTo short src dst).2 by
    rcases Tree.rename_eq_or short t fault src dst with h | h
    · rw [h]
      exact .refl S t
    · rw [h]
      exact hmove
  have hempty : ∀ p : Path, p.length = dst.length → ¬ p <+: [] := by
    intro p hp hpre
    rw [List.prefix_nil.1 hpre] at hp
    exact hne (List.eq_nil_of_length_eq_zero hp.symm)
  rcases Tree.moveTo_eq_or short t src dst with h | ⟨-, -, hdir, -, h⟩
  · rw [h]
    exact .refl S t
  · rw [h]
    rw [hdst.resolve] at hdir ⊢
    rw [hsrc.resolve]
    refine ⟨fun hc => Tree.move_closed hc short hne hdir fun hpre => ?_, fun hroot => ?_, fun q hq =>
      file?_congr (Tree.move_of_neither short (fun h => hq (hS q (.inr h)))
        fun h => hq (hS q (.inl h)))⟩
    · have hle := hpre.length_le
      have hpos := List.length_pos_iff.2 hne
      rw [List.length_dropLast] at hle
      omega
    · rw [Tree.move_of_neither short (hempty dst rfl) (hempty src hlength), hroot]

/-- A rename of a file to a place that is not its own moves it. -/
theorem rename_moves {fault : Option Bool} {short : Option Name} {src dst : Path} {data : Bytes}
    (hsrc : Plain src) (hdst : Plain dst) (hne : src ≠ dst) (hfile : t.file? src = some data)
    (h : t.rename fault short src dst = (.ok (), t')) : t'.file? dst = some data := by
  have hok : (t.rename fault short src dst).1 = .ok () := by rw [h]
  rcases Tree.rename_ok short hok with ⟨heq, -⟩ | ⟨-, -, -, hmove⟩
  · rw [hsrc.resolve, hdst.resolve] at heq
    exact (hne heq).elim
  · rw [h, hsrc.resolve, hdst.resolve] at hmove
    dsimp only at hmove
    rw [hmove, Tree.file?, Tree.move_self, ← Tree.file?, hfile]

theorem marker_plain : Plain UPDATE_STATE_INVALIDATED_MARKER_PATH := by
  unfold Plain
  decide

theorem markUpdateStateInvalidated_kept (f : MarkerFaults) (hc : t.Closed)
    (hroot : t.node [] = some .dir)
    (hS : ∀ q, UPDATE_STATE_INVALIDATED_MARKER_PATH <+: q → S q) :
    Kept S t (markUpdateStateInvalidated f t).2 := by
  obtain ⟨hprepared, -⟩ := Tree.ensureParentDirExists_spec f.dirShorts f.parents
    UPDATE_STATE_INVALIDATED_MARKER_PATH hc hroot
  have hparents : Kept S t (t.ensureParentDirExists f.parents f.dirShorts
      UPDATE_STATE_INVALIDATED_MARKER_PATH).2 := by
    refine ⟨fun _ => hprepared.closed, fun _ => ?_, fun q _ => hprepared.file? q⟩
    rcases hprepared.node [] with h | ⟨h, -⟩
    · rw [h, hroot]
    · rw [hroot] at h
      cases h
  have hself := hS _ (List.prefix_refl _)
  unfold markUpdateStateInvalidated
  split
  next heq =>
    rw [heq] at hparents
    exact hparents
  next t₁ heq =>
    rw [heq] at hparents
    have hopen : AtPlace UPDATE_STATE_INVALIDATED_MARKER_PATH t₁
        (t₁.openFile f.openFile f.short UPDATE_STATE_INVALIDATED_MARKER_PATH).2 :=
      openFile_atPlace f.openFile f.short (by decide)
    split
    next heq' =>
      rw [heq'] at hopen
      exact hparents.trans (hopen.kept (by rwa [marker_plain.resolve]))
    next file t₂ heq' =>
      rw [heq'] at hopen
      obtain ⟨rfl, -⟩ := openFile_place heq'
      have hwrite := hopen.trans (writeAll_atPlace f.write 0 MARK)
      rw [hopen.resolve] at hwrite
      have hkept := hparents.trans (hwrite.kept (by rwa [marker_plain.resolve]))
      split
      next heq'' => rw [heq''] at hkept; exact hkept
      next heq'' => rw [heq''] at hkept; exact hkept

end

/-! ## 4. Two partitions -/

@[simp] theorem Disk.at_set_self (d : Disk) (l : Location) (t : Tree) : (d.set l t).at l = t := by
  cases l <;> rfl

theorem Disk.at_set_of_ne (d : Disk) {l l' : Location} (t : Tree) (h : l' ≠ l) :
    (d.set l t).at l' = d.at l' := by
  cases l <;> cases l' <;> first | rfl | exact (h rfl).elim

/-- Both trees are closed, and there. -/
structure Mounted (d : Disk) : Prop where
  closed : ∀ l, (d.at l).Closed
  root : ∀ l, (d.at l).node [] = some .dir

/-- Files change at places of `S` only. -/
def Confined (S : Location → Path → Prop) (d d' : Disk) : Prop :=
  ∀ l, Kept (S l) (d.at l) (d'.at l)

section

variable {S U : Location → Path → Prop} {d d' d'' : Disk} {l : Location} {t : Tree}

theorem Confined.refl (S : Location → Path → Prop) (d : Disk) : Confined S d d :=
  fun l => .refl (S l) _

theorem Confined.trans (h : Confined S d d') (h' : Confined S d' d'') : Confined S d d'' :=
  fun l => (h l).trans (h' l)

theorem Confined.mono (h : Confined S d d') (hS : ∀ l q, S l q → U l q) : Confined U d d' :=
  fun l => (h l).mono (hS l)

theorem Confined.set (h : Kept (S l) (d.at l) t) : Confined S d (d.set l t) := by
  intro l'
  rcases eq_or_ne l' l with rfl | hne
  · rwa [Disk.at_set_self]
  · rw [Disk.at_set_of_ne _ _ hne]
    exact .refl _ _

theorem Confined.mounted (h : Confined S d d') (hd : Mounted d) : Mounted d' :=
  ⟨fun l => (h l).closed (hd.closed l), fun l => (h l).root (hd.root l)⟩

theorem Confined.file? (h : Confined S d d') {q : Path} (hq : ¬ S l q) :
    (d'.at l).file? q = (d.at l).file? q := (h l).files q hq

end

end Recovery
