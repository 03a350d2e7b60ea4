import KeyOS.Recovery.Targets

/-!
# What recovery leaves in the directories

A file that is written is read back and checked, so a run through the apps and assets that
succeeds adds listed files only. Directories that were wiped hold nothing else.
-/

namespace Recovery

open FatTree

variable (P : Platform)

/-! ## 1. Listed files -/

/-- `q` is a place that `raw` can name: a part that is no short name is as it is. -/
def Spelled (raw q : Path) : Prop := List.Forall₂ (fun n k => '~' ∉ n → k = n) raw q

theorem resolve_spelled (t : Tree) (raw : Path) : Spelled raw (t.resolve raw) := by
  suffices hfrom : ∀ d : Path, ∃ q, t.resolveFrom d raw = d ++ q ∧ Spelled raw q by
    obtain ⟨q, hq, hspelled⟩ := hfrom []
    rwa [Tree.resolve, hq, List.nil_append]
  induction raw with
  | nil => exact fun d => ⟨[], (List.append_nil d).symm, .nil⟩
  | cons n ns ih =>
    intro d
    obtain ⟨q, hq, hspelled⟩ := ih (d ++ [t.entry d n])
    refine ⟨t.entry d n :: q, ?_, .cons (fun hn => Tree.entry_of_not_mem hn) hspelled⟩
    rw [Tree.resolveFrom_cons, hq, List.append_assoc, List.singleton_append]

/-- A file of an app or an asset at its place, with the hash that the manifest lists for it. -/
def Vouched (v : ValidArchive) (l : Location) (q : Path) (data : Bytes) : Prop :=
  (l = .system ∧ ∃ app ∈ v.apps, ∃ dir, appTarPathToFsDir app = some dir ∧
    (Spelled (fsPath P (elfPath dir)) q ∧ elfListed P v.manifest (elfPath app) data = true ∨
      Spelled (fsPath P (appManifestPath dir)) q ∧
        fileListed P v.manifest (appManifestPath app) data = true)) ∨
  ∃ asset, (asset, l) ∈ v.assets ∧ Spelled (fsPath P (assetTarPathToFsPath asset l)) q ∧
    fileListed P v.manifest asset data = true

/-- Every file was there, or is admitted by `V`. -/
def Admits (V : Location → Path → Bytes → Prop) (d d' : Disk) : Prop :=
  ∀ l, Within (V l) (d.at l) (d'.at l)

section

variable {P} {V : Location → Path → Bytes → Prop} {S : Location → Path → Prop} {d d' d'' : Disk}
  {l : Location} {t t' : Tree} {path : Path} {payload : Bytes} {check : Bytes → Bool}
  {v : ValidArchive}

theorem Admits.refl (V : Location → Path → Bytes → Prop) (d : Disk) : Admits V d d :=
  fun l => .refl (V l) _

theorem Admits.trans (h : Admits V d d') (h' : Admits V d' d'') : Admits V d d'' :=
  fun l => (h l).trans (h' l)

theorem Admits.set (h : Within (V l) (d.at l) t) : Admits V d (d.set l t) := by
  intro l'
  rcases eq_or_ne l' l with rfl | hne
  · rwa [Disk.at_set_self]
  · rw [Disk.at_set_of_ne _ _ hne]
    exact .refl _ _

/-! ## 2. One file -/

theorem writeChecked_snd (f : FileFaults) (path : Path) (payload : Bytes) (check : Bytes → Bool)
    (t : Tree) : (writeChecked f path payload check t).2 = (writeFile f.write path payload t).2 := by
  unfold writeChecked
  split
  next h => rw [h]
  next h =>
    rw [h]
    split <;> rfl

/-- What was written was read back, and checked. -/
theorem writeChecked_ok {f : FileFaults} (hpath : path ≠ [])
    (h : writeChecked f path payload check t = (true, t')) :
    writeFile f.write path payload t = (true, t') ∧ check payload = true := by
  unfold writeChecked at h
  split at h
  next => cases h
  next t₁ hwrite =>
    split at h
    next => cases h
    next data hread =>
      rw [Prod.mk.injEq, Bool.and_eq_true] at h
      obtain ⟨⟨-, hcheck⟩, rfl⟩ := h
      refine ⟨hwrite, ?_⟩
      have hplace := writeFile_atPlace (t := t) f.write payload hpath
      rw [hwrite] at hplace
      unfold readFile at hread
      split at hread
      · cases hread
      · rw [hplace.resolve, writeFile_holds hwrite] at hread
        rwa [Option.some.inj hread]

theorem copyFile_confined {f : FileFaults} {prepare : Tree → Tree} (hpath : path ≠ [])
    (hprepare : Kept (S l) (d.at l) (prepare (d.at l))) (hplace : ∀ t : Tree, S l (t.resolve path)) :
    Confined S d (copyFile f l check prepare path payload d).2 := by
  have hwrite : Kept (S l) (d.at l)
      (writeChecked f path payload check (prepare (d.at l))).2 := by
    rw [writeChecked_snd]
    exact hprepare.trans ((writeFile_atPlace _ _ hpath).kept (hplace _))
  exact Confined.set hwrite

/-- The file that is added passes its check. -/
theorem copyFile_admits {f : FileFaults} {prepare : Tree → Tree} (hpath : path ≠ [])
    (hprepare : Within (V l) (d.at l) (prepare (d.at l)))
    (hV : ∀ t : Tree, check payload = true → V l (t.resolve path) payload)
    (h : copyFile f l check prepare path payload d = (true, d')) : Admits V d d' := by
  unfold copyFile at h
  split at h
  next copied t₁ heq =>
    rw [Prod.mk.injEq] at h
    obtain ⟨rfl, rfl⟩ := h
    obtain ⟨hwrite, hcheck⟩ := writeChecked_ok hpath heq
    have hplace := writeFile_atPlace (t := prepare (d.at l)) f.write payload hpath
    rw [hwrite] at hplace
    refine Admits.set (hprepare.trans fun q data hq => ?_)
    rcases eq_or_ne q ((prepare (d.at l)).resolve path) with rfl | hne
    · rw [writeFile_holds hwrite] at hq
      rw [← Option.some.inj hq]
      exact .inr (hV _ hcheck)
    · rw [file?_congr (hplace.others q hne)] at hq
      exact .inl hq

/-! ## 3. Apps and assets -/

theorem ne_nil_of_root {root : Path} (hroot : root ∈ targetRoots l) (hpre : root <+: path) :
    path ≠ [] := by
  rintro rfl
  rw [List.prefix_nil.1 hpre] at hroot
  revert hroot
  cases l <;> decide

theorem apps_mem : APPS ∈ targetRoots .system := List.mem_cons_self

theorem target_resolve_self {root : Path} (hroot : root ∈ targetRoots l) (hpre : root <+: path)
    (t : Tree) : Target l (t.resolve path) :=
  target_resolve hroot hpre t _ (List.prefix_refl _)

theorem copyAppManifest_confined (f : FileFaults) (v : ValidArchive) {app dir : TarPath} (d : Disk)
    (hdir : appTarPathToFsDir app = some dir) :
    Confined Target d (copyAppManifest P f v app dir d).2 := by
  have hpre : APPS <+: fsPath P (appManifestPath dir) := appDir_target P hdir _
  unfold copyAppManifest
  split
  next => exact .refl _ d
  next data _ =>
    split
    next => exact .refl _ d
    next =>
      exact copyFile_confined (ne_nil_of_root apps_mem hpre)
        (remove_kept _ (ne_nil_of_root apps_mem hpre) (target_resolve apps_mem hpre _))
        (target_resolve_self apps_mem hpre)

theorem copyElf_confined (f : AppFaults) (v : ValidArchive) (app : TarPath) {dir : TarPath}
    (elf : Bytes) (d : Disk) (hdir : appTarPathToFsDir app = some dir) :
    Confined Target d (copyFile f.elf .system (elfListed P v.manifest (elfPath app))
      (fun tree => ((createDirAll f.dirs (fsPath P dir) tree).remove f.elf.remove
        (fsPath P (elfPath dir))).2)
      (fsPath P (elfPath dir)) elf d).2 := by
  have hpre : APPS <+: fsPath P (elfPath dir) := appDir_target P hdir _
  have hne := ne_nil_of_root apps_mem hpre
  exact copyFile_confined hne
    ((createDirAll_kept _ _ _ _).trans (remove_kept _ hne (target_resolve apps_mem hpre _)))
    (target_resolve_self apps_mem hpre)

theorem copyApp_confined (f : AppFaults) (v : ValidArchive) (app : TarPath) (d : Disk) :
    Confined Target d (copyApp P f v app d).2 := by
  unfold copyApp
  split
  next => exact .refl _ d
  next elf _ =>
    split
    next => exact .refl _ d
    next =>
      split
      next => exact .refl _ d
      next dir hdir =>
        have hcopy := copyElf_confined (P := P) f v app elf d hdir
        split
        next heq =>
          rw [heq] at hcopy
          exact hcopy
        next heq =>
          rw [heq] at hcopy
          exact hcopy.trans (copyAppManifest_confined f.manifest v _ hdir)

theorem copyApps_confined (f : Nat → AppFaults) (v : ValidArchive) (i : Nat) (d : Disk)
    (apps : List TarPath) : Confined Target d (copyApps P f v i d apps).2 := by
  induction apps generalizing i d with
  | nil => exact .refl _ d
  | cons app apps ih =>
    have happ := copyApp_confined (P := P) (f i) v app d
    unfold copyApps
    split
    next heq => rw [heq] at happ; exact happ
    next heq => rw [heq] at happ; exact happ.trans (ih _ _)

theorem copyAsset_confined (f : AssetFaults) (v : ValidArchive) {asset : TarPath × Location}
    (d : Disk) (hshape : AssetShape asset.2 asset.1) :
    Confined Target d (copyAsset P f v asset d).2 := by
  obtain ⟨⟨root, hroot, hpre⟩, -⟩ := hshape.target P
  have hne := ne_nil_of_root hroot hpre
  unfold copyAsset
  split
  next => exact .refl _ d
  next =>
    split
    next => exact .refl _ d
    next =>
      exact copyFile_confined hne
        ((remove_kept _ hne (target_resolve hroot hpre _)).trans (createDirAll_kept _ _ _ _))
        (target_resolve_self hroot hpre)

theorem copyAssets_confined (f : Nat → AssetFaults) (v : ValidArchive) (i : Nat) (d : Disk)
    {assets : List (TarPath × Location)}
    (hshape : ∀ asset ∈ assets, AssetShape asset.2 asset.1) :
    Confined Target d (copyAssets P f v i d assets).2 := by
  induction assets generalizing i d with
  | nil => exact .refl _ d
  | cons asset assets ih =>
    have hasset := copyAsset_confined (P := P) (f i) v d (hshape asset List.mem_cons_self)
    have hrest := fun i d => ih i d fun a ha => hshape a (List.mem_cons_of_mem _ ha)
    unfold copyAssets
    split
    next heq => rw [heq] at hasset; exact hasset
    next heq => rw [heq] at hasset; exact hasset.trans (hrest _ _)

theorem createDirAll_within {W : Path → Bytes → Prop} (f : DirFaults) (t : Tree) (path : Path) :
    Within W t (createDirAll f path t) := (createDirAll_kept _ f t path).within

theorem copyAppManifest_admits {f : FileFaults} {app dir : TarPath} (happ : app ∈ v.apps)
    (hdir : appTarPathToFsDir app = some dir)
    (h : copyAppManifest P f v app dir d = (true, d')) : Admits (Vouched P v) d d' := by
  have hpre : APPS <+: fsPath P (appManifestPath dir) := appDir_target P hdir _
  unfold copyAppManifest at h
  split at h
  next => cases h
  next data _ =>
    split at h
    next => cases h
    next =>
      refine copyFile_admits (ne_nil_of_root apps_mem hpre) (remove_within _ _) (fun t hcheck => ?_) h
      exact .inl ⟨rfl, app, happ, dir, hdir, .inr ⟨resolve_spelled t _, hcheck⟩⟩

theorem copyApp_admits {f : AppFaults} {app : TarPath} (happ : app ∈ v.apps)
    (h : copyApp P f v app d = (true, d')) : Admits (Vouched P v) d d' := by
  unfold copyApp at h
  split at h
  next => cases h
  next elf _ =>
    split at h
    next => cases h
    next =>
      split at h
      next => cases h
      next dir hdir =>
        have hpre : APPS <+: fsPath P (elfPath dir) := appDir_target P hdir _
        split at h
        next => cases h
        next d₁ heq =>
          have helf : Admits (Vouched P v) d d₁ := by
            refine copyFile_admits (ne_nil_of_root apps_mem hpre)
              ((createDirAll_within _ _ _).trans (remove_within _ _)) (fun t hcheck => ?_) heq
            exact .inl ⟨rfl, app, happ, dir, hdir, .inl ⟨resolve_spelled t _, hcheck⟩⟩
          exact helf.trans (copyAppManifest_admits happ hdir h)

theorem copyApps_admits {f : Nat → AppFaults} {i : Nat} {apps : List TarPath}
    (happs : ∀ app ∈ apps, app ∈ v.apps) (h : copyApps P f v i d apps = (true, d')) :
    Admits (Vouched P v) d d' := by
  induction apps generalizing i d with
  | nil =>
    cases h
    exact .refl _ _
  | cons app apps ih =>
    unfold copyApps at h
    split at h
    next => cases h
    next d₁ heq =>
      exact (copyApp_admits (happs app List.mem_cons_self) heq).trans
        (ih (fun a ha => happs a (List.mem_cons_of_mem _ ha)) h)

theorem copyAsset_admits {f : AssetFaults} {asset : TarPath × Location} (hasset : asset ∈ v.assets)
    (hshape : AssetShape asset.2 asset.1) (h : copyAsset P f v asset d = (true, d')) :
    Admits (Vouched P v) d d' := by
  obtain ⟨⟨root, hroot, hpre⟩, -⟩ := hshape.target P
  unfold copyAsset at h
  split at h
  next => cases h
  next =>
    split at h
    next => cases h
    next =>
      refine copyFile_admits (ne_nil_of_root hroot hpre)
        ((remove_within _ _).trans (createDirAll_within _ _ _)) (fun t hcheck => ?_) h
      exact .inr ⟨asset.1, hasset, resolve_spelled t _, hcheck⟩

theorem copyAssets_admits {f : Nat → AssetFaults} {i : Nat} {assets : List (TarPath × Location)}
    (hassets : ∀ asset ∈ assets, asset ∈ v.assets ∧ AssetShape asset.2 asset.1)
    (h : copyAssets P f v i d assets = (true, d')) : Admits (Vouched P v) d d' := by
  induction assets generalizing i d with
  | nil =>
    cases h
    exact .refl _ _
  | cons asset assets ih =>
    obtain ⟨hasset, hshape⟩ := hassets asset List.mem_cons_self
    unfold copyAssets at h
    split at h
    next => cases h
    next d₁ heq =>
      exact (copyAsset_admits hasset hshape heq).trans
        (ih (fun a ha => hassets a (List.mem_cons_of_mem _ ha)) h)

/-! ## 4. Directories that are wiped -/

variable (P) in
/-- The directories that are wiped without an error -/
def Wiped (f : WipeFaults) (v : ValidArchive) (l : Location) (dir : Path) : Prop :=
  Plain dir ∧
    (l = .system ∧ dir = APPS ∧ v.apps ≠ [] ∧ f.apps = none ∨
      ∃ root, (root, l) ∈ assetRoots v ∧ dir = fsPath P root ∧ f.root (root, l) = none)

/-- A removal that is not made to fail leaves nothing. -/
theorem remove_none_gone {q : Path} (hc : t.Closed) (hpre : t.resolve path <+: q) :
    (t.remove none path).2.node q = none := by
  unfold Tree.remove
  cases hnode : t.node (t.resolve path) with
  | none => exact hc.none_below hpre hnode
  | some v => exact Tree.erase_inside hpre

theorem assetRoots_target (hscanned : Scanned v) {root : TarPath × Location}
    (h : root ∈ assetRoots v) : ∃ top ∈ targetRoots root.2, top <+: fsPath P root.1 := by
  unfold assetRoots at h
  rw [List.mem_dedup, List.mem_filterMap] at h
  obtain ⟨asset, hasset, heq⟩ := h
  obtain ⟨r, hroot, rfl⟩ := Option.map_eq_some_iff.1 heq
  exact ((classify_asset (hscanned.assets asset hasset)).target P).2 r hroot

theorem wipeRoots_confined (f : WipeFaults) (d : Disk) {roots : List (TarPath × Location)}
    (hroots : ∀ root ∈ roots, ∃ top ∈ targetRoots root.2, top <+: fsPath P root.1) :
    Confined Target d (wipeRoots P f d roots) := by
  induction roots generalizing d with
  | nil => exact .refl _ d
  | cons root roots ih =>
    obtain ⟨top, htop, hpre⟩ := hroots root List.mem_cons_self
    exact (Confined.set (remove_kept _ (ne_nil_of_root htop hpre) (target_resolve htop hpre _))).trans
      (ih _ fun r hr => hroots r (List.mem_cons_of_mem _ hr))

theorem wipeRoots_admits (f : WipeFaults) (d : Disk) (roots : List (TarPath × Location)) :
    Admits V d (wipeRoots P f d roots) := by
  induction roots generalizing d with
  | nil => exact .refl _ d
  | cons root roots ih => exact (Admits.set (remove_within _ _)).trans (ih _)

/-- What is not there is not there later. -/
theorem Admits.gone (h : Admits (fun _ _ _ => False) d d') {q : Path}
    (hq : (d.at l).file? q = none) : (d'.at l).file? q = none := by
  by_contra hsome
  obtain ⟨data, hdata⟩ := Option.ne_none_iff_exists'.1 hsome
  rcases h l q data hdata with hold | hfalse
  · rw [hq] at hold
    cases hold
  · exact hfalse

theorem file?_of_gone {q : Path} (h : t.node q = none) : t.file? q = none := by
  rw [Tree.file?, h]

theorem wipeRoots_gone {f : WipeFaults} {roots : List (TarPath × Location)} {root : TarPath}
    {q : Path} (hd : Mounted d)
    (hroots : ∀ root ∈ roots, ∃ top ∈ targetRoots root.2, top <+: fsPath P root.1)
    (hmem : (root, l) ∈ roots) (hplain : Plain (fsPath P root)) (hfault : f.root (root, l) = none)
    (hpre : fsPath P root <+: q) : ((wipeRoots P f d roots).at l).file? q = none := by
  induction roots generalizing d with
  | nil => cases hmem
  | cons first roots ih =>
    obtain ⟨top, htop, htoppre⟩ := hroots first List.mem_cons_self
    have hfirst : Confined Target d (d.set first.2
        ((d.at first.2).remove (f.root first) (fsPath P first.1)).2) :=
      .set (remove_kept _ (ne_nil_of_root htop htoppre) (target_resolve htop htoppre _))
    unfold wipeRoots
    rcases List.mem_cons.1 hmem with rfl | hmem
    · refine (wipeRoots_admits f _ roots).gone ?_
      rw [Disk.at_set_self, hfault]
      exact file?_of_gone (remove_none_gone (hd.closed _) (by rwa [hplain.resolve]))
    · exact ih (hfirst.mounted hd) (fun r hr => hroots r (List.mem_cons_of_mem _ hr)) hmem

theorem wipeApps_confined (f : WipeFaults) (v : ValidArchive) (d : Disk) :
    Confined Target d
      (if v.apps = [] then d else d.set .system (d.system.remove f.apps APPS).2) := by
  split
  · exact .refl _ d
  · exact .set (l := .system)
      (remove_kept _ (by decide) (target_resolve apps_mem (List.prefix_refl _) _))

theorem wipeRecoveryTargets_confined (f : WipeFaults) (hscanned : Scanned v) (d : Disk) :
    Confined Target d (wipeRecoveryTargets P f v d) :=
  (wipeApps_confined f v d).trans
    (wipeRoots_confined f _ fun _ hroot => assetRoots_target hscanned hroot)

/-- A directory that was wiped is empty. -/
theorem wipeRecoveryTargets_gone {f : WipeFaults} {dir q : Path} (hscanned : Scanned v)
    (hd : Mounted d) (hwiped : Wiped P f v l dir) (hpre : dir <+: q) :
    ((wipeRecoveryTargets P f v d).at l).file? q = none := by
  obtain ⟨hplain, ⟨rfl, rfl, happs, hfault⟩ | ⟨root, hroot, rfl, hfault⟩⟩ := hwiped
  · refine (wipeRoots_admits f _ _).gone ?_
    rw [if_neg happs, hfault]
    show (d.system.remove none APPS).2.file? q = none
    exact file?_of_gone (remove_none_gone (hd.closed .system) (by rwa [hplain.resolve]))
  · exact wipeRoots_gone ((wipeApps_confined f v d).mounted hd)
      (fun _ h => assetRoots_target hscanned h) hroot hplain hfault hpre

/-! ## 5. All of them -/

theorem replaceFiles_confined (f : StartFaults) (hscanned : Scanned v) (d : Disk) :
    Confined Target d (replaceFiles P f v d).2 := by
  have happs := (wipeRecoveryTargets_confined (P := P) f.wipe hscanned d).trans
    (copyApps_confined (P := P) f.apps v 0 _ v.apps)
  unfold replaceFiles
  split
  next heq => rw [heq] at happs; exact happs
  next heq =>
    rw [heq] at happs
    exact happs.trans (copyAssets_confined f.assets v 0 _ fun asset hasset =>
      classify_asset (hscanned.assets asset hasset))

/-- In a directory that was wiped, every file is listed. -/
theorem replaceFiles_vouched {f : StartFaults} {dir q : Path} {data : Bytes} (hscanned : Scanned v)
    (hd : Mounted d) (h : replaceFiles P f v d = (true, d')) (hwiped : Wiped P f.wipe v l dir)
    (hpre : dir <+: q) (hq : (d'.at l).file? q = some data) : Vouched P v l q data := by
  unfold replaceFiles at h
  split at h
  next => cases h
  next d₁ heq =>
    have hadmits := (copyApps_admits (fun _ => id) heq).trans
      (copyAssets_admits (fun asset hasset =>
        ⟨hasset, classify_asset (hscanned.assets asset hasset)⟩) h)
    rcases hadmits l q data hq with hold | hvouched
    · rw [wipeRecoveryTargets_gone hscanned hd hwiped hpre] at hold
      cases hold
    · exact hvouched

end

end Recovery
