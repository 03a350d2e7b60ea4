import KeyOS.Table.OrderedTable

/-!
# Ordered tables stay in order

An operation ends in one of two ways: it fails and leaves the table as it was, or it
succeeds, the entries are valid and distinct, and a changed table has been saved.
-/

namespace Table

open Exec

variable {T P γ : Type} [TableEntry T]

/-! ## 1. Entries -/

/-- Neither entry is a duplicate of the other. -/
def Clear (a b : T) : Prop :=
  TableEntry.isDuplicate a b = none ∧ TableEntry.isDuplicate b a = none

/-- The entries are valid, and distinct in either direction. -/
structure Entries (table : List T) : Prop where
  valid : ∀ e ∈ table, TableEntry.validate e = .ok ()
  distinct : table.Pairwise Clear

theorem Clear.symm {a b : T} (h : Clear a b) : Clear b a := And.symm h

namespace Entries

variable {table table' : List T} {entry : T} {index : Nat}

theorem perm (h : Entries table) (hp : table.Perm table') : Entries table' :=
  ⟨fun e he => h.valid e (hp.mem_iff.2 he), hp.pairwise h.distinct fun h => h.symm⟩

theorem sublist (h : Entries table) (hs : table'.Sublist table) : Entries table' :=
  ⟨fun e he => h.valid e (hs.mem he), h.distinct.sublist hs⟩

theorem cons (h : Entries table) (hvalid : TableEntry.validate entry = .ok ())
    (hclear : ∀ e ∈ table, Clear entry e) : Entries (entry :: table) := by
  refine ⟨fun e he => ?_, List.pairwise_cons.2 ⟨hclear, h.distinct⟩⟩
  rcases List.mem_cons.1 he with rfl | he
  · exact hvalid
  · exact h.valid e he

/-- The entry at the index is replaced by one that is clear of all others. -/
theorem set (h : Entries table) (hlt : index < table.length)
    (hvalid : TableEntry.validate entry = .ok ())
    (hclear : ∀ i e, i ≠ index → table[i]? = some e → Clear entry e) :
    Entries (table.set index entry) := by
  have hrest := h.sublist (List.eraseIdx_sublist table index)
  refine (hrest.cons hvalid fun e he => ?_).perm (List.set_perm_cons_eraseIdx hlt entry).symm
  obtain ⟨i, hne, hi⟩ := List.mem_eraseIdx_iff_getElem?.1 he
  exact hclear i e hne hi

theorem move (h : Entries table) (hi : table[index]? = some entry) {destination : Nat}
    (hlt : destination < table.length) :
    Entries ((table.eraseIdx index).insertIdx destination entry) := by
  obtain ⟨hindex, rfl⟩ := List.getElem?_eq_some_iff.1 hi
  have hle : destination ≤ (table.eraseIdx index).length := by
    rw [List.length_eraseIdx_of_lt hindex]
    exact Nat.le_sub_one_of_lt hlt
  refine h.perm ?_
  exact (List.getElem_cons_eraseIdx_perm hindex).symm.trans (List.perm_insertIdx _ _ hle).symm

end Entries

namespace OrderedTable

/-! ## 2. Checks -/

variable {t t₀ : OrderedTable T P} {entry : T} {index : Nat}

theorem findLoop_none {position : Option Nat} {leftSelf : Option (TableEntry.DuplicateReason T)}
    {i : Nat} {rest : List T} (h : findLoop entry position leftSelf i rest = .ok none) :
    ∀ k e, position ≠ some (i + k) → rest[k]? = some e → Clear entry e := by
  induction rest generalizing i with
  | nil => exact nofun
  | cons first rest ih =>
    have htail : findLoop entry position leftSelf (i + 1) rest = .ok none ∧
        (position ≠ some i → Clear entry first) := by
      rw [findLoop] at h
      split at h
      · next hskip => exact ⟨h, fun hne => absurd hskip hne⟩
      · dsimp only at h
        split at h
        · cases h
        · next hsame =>
          rw [not_or, not_not] at hsame
          split at h
          · cases h
          · next hnone =>
            refine ⟨h, fun _ => ⟨hnone, ?_⟩⟩
            rw [hnone] at hsame
            exact Option.isNone_iff_eq_none.1 hsame.2.symm
    intro k e hk he
    cases k with
    | zero =>
      cases he
      exact htail.2 hk
    | succ k =>
      refine ih htail.1 k e ?_ he
      rwa [Nat.add_assoc, Nat.add_comm 1]

theorem findExcludeIndex_none {position : Option Nat}
    (h : t.findExcludeIndex entry position = .ok none) :
    ∀ k e, position ≠ some k → t.table[k]? = some e → Clear entry e := by
  obtain ⟨leftSelf, -, hloop⟩ := bind_eq_ok.1 h
  intro k e hk he
  exact findLoop_none hloop k e (by rwa [Nat.zero_add]) he

theorem validatePush_ok (h : t.validatePush entry = .ok ()) :
    TableEntry.validate entry = .ok () ∧ ∀ e ∈ t.table, Clear entry e := by
  obtain ⟨info, hfind, h⟩ := bind_eq_ok.1 h
  cases info with
  | some info => cases h
  | none =>
    refine ⟨mapError_eq_ok.1 h, fun e he => ?_⟩
    obtain ⟨k, hk⟩ := List.getElem?_of_mem he
    exact findExcludeIndex_none hfind k e nofun hk

theorem checkBounds_ok (h : t.checkBounds index = .ok entry) : t.table[index]? = some entry := by
  unfold checkBounds at h
  split at h
  · cases h
  · next he =>
    cases h
    exact he

theorem validateEdit_ok {editFn : T → γ → Except (TableEntry.ValidationError T) T × γ} {env : γ}
    (h : (t.validateEdit index editFn env).1 = .ok entry) (hentries : Entries t.table) :
    Entries (t.table.set index entry) := by
  unfold validateEdit at h
  cases hbounds : t.checkBounds index with
  | error e =>
    rw [hbounds] at h
    cases h
  | ok old =>
    rw [hbounds] at h
    have hlt := (List.getElem?_eq_some_iff.1 (checkBounds_ok hbounds)).1
    dsimp only at h
    obtain ⟨tempEntry, -, h⟩ := bind_eq_ok.1 h
    obtain ⟨_, hvalid, h⟩ := bind_eq_ok.1 h
    obtain ⟨info, hfind, h⟩ := bind_eq_ok.1 h
    cases info with
    | some info => cases h
    | none =>
      cases h
      refine hentries.set hlt (mapError_eq_ok.1 hvalid) fun i e hne he => ?_
      exact findExcludeIndex_none hfind i e (fun heq => hne (Option.some.inj heq).symm) he

/-- Each edit is checked against the copy with the edits before it. -/
theorem editWhereLoop_entries
    (editFn : T → γ → (Except (TableEntry.ValidationError T) T) × γ)
    (whereFn : T → γ → Bool × γ) (i : Nat) (rest : List T) (updated : OrderedTable T P)
    (errors : List (Nat × OrderedTableError T)) (env : γ) (h : Entries updated.table) :
    Entries (editWhereLoop editFn whereFn i rest updated errors env).1.table := by
  induction rest generalizing i updated errors env with
  | nil => exact h
  | cons e rest ih =>
    rw [editWhereLoop]
    split
    · exact ih _ _ _ _ h
    · next env' _ =>
      split
      · next entry env'' hok =>
        exact ih _ _ _ _ (validateEdit_ok (congrArg Prod.fst hok) h)
      · exact ih _ _ _ _ h

/-! ## 3. Loading -/

theorem checkLoaded_ok {i : Nat} {rest : List T} (h : t.checkLoaded i rest = .ok ()) :
    ∀ k e, rest[k]? = some e → TableEntry.validate e = .ok () ∧
      ∀ j e', j ≠ i + k → t.table[j]? = some e' → Clear e e' := by
  induction rest generalizing i with
  | nil => exact nofun
  | cons first rest ih =>
    obtain ⟨_, -, h⟩ := bind_eq_ok.1 h
    obtain ⟨_, hvalid, h⟩ := bind_eq_ok.1 h
    obtain ⟨info, hfind, h⟩ := bind_eq_ok.1 h
    cases info with
    | some info => cases h
    | none =>
      intro k e he
      cases k with
      | zero =>
        cases he
        refine ⟨mapError_eq_ok.1 hvalid, fun j e' hj he' => ?_⟩
        exact findExcludeIndex_none hfind j e' (fun heq => hj (Option.some.inj heq).symm) he'
      | succ k =>
        have := ih h k e he
        rwa [Nat.add_assoc, Nat.add_comm 1] at this

theorem checkLoaded_entries (h : t.checkLoaded 0 t.table = .ok ()) : Entries t.table := by
  have hall := checkLoaded_ok h
  refine ⟨fun e he => ?_, List.pairwise_iff_getElem.2 fun i j hi hj hij => ?_⟩
  · obtain ⟨k, hk⟩ := List.getElem?_of_mem he
    exact (hall k e hk).1
  · refine (hall i _ (List.getElem?_eq_getElem hi)).2 j _ ?_ (List.getElem?_eq_getElem hj)
    rw [Nat.zero_add]
    exact Nat.ne_of_gt hij

variable [Persistence P]

/-- What a table that the user works with satisfies. -/
structure WellFormed (t : OrderedTable T P) : Prop where
  entries : Entries t.table
  persistent : t.persistence.isSome = true

theorem withPersistence_ok {persistence : P} (h : t₀.withPersistence persistence = .ok t) :
    t.WellFormed := by
  obtain ⟨tableString, -, h⟩ := bind_eq_ok.1 h
  obtain ⟨table, -, h⟩ := bind_eq_ok.1 h
  obtain ⟨_, hchecked, h⟩ := bind_eq_ok.1 h
  have hentries := checkLoaded_entries hchecked
  cases h
  exact ⟨hentries, rfl⟩

/-! ## 4. Operations -/

/-- The handler of `t₀` was given the contents of `t`, and took them. -/
def Saved (t₀ t : OrderedTable T P) : Prop :=
  ∃ p p' tableString, t₀.persistence = some p ∧ TableEntry.toJson t.table = .ok tableString ∧
    Persistence.save p tableString = (.ok (), p') ∧ t.persistence = some p'

/-- How an operation on `t₀` ends. -/
def Ends {ε α : Type} (t₀ : OrderedTable T P) (x : Prog (OrderedTable T P) Panic ε α) : Prop :=
  Prog.Triple (· = t₀) x (fun _ t => t.WellFormed ∧ (t.table ≠ t₀.table → Saved t₀ t))
    (fun _ t => t = t₀) fun _ => True

variable {ε α β : Type}

theorem Ends.get {f : OrderedTable T P → Prog (OrderedTable T P) Panic ε α}
    (h : Ends t₀ (f t₀)) : Ends t₀ (Prog.get >>= f) := by
  rintro t rfl
  exact h t rfl

theorem Ends.check {c : Except ε β} {f : β → Prog (OrderedTable T P) Panic ε α}
    (h : ∀ b, c = .ok b → Ends t₀ (f b)) : Ends t₀ (Prog.ofExcept c >>= f) := by
  refine Prog.Triple.bind (Q := fun b t => c = .ok b ∧ t = t₀)
    (Prog.Triple.ofExcept (fun b hb _ ht => ⟨hb, ht⟩) fun _ _ _ => id) fun b => ?_
  exact Prog.Triple.assume (h b)

theorem Ends.okOr {e : ε} {o : Option β} {f : β → Prog (OrderedTable T P) Panic ε α}
    (h : ∀ b, o = some b → Ends t₀ (f b)) : Ends t₀ (Prog.okOr e o >>= f) := by
  refine Prog.Triple.bind (Q := fun b t => o = some b ∧ t = t₀)
    (Prog.Triple.okOr (fun b hb _ ht => ⟨hb, ht⟩) fun _ _ => id) fun b => ?_
  exact Prog.Triple.assume (h b)

theorem Ends.throw (e : ε) : Ends t₀ (Prog.throw e : Prog (OrderedTable T P) Panic ε α) :=
  Prog.Triple.throw fun _ => id

theorem Ends.nothing (h : t₀.WellFormed) (a : α) :
    Ends t₀ (pure a : Prog (OrderedTable T P) Panic ε α) :=
  Prog.Triple.pure fun t ht => by
    rw [ht]
    exact ⟨h, fun hne => absurd rfl hne⟩

theorem save_triple (t₁ : OrderedTable T P) :
    Prog.Triple (· = t₁) (save : Prog (OrderedTable T P) Panic ε Unit)
      (fun _ t => t.table = t₁.table ∧ (t₁.persistence.isSome = true → Saved t₁ t))
      (fun _ _ => False) fun _ => True := by
  rintro t rfl
  unfold save
  rw [Prog.bind_ok _ (Prog.get_run t)]
  cases hp : t.persistence with
  | none => exact ⟨rfl, nofun⟩
  | some p =>
    cases hjson : TableEntry.toJson t.table with
    | error message => trivial
    | ok tableString =>
      rcases hsave : Persistence.save p tableString with ⟨saved, p'⟩
      cases saved with
      | error e =>
        simp only [hsave]
        trivial
      | ok u =>
        simp only [hsave]
        exact ⟨rfl, fun _ => ⟨p, p', tableString, hp, hjson, hsave, rfl⟩⟩

/-- New contents are saved. -/
theorem Ends.store (h : t₀.WellFormed) {table : List T} (hentries : Entries table) :
    Ends t₀ (OrderedTable.store table : Prog (OrderedTable T P) Panic ε Unit) := by
  refine Prog.Triple.bind (Q := fun _ t => t = { t₀ with table := table })
    (Prog.Triple.modify fun t ht => by rw [ht]) fun _ => ?_
  refine (save_triple _).conseq (fun _ => id) (fun _ t ht => ?_) (fun _ _ => False.elim)
    fun _ => id
  have hsaved := ht.2 h.persistent
  refine ⟨⟨?_, ?_⟩, fun _ => hsaved⟩
  · rw [ht.1]
    exact hentries
  · obtain ⟨p, p', tableString, -, -, -, hp'⟩ := hsaved
    rw [hp']
    rfl

theorem push_ends (h : t₀.WellFormed) (entry : T) : Ends t₀ (push entry : TableM T P Unit) := by
  refine Ends.get (Ends.check fun _ hok => Ends.store h ?_)
  obtain ⟨hvalid, hclear⟩ := validatePush_ok hok
  exact (h.entries.cons hvalid hclear).perm (List.perm_append_singleton entry _).symm

theorem insert_ends (h : t₀.WellFormed) (index : Nat) (entry : T) :
    Ends t₀ (insert index entry : TableM T P Unit) := by
  refine Ends.get (Ends.check fun _ hbounds => Ends.check fun _ hok => Ends.store h ?_)
  obtain ⟨hvalid, hclear⟩ := validatePush_ok hok
  have hle : index ≤ t₀.table.length := by
    unfold checkInsertBounds at hbounds
    split at hbounds
    · cases hbounds
    · next hle => exact Nat.not_lt.1 hle
  exact (h.entries.cons hvalid hclear).perm (List.perm_insertIdx entry _ hle).symm

theorem remove_ends (h : t₀.WellFormed) (index : Nat) :
    Ends t₀ (remove index : TableM T P T) := by
  refine Ends.get (Ends.check fun entry _ => ?_)
  refine Prog.Triple.bind (Ends.store h (h.entries.sublist (List.eraseIdx_sublist _ _))) fun _ => ?_
  exact Prog.Triple.pure fun _ => id

theorem edit_ends (h : t₀.WellFormed) (index : Nat)
    (editFn : T → Except (TableEntry.ValidationError T) T) :
    Ends t₀ (edit index editFn : TableM T P Unit) :=
  Ends.get (Ends.check fun _ hok => Ends.store h (validateEdit_ok hok h.entries))

theorem editWhere_ends (h : t₀.WellFormed)
    (editFn : T → γ → (Except (TableEntry.ValidationError T) T) × γ)
    (whereFn : T → γ → Bool × γ) (env : γ) :
    Ends t₀ (editWhere editFn whereFn env :
      Prog (OrderedTable T P) Panic (List (Nat × OrderedTableError T)) Unit) := by
  refine Ends.get ?_
  have hentries := editWhereLoop_entries (P := P) editFn whereFn 0 t₀.table
    { t₀ with persistence := none } [] env h.entries
  dsimp only
  generalize editWhereLoop editFn whereFn 0 t₀.table { t₀ with persistence := none } [] env =
    result at hentries ⊢
  obtain ⟨updated, errors⟩ := result
  exact Prog.Triple.ite (fun _ => Ends.throw errors) fun _ => Ends.store h hentries

theorem movePosition_ends (h : t₀.WellFormed) (index destination : Nat) :
    Ends t₀ (movePosition index destination : TableM T P Unit) := by
  refine Prog.Triple.ite (fun _ => Ends.nothing h ()) fun _ => ?_
  refine Ends.get (Ends.check fun entry hentry => Ends.check fun _ htarget => Ends.store h ?_)
  have hlt := (List.getElem?_eq_some_iff.1 (checkBounds_ok htarget)).1
  exact h.entries.move (checkBounds_ok hentry) hlt

theorem movePositionRelative_ends (h : t₀.WellFormed) (index : Nat) (magnitude : Int) :
    Ends t₀ (movePositionRelative index magnitude : TableM T P Unit) :=
  Ends.get (Ends.check fun _ _ => Ends.okOr fun destination _ =>
    movePosition_ends h index destination)

theorem separateCategories_ends (h : t₀.WellFormed) (categoryFn : T → Nat) :
    Ends t₀ (separateCategories categoryFn : TableM T P Unit) :=
  Ends.get (Ends.store h (h.entries.perm (List.mergeSort_perm _ _).symm))

theorem pushCategorized_ends (h : t₀.WellFormed) (categoryFn : T → Nat) (entry : T) :
    Ends t₀ (pushCategorized categoryFn entry : TableM T P Unit) :=
  Ends.get (Ends.check fun _ _ => insert_ends h _ entry)

theorem movePositionCategorized_ends (h : t₀.WellFormed) (categoryFn : T → Nat)
    (index destination : Nat) :
    Ends t₀ (movePositionCategorized categoryFn index destination : TableM T P Unit) :=
  Ends.get (Ends.check fun _ _ => Ends.check fun _ _ => Ends.check fun _ _ =>
    Prog.Triple.ite (fun _ => Ends.throw _) fun _ => movePosition_ends h index destination)

/-! ## 5. Runs -/

/-- A call of the user. The closures of `editWhere` share an environment. -/
inductive Op (T γ : Type) [TableEntry T] where
  | push (entry : T)
  | insert (index : Nat) (entry : T)
  | remove (index : Nat)
  | edit (index : Nat) (editFn : T → Except (TableEntry.ValidationError T) T)
  | editWhere (editFn : T → γ → (Except (TableEntry.ValidationError T) T) × γ)
      (whereFn : T → γ → Bool × γ) (env : γ)
  | movePosition (index destination : Nat)
  | movePositionRelative (index : Nat) (magnitude : Int)
  | separateCategories (categoryFn : T → Nat)
  | pushCategorized (categoryFn : T → Nat) (entry : T)
  | movePositionCategorized (categoryFn : T → Nat) (index destination : Nat)

/-- The error of one edit, or of several. -/
inductive CallError (T : Type) [TableEntry T] where
  | one (e : OrderedTableError T)
  | all (errors : List (Nat × OrderedTableError T))

def Op.call : Op T γ → Prog (OrderedTable T P) Panic (CallError T) Unit
  | .push entry => (OrderedTable.push entry).mapErr .one
  | .insert index entry => (OrderedTable.insert index entry).mapErr .one
  | .remove index => (OrderedTable.remove index >>= fun _ => pure ()).mapErr .one
  | .edit index editFn => (OrderedTable.edit index editFn).mapErr .one
  | .editWhere editFn whereFn env => (OrderedTable.editWhere editFn whereFn env).mapErr .all
  | .movePosition index destination => (OrderedTable.movePosition index destination).mapErr .one
  | .movePositionRelative index magnitude =>
    (OrderedTable.movePositionRelative index magnitude).mapErr .one
  | .separateCategories categoryFn => (OrderedTable.separateCategories categoryFn).mapErr .one
  | .pushCategorized categoryFn entry => (OrderedTable.pushCategorized categoryFn entry).mapErr .one
  | .movePositionCategorized categoryFn index destination =>
    (OrderedTable.movePositionCategorized categoryFn index destination).mapErr .one

theorem Ends.mapErr {ε' : Type} {f : ε → ε'} {x : Prog (OrderedTable T P) Panic ε α}
    (h : Ends t₀ x) : Ends t₀ (x.mapErr f) := Prog.Triple.mapErr h

theorem call_ends (h : t₀.WellFormed) (op : Op T γ) : Ends t₀ op.call := by
  cases op with
  | push entry => exact (push_ends h entry).mapErr
  | insert index entry => exact (insert_ends h index entry).mapErr
  | remove index =>
    exact Ends.mapErr (Prog.Triple.bind (remove_ends h index) fun _ => Prog.Triple.pure fun _ => id)
  | edit index editFn => exact (edit_ends h index editFn).mapErr
  | editWhere editFn whereFn env => exact (editWhere_ends h editFn whereFn env).mapErr
  | movePosition index destination => exact (movePosition_ends h index destination).mapErr
  | movePositionRelative index magnitude =>
    exact (movePositionRelative_ends h index magnitude).mapErr
  | separateCategories categoryFn => exact (separateCategories_ends h categoryFn).mapErr
  | pushCategorized categoryFn entry => exact (pushCategorized_ends h categoryFn entry).mapErr
  | movePositionCategorized categoryFn index destination =>
    exact (movePositionCategorized_ends h categoryFn index destination).mapErr

theorem call_keeps (op : Op T γ) :
    Prog.Keeps WellFormed (op.call : Prog (OrderedTable T P) Panic (CallError T) Unit)
      fun _ => True := by
  intro t ht
  have := call_ends ht op t rfl
  revert this
  rcases op.call t with ⟨o, t'⟩
  cases o with
  | ok u => exact fun h => h.1
  | err e =>
    rintro rfl
    exact ht
  | panic p => exact id

/-- The call changes nothing when it fails, and has handed what it changed to the
persistence handler when it returns. -/
def Op.Durable (op : Op T γ) (t : OrderedTable T P) : Prop :=
  match op.call t with
  | (.ok _, t') => t'.table ≠ t.table → Saved t t'
  | (.err _, t') => t' = t
  | (.panic _, _) => True

/-- After every run of calls on a loaded table, the entries are valid and pairwise
distinct; and the next call is durable. -/
theorem ordered_table_kept (persistence : P) (ops : List (Op T γ)) {t₁ t : OrderedTable T P}
    (hload : t₀.withPersistence persistence = .ok t₁)
    (hrun : Prog.run Op.call ops t₁ = .ok t) :
    (∀ e ∈ t.table, TableEntry.validate e = .ok ()) ∧
      (∀ (i j : Nat) (a b : T), i ≠ j → t.table[i]? = some a → t.table[j]? = some b →
        TableEntry.isDuplicate a b = none) ∧
      ∀ op : Op T γ, op.Durable t := by
  have hkept : t.WellFormed :=
    Prog.run_ok_keeps (fun op _ => call_keeps op) hrun (withPersistence_ok hload)
  refine ⟨hkept.entries.valid, fun i j a b hne ha hb => ?_, fun op => ?_⟩
  · obtain ⟨hi, rfl⟩ := List.getElem?_eq_some_iff.1 ha
    obtain ⟨hj, rfl⟩ := List.getElem?_eq_some_iff.1 hb
    rcases Nat.lt_or_gt_of_ne hne with hlt | hgt
    · exact (List.pairwise_iff_getElem.1 hkept.entries.distinct i j hi hj hlt).1
    · exact (List.pairwise_iff_getElem.1 hkept.entries.distinct j i hj hi hgt).2
  · have := call_ends hkept op t rfl
    unfold Op.Durable
    revert this
    rcases op.call t with ⟨o, t'⟩
    cases o with
    | ok u => exact fun h => h.2
    | err e => exact id
    | panic p => exact id

/-! ## 6. A table of names -/

structure MyString where
  name : String

instance : TableEntry MyString where
  DuplicateReason := Unit
  ValidationError := Unit
  isDuplicate a b := if a.name = b.name then some () else none
  validate a := if a.name.isEmpty then .error () else .ok ()
  toJson table := .ok ("[" ++ ",".intercalate (table.map fun e => "\"" ++ e.name ++ "\"") ++ "]")
  fromJson tableString := if tableString = "[]" then .ok [] else .error ⟨.data, 1, 1⟩

structure MockPersistence where
  saveCounter : Nat
  data : String

instance : Persistence MockPersistence where
  load p := (.ok p.data, p)
  save p _ := (.ok (), { p with saveCounter := p.saveCounter + 1 })

theorem ordered_table_kept_names :
    let t : OrderedTable MyString MockPersistence := ⟨[⟨"A"⟩, ⟨"B"⟩], some ⟨2, "[]"⟩⟩
    (∀ e ∈ t.table, TableEntry.validate e = .ok ()) ∧
      (∀ (i j : Nat) (a b : MyString), i ≠ j → t.table[i]? = some a → t.table[j]? = some b →
        TableEntry.isDuplicate a b = none) ∧
      ∀ op : Op MyString Unit, op.Durable t :=
  have hload : (new : OrderedTable MyString MockPersistence).withPersistence ⟨0, "[]"⟩ =
      .ok ⟨[], some ⟨0, "[]"⟩⟩ := rfl
  have hrun : Prog.run (Op.call (γ := Unit)) [.push (MyString.mk "A"), .push (MyString.mk "B")]
      (⟨[], some ⟨0, "[]"⟩⟩ : OrderedTable MyString MockPersistence) =
      .ok ⟨[⟨"A"⟩, ⟨"B"⟩], some ⟨2, "[]"⟩⟩ := rfl
  ordered_table_kept _ _ hload hrun

end OrderedTable

end Table
