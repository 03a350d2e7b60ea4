import KeyOS.Lib.Exec

/-!
# Ordered tables

A table of entries that are valid and pairwise distinct, in an order that the user
chooses. `isDuplicate` and `validate` are the entry's own; neither is assumed to be
symmetric or otherwise well behaved. A category function is expected to give an entry the
same category whenever it is asked, as `sort_by` requires.

Saving and serialising panic when they fail.
-/

namespace Table

open Exec

/-! ## 1. Entries and persistence -/

inductive PersistenceError where
  | loadError (message : String)
  | saveError (message : String)
deriving DecidableEq, Repr

/-- `serde_json::error::Category` -/
inductive JsonCategory where
  | io
  | syntaxError
  | data
  | eof
deriving DecidableEq, Repr

structure JsonError where
  category : JsonCategory
  line : Nat
  column : Nat

def JsonCategory.debug : JsonCategory → String
  | io => "Io"
  | syntaxError => "Syntax"
  | data => "Data"
  | eof => "Eof"

/-- The message keeps the position and drops what serde quotes. -/
def JsonError.message (e : JsonError) : String :=
  "invalid JSON (" ++ e.category.debug ++ ") at line " ++ toString e.line ++ " column " ++
    toString e.column

/-- An entry, with what `serde_json` does for a table of them. -/
class TableEntry (T : Type) where
  DuplicateReason : Type
  ValidationError : Type
  isDuplicate : T → T → Option DuplicateReason
  validate : T → Except ValidationError Unit
  toJson : List T → Except String String
  fromJson : String → Except JsonError (List T)

class Persistence (P : Type) where
  load : P → Except PersistenceError String × P
  save : P → String → Except PersistenceError Unit × P

/-- The reason, and the index of the entry that matched. -/
abbrev DuplicateInfo (T : Type) [TableEntry T] : Type := TableEntry.DuplicateReason T × Nat

inductive OrderedTableError (T : Type) [TableEntry T] where
  | persistenceError (e : PersistenceError)
  | loadDuplicateError (index : Nat) (info : DuplicateInfo T)
  | loadInvalidError (index : Nat) (e : TableEntry.ValidationError T)
  | outOfBoundsError (index len : Nat)
  | nonReflexiveError (index : Option Nat) (left right : Option (TableEntry.DuplicateReason T))
  | nonDeterministicError (index : Option Nat)
      (leftSelf rightSelf leftMatch rightMatch : Option (TableEntry.DuplicateReason T))
  | pushInvalidError (e : TableEntry.ValidationError T)
  | pushDuplicateError (info : DuplicateInfo T)
  | editInvalidOperationError (e : TableEntry.ValidationError T)
  | editInvalidResultError (e : TableEntry.ValidationError T)
  | editDuplicateError (info : DuplicateInfo T)
  | moveOverflowError (index : Nat) (magnitude : Int)
  | categoryError
  | categoryOutOfBoundsError (index category destination destinationCategory : Nat)

inductive Panic where
  /-- `OrderedTable: entries failed to serialize` -/
  | serialize (message : String)
  /-- `OrderedTable: failed to persist the table` -/
  | persist (e : PersistenceError)

structure OrderedTable (T P : Type) where
  table : List T
  persistence : Option P

namespace OrderedTable

variable {T P γ : Type} [TableEntry T]

def new : OrderedTable T P := ⟨[], none⟩

/-! ## 2. Checks -/

def checkReflexive (index : Option Nat) (entry : T) :
    Except (OrderedTableError T) (Option (TableEntry.DuplicateReason T)) :=
  let matchSelf := TableEntry.isDuplicate entry entry
  if matchSelf.isNone then .error (.nonReflexiveError index none none) else .ok matchSelf

/-- The loop of `findExcludeIndex`, at position `i`. -/
def findLoop (entry : T) (index : Option Nat) (leftSelf : Option (TableEntry.DuplicateReason T)) :
    Nat → List T → Except (OrderedTableError T) (Option (DuplicateInfo T))
  | _, [] => .ok none
  | i, e :: rest =>
    if index = some i then findLoop entry index leftSelf (i + 1) rest
    else
      let rightSelf := TableEntry.isDuplicate e e
      let leftMatch := TableEntry.isDuplicate entry e
      let rightMatch := TableEntry.isDuplicate e entry
      if rightSelf.isNone ∨ leftMatch.isNone ≠ rightMatch.isNone then
        .error (.nonDeterministicError (some i) leftSelf rightSelf leftMatch rightMatch)
      else
        match leftMatch with
        | some reason => .ok (some (reason, i))
        | none => findLoop entry index leftSelf (i + 1) rest

def findExcludeIndex (t : OrderedTable T P) (entry : T) (index : Option Nat) :
    Except (OrderedTableError T) (Option (DuplicateInfo T)) := do
  let leftSelf ← checkReflexive none entry
  findLoop entry index leftSelf 0 t.table

def find (t : OrderedTable T P) (entry : T) :
    Except (OrderedTableError T) (Option (DuplicateInfo T)) := t.findExcludeIndex entry none

def validatePush (t : OrderedTable T P) (entry : T) : Except (OrderedTableError T) Unit := do
  match ← t.find entry with
  | some info => .error (.pushDuplicateError info)
  | none => (TableEntry.validate entry).mapError .pushInvalidError

def checkInsertBounds (t : OrderedTable T P) (index : Nat) : Except (OrderedTableError T) Unit :=
  if t.table.length < index then .error (.outOfBoundsError index t.table.length) else .ok ()

/-- The entry at the index, if it is in bounds. -/
def checkBounds (t : OrderedTable T P) (index : Nat) : Except (OrderedTableError T) T :=
  match t.table[index]? with
  | none => .error (.outOfBoundsError index t.table.length)
  | some entry => .ok entry

/-- The entry that the edit makes of the one at the index. The edit function runs in an
environment of its own. -/
def validateEdit (t : OrderedTable T P) (index : Nat)
    (editFn : T → γ → (Except (TableEntry.ValidationError T) T) × γ) (env : γ) :
    Except (OrderedTableError T) T × γ :=
  match t.checkBounds index with
  | .error e => (.error e, env)
  | .ok entry =>
    let (edited, env) := editFn entry env
    (do
      let tempEntry ← edited.mapError OrderedTableError.editInvalidOperationError
      (TableEntry.validate tempEntry).mapError .editInvalidResultError
      match ← t.findExcludeIndex tempEntry (some index) with
      | some info => .error (.editDuplicateError info)
      | none => .ok tempEntry, env)

/-! ## 3. Loading and saving -/

/-- The loop of `withPersistence` over the loaded entries, from position `i` on. -/
def checkLoaded (t : OrderedTable T P) : Nat → List T → Except (OrderedTableError T) Unit
  | _, [] => .ok ()
  | i, e :: rest => do
    let _ ← checkReflexive (some i) e
    (TableEntry.validate e).mapError (.loadInvalidError i)
    match ← t.findExcludeIndex e (some i) with
    | some info => .error (.loadDuplicateError i info)
    | none => checkLoaded t (i + 1) rest

/-- The entries of a persisted table; an absent one is empty. -/
def parseTable (tableString : String) : Except (OrderedTableError T) (List T) :=
  if tableString.isEmpty then .ok []
  else (TableEntry.fromJson tableString).mapError fun e =>
    .persistenceError (.loadError e.message)

variable [Persistence P]

def withPersistence (t : OrderedTable T P) (persistence : P) :
    Except (OrderedTableError T) (OrderedTable T P) := do
  let (loaded, persistence) := Persistence.load persistence
  let tableString ← loaded.mapError OrderedTableError.persistenceError
  let table ← parseTable tableString
  let t := { t with table := table }
  t.checkLoaded 0 t.table
  .ok { t with persistence := some persistence }

/-- Persist the table, panicking on failure. -/
def save {ε : Type} : Prog (OrderedTable T P) Panic ε Unit := do
  let t ← Prog.get
  match t.persistence with
  | none => pure ()
  | some persistence =>
    match TableEntry.toJson t.table with
    | .error message => Prog.panic (.serialize message)
    | .ok tableString =>
      let (saved, persistence) := Persistence.save persistence tableString
      Prog.modify fun t => { t with persistence := some persistence }
      match saved with
      | .error e => Prog.panic (.persist e)
      | .ok () => pure ()

/-- `self.table = table; self.save()` -/
def store {ε : Type} (table : List T) : Prog (OrderedTable T P) Panic ε Unit := do
  Prog.modify fun t => { t with table := table }
  save

/-! ## 4. Operations -/

abbrev TableM (T P : Type) [TableEntry T] : Type → Type :=
  Prog (OrderedTable T P) Panic (OrderedTableError T)

def push (entry : T) : TableM T P Unit := do
  let t ← Prog.get
  Prog.ofExcept (t.validatePush entry)
  store (t.table ++ [entry])

def insert (index : Nat) (entry : T) : TableM T P Unit := do
  let t ← Prog.get
  Prog.ofExcept (t.checkInsertBounds index)
  Prog.ofExcept (t.validatePush entry)
  store (t.table.insertIdx index entry)

def remove (index : Nat) : TableM T P T := do
  let t ← Prog.get
  let entry ← Prog.ofExcept (t.checkBounds index)
  store (t.table.eraseIdx index)
  pure entry

def edit (index : Nat) (editFn : T → Except (TableEntry.ValidationError T) T) :
    TableM T P Unit := do
  let t ← Prog.get
  let entry ← Prog.ofExcept (t.validateEdit index (fun e env => (editFn e, env)) ()).1
  store (t.table.set index entry)

/-- The loop of `editWhere` over the entries from position `i` on, with the copy that is
edited, the errors and the environment of the closures. -/
def editWhereLoop (editFn : T → γ → (Except (TableEntry.ValidationError T) T) × γ)
    (whereFn : T → γ → Bool × γ) :
    Nat → List T → OrderedTable T P → List (Nat × OrderedTableError T) → γ →
      OrderedTable T P × List (Nat × OrderedTableError T)
  | _, [], updated, errors, _ => (updated, errors)
  | i, e :: rest, updated, errors, env =>
    match whereFn e env with
    | (false, env) => editWhereLoop editFn whereFn (i + 1) rest updated errors env
    | (true, env) =>
      match updated.validateEdit i editFn env with
      | (.ok entry, env) =>
        editWhereLoop editFn whereFn (i + 1) rest
          { updated with table := updated.table.set i entry } errors env
      | (.error e, env) =>
        editWhereLoop editFn whereFn (i + 1) rest updated (errors ++ [(i, e)]) env

def editWhere (editFn : T → γ → (Except (TableEntry.ValidationError T) T) × γ)
    (whereFn : T → γ → Bool × γ) (env : γ) :
    Prog (OrderedTable T P) Panic (List (Nat × OrderedTableError T)) Unit := do
  let t ← Prog.get
  let copy : OrderedTable T P := { t with persistence := none }
  let (updated, errors) := editWhereLoop editFn whereFn 0 t.table copy [] env
  if errors.isEmpty = false then Prog.throw errors
  else store updated.table

def movePosition (index destination : Nat) : TableM T P Unit := do
  if index = destination then pure ()
  else
    let t ← Prog.get
    let entry ← Prog.ofExcept (t.checkBounds index)
    let _ ← Prog.ofExcept (t.checkBounds destination)
    store ((t.table.eraseIdx index).insertIdx destination entry)

/-- `usize::checked_add_signed`, for 32-bit words -/
def checkedAddSigned (index : Nat) (magnitude : Int) : Option Nat :=
  if 0 ≤ index + magnitude ∧ index + magnitude < 2 ^ 32 then some (index + magnitude).toNat
  else none

def movePositionRelative (index : Nat) (magnitude : Int) : TableM T P Unit := do
  let t ← Prog.get
  let _ ← Prog.ofExcept (t.checkBounds index)
  let destination ←
    Prog.okOr (.moveOverflowError index magnitude) (checkedAddSigned index magnitude)
  movePosition index destination

/-! ## 5. Categories -/

def separateCategories (categoryFn : T → Nat) : TableM T P Unit := do
  let t ← Prog.get
  store (t.table.mergeSort fun a b => decide (categoryFn a ≤ categoryFn b))

/-- `is_sorted_by_key` -/
def isSortedByKey (categoryFn : T → Nat) : List T → Bool
  | a :: b :: rest => decide (categoryFn a ≤ categoryFn b) && isSortedByKey categoryFn (b :: rest)
  | _ => true

def checkCategories (t : OrderedTable T P) (categoryFn : T → Nat) :
    Except (OrderedTableError T) Unit :=
  if isSortedByKey categoryFn t.table = false then .error .categoryError else .ok ()

def pushCategorized (categoryFn : T → Nat) (entry : T) : TableM T P Unit := do
  let t ← Prog.get
  Prog.ofExcept (t.checkCategories categoryFn)
  let entryCategory := categoryFn entry
  let index := (t.table.findIdx? fun e => decide (entryCategory < categoryFn e)).getD t.table.length
  insert index entry

def movePositionCategorized (categoryFn : T → Nat) (index destination : Nat) :
    TableM T P Unit := do
  let t ← Prog.get
  Prog.ofExcept (t.checkCategories categoryFn)
  let current ← Prog.ofExcept (t.checkBounds index)
  let target ← Prog.ofExcept (t.checkBounds destination)
  if categoryFn current ≠ categoryFn target then
    Prog.throw
      (.categoryOutOfBoundsError index (categoryFn current) destination (categoryFn target))
  else movePosition index destination

end OrderedTable

end Table
