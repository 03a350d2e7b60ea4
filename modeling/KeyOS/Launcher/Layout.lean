import KeyOS.Lib.Decimal
import KeyOS.Lib.KeySort

/-!
# The layout of the launcher

Pages and the dock are grids of numbered slots, gaps allowed. A page that is full pushes its last
icon onto the next page, and a full dock hands back the icon that was dropped on. After every change
the empty pages are dropped and each page gets the capacity that its index calls for.

A debug assertion that fires, an index that is out of bounds and a loop that does not end within its
steps are faults. The drag preview and the lookups of items are left out, and of the saved state
everything but the orders.
-/

namespace Launcher

abbrev Text := List Char

inductive Fault where
  /-- `debug_assert_eq!(.., "stale capacity")` -/
  | staleCapacity
  /-- `debug_assert!(.., "the dock has a free slot")` -/
  | dockFull
  /-- `debug_assert!(.., "the drag source outlives the move")` -/
  | dragSourceGone
  | indexOutOfBounds
  | outOfSteps
deriving DecidableEq

/-! ## 1. Data -/

def bitcoinAppId : Text := "0x426974636f696e2057616c6c65740000".toList
def settingsAppIdStr : Text := "0xc192b79230473875f159d4423d74d00f".toList
def scanQrActionId : Text := "scan-qr".toList
def layoutVersion : Nat := 2

def dockCollectionId : Text := "dock".toList
def newPageCollectionId : Text := "new-page".toList
def pageCollectionPrefix : Text := "page-".toList
def graphPageCapacity : Nat := 6
def standardPageCapacity : Nat := 9
def dockCapacity : Nat := 3

inductive LauncherAction where
  | scanQr
deriving DecidableEq

inductive LauncherTarget where
  | app (appId : Text)
  | action (action : LauncherAction)
deriving DecidableEq

structure LauncherItem where
  id : Text
  label : Text
  iconKey : Text
  target : LauncherTarget
  enabled : Bool
  canRemove : Bool
deriving DecidableEq

structure SlotItem where
  slot : Nat
  item : LauncherItem
deriving DecidableEq

structure LauncherCollection where
  capacity : Nat
  items : List SlotItem
deriving DecidableEq

structure LauncherConfig where
  pages : List LauncherCollection
  dock : LauncherCollection
deriving DecidableEq

/-- Of the saved state, what the layout is about. -/
structure PersistentState where
  pageOrders : List (List Text)
  dockOrder : List Text
  layoutVersion : Nat
deriving DecidableEq

def pageCapacityFor (pageIndex : Nat) : Nat :=
  if pageIndex = 0 then graphPageCapacity else standardPageCapacity

/-- Takes the first item with the id out of what remains. -/
def claimItem (remaining : List LauncherItem) (id : Text) : Option (LauncherItem × List LauncherItem) :=
  match remaining.findIdx? (·.id = id) with
  | some index => remaining[index]?.map fun item => (item, remaining.eraseIdx index)
  | none => none

/-- `str::parse::<usize>`, of 32 bits -/
def parseUsize (text : Text) : Option Nat :=
  let digits := match text with
    | '+' :: digits => digits
    | digits => digits
  if digits ≠ [] ∧ digits.all (·.isDigit) ∧ Decimal.value digits < 2 ^ 32 then
    some (Decimal.value digits)
  else none

def pageIndexFromCollectionId (collectionId : Text) : Option Nat :=
  if pageCollectionPrefix.isPrefixOf collectionId then
    parseUsize (collectionId.drop pageCollectionPrefix.length)
  else none

/-! ## 2. A collection -/

namespace LauncherCollection

def new (capacity : Nat) : LauncherCollection := ⟨capacity, []⟩

/-- The loop of `from_saved_order` from a slot on, with what is still to be claimed. -/
def claimOrder : Nat → List LauncherItem → List Text → List SlotItem × List LauncherItem
  | _, remaining, [] => ([], remaining)
  | slot, remaining, id :: savedIds =>
    if id = [] then claimOrder (slot + 1) remaining savedIds
    else
      match claimItem remaining id with
      | some (item, remaining) =>
        let (items, remaining) := claimOrder (slot + 1) remaining savedIds
        (⟨slot, item⟩ :: items, remaining)
      | none => claimOrder (slot + 1) remaining savedIds

def fromSavedOrder (remaining : List LauncherItem) (savedIds : List Text) (capacity : Nat) :
    LauncherCollection × List LauncherItem :=
  let (items, remaining) := claimOrder 0 remaining savedIds
  (⟨capacity, items⟩, remaining)

def isEmpty (c : LauncherCollection) : Bool := c.items.isEmpty

def isFree (c : LauncherCollection) (slot : Nat) : Bool := c.items.all (·.slot ≠ slot)

def firstFreeSlot (c : LauncherCollection) : Option Nat := (List.range c.capacity).find? c.isFree

def remove (c : LauncherCollection) (slot : Nat) : Option LauncherItem × LauncherCollection :=
  match c.items.findIdx? (·.slot = slot) with
  | some index => (c.items[index]?.map (·.item), { c with items := c.items.eraseIdx index })
  | none => (none, c)

def shiftSlot (target free slot : Nat) : Nat :=
  if target ≤ slot ∧ slot < free then slot + 1
  else if free + 1 ≤ slot ∧ slot ≤ target then slot - 1
  else slot

def shiftRun (c : LauncherCollection) (target free : Nat) : LauncherCollection :=
  { c with items := c.items.map fun s => { s with slot := shiftSlot target free s.slot } }

def slideTarget (c : LauncherCollection) (slot : Nat) : Nat :=
  let target := min slot (c.capacity - 1)
  (((List.range' target (c.capacity - target)).find? c.isFree).or
    ((List.range target).reverse.find? c.isFree)).getD c.capacity

/-- `sort_by_key`, which is stable -/
def sort (c : LauncherCollection) : LauncherCollection :=
  { c with items := KeySort.sortBy SlotItem.slot c.items }

def push (c : LauncherCollection) (slotItem : SlotItem) : LauncherCollection :=
  { c with items := c.items ++ [slotItem] }

def insert (c : LauncherCollection) (slot : Nat) (item : LauncherItem) :
    Option LauncherItem × LauncherCollection :=
  if c.capacity = 0 then (some item, c)
  else
    let target := min slot (c.capacity - 1)
    let (displaced, c) := (c.shiftRun target (c.slideTarget target)).remove c.capacity
    (displaced, (c.push ⟨target, item⟩).sort)

def insertOrSwap (c : LauncherCollection) (slot : Nat) (item : LauncherItem) :
    Option LauncherItem × LauncherCollection :=
  if c.capacity = 0 then (some item, c)
  else
    let target := min slot (c.capacity - 1)
    match c.items.findIdx? (·.slot = target), c.firstFreeSlot with
    | some index, none =>
      (c.items[index]?.map (·.item),
        { c with items := c.items.modify index fun s => { s with item } })
    | _, _ => c.insert target item

def reorder (c : LauncherCollection) (fromSlot toSlot : Nat) : Bool × LauncherCollection :=
  match c.items.findIdx? (·.slot = fromSlot) with
  | none => (false, c)
  | some index =>
    let target := min toSlot (c.capacity - 1)
    let c := c.shiftRun target fromSlot
    (true, { c with items := c.items.modify index fun s => { s with slot := target } }.sort)

/-- The loop of `resize`: what stays, and what no longer fits or shares a slot. -/
def retain (capacity : Nat) : List Nat → List SlotItem → List SlotItem × List LauncherItem
  | _, [] => ([], [])
  | seenSlots, s :: items =>
    if s.slot < capacity ∧ s.slot ∉ seenSlots then
      let (retained, overflow) := retain capacity (s.slot :: seenSlots) items
      (s :: retained, overflow)
    else
      let (retained, overflow) := retain capacity seenSlots items
      (retained, s.item :: overflow)

def resize (c : LauncherCollection) (capacity : Nat) : List LauncherItem × LauncherCollection :=
  let (retained, overflow) := retain capacity [] c.sort.items
  (overflow, ⟨capacity, retained⟩)

/-- The ids by slot, with empty texts for gaps. -/
def order (c : LauncherCollection) : List Text :=
  c.items.foldl (fun ids s => ids.set s.slot s.item.id)
    (List.replicate ((c.items.map (·.slot)).max?.elim 0 (· + 1)) [])

end LauncherCollection

/-! ## 3. Pages -/

open LauncherCollection

/-- `while page_index >= pages.len()`: pages are opened up to the index. -/
def openPages (pages : List LauncherCollection) (pageIndex : Nat) : List LauncherCollection :=
  pages ++ (List.range' pages.length (pageIndex + 1 - pages.length)).map fun index =>
    new (pageCapacityFor index)

/-- The loop of `insert_item_into_pages`. -/
def insertLoop : Nat → List LauncherCollection → Nat → Nat → LauncherItem →
    Except Fault (List LauncherCollection)
  | 0, _, _, _, _ => .error .outOfSteps
  | steps + 1, pages, pageIndex, slot, item =>
    let pages := openPages pages pageIndex
    match pages[pageIndex]? with
    | none => .error .indexOutOfBounds
    | some page =>
      if page.capacity ≠ pageCapacityFor pageIndex then .error .staleCapacity
      else
        match page.insert slot item with
        | (some overflow, page) =>
          insertLoop steps (pages.set pageIndex page) (pageIndex + 1) 0 overflow
        | (none, page) => .ok (pages.set pageIndex page)

/-- Each round but the last goes on to a page that was there before. -/
def insertItemIntoPages (pages : List LauncherCollection) (pageIndex slot : Nat)
    (item : LauncherItem) : Except Fault (List LauncherCollection) :=
  insertLoop (pages.length - pageIndex + 1) pages pageIndex slot item

/-- The loop of `compact_pages` over the pages. -/
def resizeLoop : Nat → List LauncherCollection → Nat → Except Fault (List LauncherCollection)
  | 0, _, _ => .error .outOfSteps
  | steps + 1, pages, pageIndex =>
    match pages[pageIndex]? with
    | none => .ok pages
    | some page => do
      let (overflow, page) := page.resize (pageCapacityFor pageIndex)
      let pages ← overflow.reverse.foldlM
        (fun pages item => insertItemIntoPages pages (pageIndex + 1) 0 item)
        (pages.set pageIndex page)
      resizeLoop steps pages (pageIndex + 1)

def itemCount (pages : List LauncherCollection) : Nat := (pages.map (·.items.length)).sum

/-- The outer loop of `compact_pages`. A page that is opened holds an item, so there are never more
pages than there were pages and items. -/
def compactRounds : Nat → List LauncherCollection → Except Fault (List LauncherCollection)
  | 0, _ => .error .outOfSteps
  | rounds + 1, pages => do
    let pages := pages.filter fun page => !page.isEmpty
    if pages.isEmpty then return [new (pageCapacityFor 0)]
    let pages ← resizeLoop (pages.length + itemCount pages + 1) pages 0
    if pages.all fun page => !page.isEmpty then return pages
    compactRounds rounds pages

/-- No layout needs more than two rounds. -/
def compactPages (pages : List LauncherCollection) : Except Fault (List LauncherCollection) :=
  compactRounds 2 pages

/-! ## 4. The layout -/

namespace LauncherConfig

/-- The saved pages, with what is still to be claimed. -/
def claimPages : Nat → List LauncherItem → List (List Text) →
    List LauncherCollection × List LauncherItem
  | _, remaining, [] => ([], remaining)
  | index, remaining, savedIds :: savedPageOrders =>
    let (page, remaining) := fromSavedOrder remaining savedIds (pageCapacityFor index)
    let (pages, remaining) := claimPages (index + 1) remaining savedPageOrders
    (page :: pages, remaining)

/-- The loop that puts the default items into the dock. -/
def fillDock : List (Nat × Text) → LauncherCollection → List LauncherItem →
    Except Fault (LauncherCollection × List LauncherItem)
  | [], dock, remaining => .ok (dock, remaining)
  | (slot, id) :: defaults, dock, remaining =>
    if dockCapacity ≤ dock.items.length then .ok (dock, remaining)
    else
      match claimItem remaining id with
      | some (item, remaining) =>
        match dock.insert slot item with
        | (none, dock) => fillDock defaults dock remaining
        | (some _, _) => .error .dockFull
      | none => fillDock defaults dock remaining

/-- The first page with a free slot, and the slot. -/
def firstOpenSlot : Nat → List LauncherCollection → Option (Nat × Nat)
  | _, [] => none
  | index, page :: pages =>
    match page.firstFreeSlot with
    | some slot => some (index, slot)
    | none => firstOpenSlot (index + 1) pages

/-- An item without a saved place -/
def addItem (pages : List LauncherCollection) (item : LauncherItem) :
    Except Fault (List LauncherCollection) :=
  match firstOpenSlot 0 pages with
  | some (pageIndex, slot) => insertItemIntoPages pages pageIndex slot item
  | none => .ok (pages ++ [(new (pageCapacityFor pages.length)).push ⟨0, item⟩])

def dockDefaults : List (Nat × Text) := [(0, settingsAppIdStr), (1, bitcoinAppId), (2, scanQrActionId)]

def fromPersistent (persistent : PersistentState) (discovered : List LauncherItem) :
    Except Fault LauncherConfig := do
  let (savedPageOrders, savedDockOrder) :=
    if layoutVersion ≤ persistent.layoutVersion then (persistent.pageOrders, persistent.dockOrder)
    else ([], [])
  let (dock, remaining) := fromSavedOrder discovered (savedDockOrder.take dockCapacity) dockCapacity
  let (pages, remaining) := claimPages 0 remaining savedPageOrders
  let pages ← compactPages (pages.filter fun page => !page.isEmpty)
  let (dock, remaining) ← fillDock dockDefaults dock remaining
  let pages ← remaining.foldlM addItem pages
  let pages ← compactPages pages
  return { pages, dock }

/-- A collection, and how it is written back. -/
def collectionMut (config : LauncherConfig) (collectionId : Text) :
    Option (LauncherCollection × (LauncherCollection → LauncherConfig)) :=
  if collectionId = dockCollectionId then some (config.dock, fun dock => { config with dock })
  else do
    let pageIndex ← pageIndexFromCollectionId collectionId
    let page ← config.pages[pageIndex]?
    return (page, fun page => { config with pages := config.pages.set pageIndex page })

def removeItem (config : LauncherConfig) (collectionId : Text) (slot : Nat) :
    Option (LauncherItem × LauncherConfig) := do
  let (collection, put) ← config.collectionMut collectionId
  match collection.remove slot with
  | (some item, collection) => return (item, put collection)
  | (none, _) => none

/-- What the result of `place_item` says: the icon that was swapped out, or the item itself. -/
inductive Placed where
  | ok (displaced : Option LauncherItem)
  | err (item : LauncherItem)
deriving DecidableEq

def placeItem (config : LauncherConfig) (collectionId : Text) (slot : Nat) (item : LauncherItem) :
    Except Fault (Placed × LauncherConfig) :=
  if collectionId = dockCollectionId then
    let (displaced, dock) := config.dock.insertOrSwap slot item
    .ok (.ok displaced, { config with dock })
  else if collectionId = newPageCollectionId then do
    let pages ← insertItemIntoPages config.pages config.pages.length slot item
    return (.ok none, { config with pages })
  else
    match (pageIndexFromCollectionId collectionId).filter (· < config.pages.length) with
    | some pageIndex => do
      let pages ← insertItemIntoPages config.pages pageIndex slot item
      return (.ok none, { config with pages })
    | none => .ok (.err item, config)

def compactPageList (config : LauncherConfig) : Except Fault LauncherConfig := do
  let pages ← compactPages config.pages
  return { config with pages }

structure Move where
  sourceCollectionId : Text
  fromIndex : Nat
  targetCollectionId : Text
  toIndex : Nat
deriving DecidableEq

/-- `move_item` without the compaction that follows where it returns true -/
def rearrange (config : LauncherConfig) (move : Move) : Except Fault (Bool × LauncherConfig) :=
  if move.sourceCollectionId = move.targetCollectionId then
    match config.collectionMut move.sourceCollectionId with
    | none => .ok (false, config)
    | some (collection, put) =>
      let (reordered, collection) := collection.reorder move.fromIndex move.toIndex
      .ok (reordered, put collection)
  else
    match config.removeItem move.sourceCollectionId move.fromIndex with
    | none => .ok (false, config)
    | some (item, config) => do
      match ← config.placeItem move.targetCollectionId move.toIndex item with
      | (.ok none, config) => return (true, config)
      | (.ok (some displaced), config) =>
        match ← config.placeItem move.sourceCollectionId move.fromIndex displaced with
        | (.ok _, config) => return (true, config)
        | (.err _, _) => .error .dragSourceGone
      | (.err item, config) =>
        let (_, config) ← config.placeItem move.sourceCollectionId move.fromIndex item
        return (false, config)

def moveItem (config : LauncherConfig) (move : Move) : Except Fault (Bool × LauncherConfig) := do
  match ← config.rearrange move with
  | (true, config) => return (true, ← config.compactPageList)
  | (false, config) => return (false, config)

def syncPersistent (config : LauncherConfig) : PersistentState where
  pageOrders := config.pages.map order
  dockOrder := config.dock.order
  layoutVersion := Launcher.layoutVersion

end LauncherConfig

end Launcher
