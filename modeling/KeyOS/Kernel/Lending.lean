import KeyOS.Kernel.Descriptors

/-!
# Lending a page and returning it

`lendPage` and `returnPage` on the words of the page tables. The lender's descriptor
becomes a reservation that stores its memory flags, and the return makes a descriptor
from them again.

* `lendPage_spec` says what the two slots hold while the page is lent.
* `returnPage_spec` says that a return from there leaves the lender's old word.
-/

namespace Kernel.Descriptors

open Exec
open Exec.Prog (Triple)

/-- The L2 tables of every process. Four tables fill a page, so that the four sections of
a group have tables or none has. -/
structure Tables where
  ram : Ram
  tables : PID → Nat → Bool
  /-- The words of the L2 tables, by page number -/
  words : PID → Nat → Word

namespace Tables

def entry (t : Tables) (pid : PID) (slot : Nat) : L2TableEntry := .fromU32 (t.words pid slot)

/-! ## 1. Slots -/

def onRam {α : Type} (x : Prog Ram Panic Error α) : Prog Tables DescriptorPanic Error α := fun t =>
  match x t.ram with
  | (.ok a, ram) => (.ok a, { t with ram := ram })
  | (.err e, ram) => (.err e, { t with ram := ram })
  | (.panic p, ram) => (.panic (.kernel p), { t with ram := ram })

def readSlot (pid : PID) (slot : Nat) : Prog Tables DescriptorPanic Error L2TableEntry :=
  Prog.gets fun t => t.entry pid slot

def put (t : Tables) (pid : PID) (slot : Nat) (word : Word) : Tables :=
  { t with words := fun p v => if p = pid ∧ v = slot then word else t.words p v }

def writeSlot (pid : PID) (slot : Nat) (new : L2TableEntry) :
    Prog Tables DescriptorPanic Error Unit :=
  Prog.modify fun t => t.put pid slot new.asU32

def getL2Slot (pid : PID) (addr : Nat) : Prog Tables DescriptorPanic Error Nat := do
  if addr % PAGE_SIZE ≠ 0 then
    Prog.throw .badAlignment
  else if MemoryMapping.allowsSection pid (addr / 2 ^ 20) = false then
    Prog.throw .accessDenied
  else do
    let t ← Prog.get
    if t.tables pid (addr / PAGE_SIZE / 1024) then pure (addr / PAGE_SIZE)
    else Prog.throw .badAddress

/-- A page of four empty tables for the group. -/
def allocateTables (pid : PID) (group : Nat) : Prog Tables DescriptorPanic Error Unit := do
  let _ ← onRam (Ram.allocSinglePage pid)
  Prog.modify fun t =>
    { t with
      tables := fun p g => t.tables p g || decide (p = pid ∧ g = group)
      words := fun p v => if p = pid ∧ v / 1024 = group then 0 else t.words p v }

def allocateL2Slot (pid : PID) (virt : Nat) : Prog Tables DescriptorPanic Error Nat := do
  if virt % PAGE_SIZE ≠ 0 then
    Prog.throw .badAlignment
  else if MemoryMapping.allowsSection pid (virt / 2 ^ 20) = false then
    Prog.throw .accessDenied
  else do
    let t ← Prog.get
    Prog.onlyIf (t.tables pid (virt / PAGE_SIZE / 1024) = false)
      (allocateTables pid (virt / PAGE_SIZE / 1024))
    let existing ← readSlot pid (virt / PAGE_SIZE)
    if existing.isEmpty then pure (virt / PAGE_SIZE) else Prog.throw .memoryInUse

/-! ## 2. Pages -/

/-- The entry that `mapPage` writes: an address of 0 is that of an on-demand page. -/
def entryFor (phys : Word) (virt : Nat) (flags : MemoryFlags) (mapUser : Bool) :
    Prog Tables DescriptorPanic Error L2TableEntry :=
  if phys ≠ 0 then L2TableEntry.newMapped virt phys flags mapUser
  else L2TableEntry.newOnDemand phys flags mapUser

def mapPage (pid : PID) (phys : Word) (virt : Nat) (flags : MemoryFlags) (mapUser : Bool) :
    Prog Tables DescriptorPanic Error Unit := do
  Prog.require .mapRwx (!flags.isSet (MemoryFlags.W.or .X))
  let entry ← entryFor phys virt flags mapUser
  let slot ← allocateL2Slot pid virt
  writeSlot pid slot entry

/-- Back an on-demand entry with a page, which is then zeroed through the slot. -/
def allocateBackingPage (pid : PID) (slot virt : Nat) (entry : L2TableEntry) :
    Prog Tables DescriptorPanic Error Unit := do
  let flags ← entry.flags
  if flags.isSet .W = false then
    Prog.throw .accessDenied
  else do
    let (allocated, _) ← onRam (Ram.allocSinglePage pid)
    let phys := if flags.isSet .PLAINTEXT || flags.isSet .NO_CACHE || flags.isSet .DEV then
      toPlaintextPhysAddr allocated else allocated
    let backed ← entry.withPhys (BitVec.ofNat 32 phys)
    let mapped ← backed.toMapped virt
    writeSlot pid slot mapped

/-- An on-demand source gets a page before it is lent. -/
def backedEntry (pid : PID) (slot virt : Nat) (entry : L2TableEntry) :
    Prog Tables DescriptorPanic Error L2TableEntry :=
  if entry.isOnDemand then do
    allocateBackingPage pid slot virt entry
    readSlot pid slot
  else pure entry

/-- The entry that the borrower gets. -/
def lentEntry (mutable : Bool) (entry : L2TableEntry) :
    Prog Tables DescriptorPanic Error L2TableEntry :=
  if mutable then pure entry else entry.toImmutable

def lendPage (pid : PID) (srcAddr : Nat) (destPid : PID) (destAddr : Nat) (mutable : Bool) :
    Prog Tables DescriptorPanic Error Word := do
  let srcSlot ← getL2Slot pid srcAddr
  let entry ← readSlot pid srcSlot
  if pid ≠ PID.kernel ∧ entry.isUserAccessible = false then
    Prog.throw .accessDenied
  else do
    let entry ← backedEntry pid srcSlot srcAddr entry
    if entry.isMapped = false then
      Prog.throw .badAddress
    else do
      let destSlot ← allocateL2Slot destPid destAddr
      let reserved ← entry.toUnmapped
      writeSlot pid srcSlot reserved
      let lent ← lentEntry mutable entry
      writeSlot destPid destSlot lent
      entry.phys

/-- Return a page from `pid` to the process that lent it. -/
def returnPage (pid : PID) (srcAddr : Nat) (destPid : PID) (destAddr : Nat) :
    Prog Tables DescriptorPanic Error Word := do
  let srcSlot ← getL2Slot pid srcAddr
  let destSlot ← getL2Slot destPid destAddr
  let src ← readSlot pid srcSlot
  let dest ← readSlot destPid destSlot
  let srcPhys ← src.phys
  let destPhys ← dest.phys
  if srcPhys ≠ destPhys then
    Prog.throw .shareViolation
  else do
    writeSlot pid srcSlot .empty
    let returned ← dest.toMapped destAddr
    writeSlot destPid destSlot returned
    dest.phys

/-! ## 3. What each operation does -/

variable {t s : Tables} {pid dest p : PID} {virt src daddr v : Nat} {A : DescriptorPanic → Prop}

/-- No word of `t` changed, but new tables are empty. -/
structure Frame (t s : Tables) : Prop where
  tables : ∀ p g, t.tables p g = true → s.tables p g = true
  kept : ∀ p v, t.tables p (v / 1024) = true → s.words p v = t.words p v
  words : ∀ p v, s.words p v = t.words p v ∨ s.words p v = 0

theorem Frame.refl : Frame t t := ⟨fun _ _ => id, fun _ _ _ => rfl, fun _ _ => .inl rfl⟩

/-- The process can have a slot for the page. -/
def Accessible (pid : PID) (virt : Nat) : Prop :=
  virt % PAGE_SIZE = 0 ∧ MemoryMapping.allowsSection pid (virt / 2 ^ 20) = true

theorem onRam_spec {α : Type} (hA : ∀ p, A (.kernel p)) (x : Prog Ram Panic Error α) :
    Triple (· = t) (onRam x) (fun _ s => s.tables = t.tables ∧ s.words = t.words)
      (fun _ s => s.tables = t.tables ∧ s.words = t.words) A := by
  intro s hs
  subst hs
  unfold onRam
  rcases x s.ram with ⟨o, ram⟩
  cases o with
  | ok a => exact ⟨rfl, rfl⟩
  | err e => exact ⟨rfl, rfl⟩
  | panic p => exact hA p

theorem isEmpty_entry : (t.entry p v).isEmpty = true ↔ t.words p v = 0 := by
  unfold entry L2TableEntry.fromU32
  split
  next h => exact iff_of_true rfl h
  next h =>
    split
    · exact iff_of_false Bool.false_ne_true h
    · exact iff_of_false Bool.false_ne_true h

@[simp] theorem writeSlot_run (pid : PID) (slot : Nat) (new : L2TableEntry) (t : Tables) :
    writeSlot pid slot new t = (.ok (), t.put pid slot new.asU32) := rfl

@[simp] theorem words_put {slot : Nat} {word : Word} : (t.put pid slot word).words pid slot = word :=
  if_pos ⟨rfl, rfl⟩

theorem words_put_of_ne {slot : Nat} {word : Word} (h : ¬ (p = pid ∧ v = slot)) :
    (t.put pid slot word).words p v = t.words p v :=
  if_neg h

theorem getL2Slot_spec : Triple (· = t) (getL2Slot pid virt)
    (fun slot s => slot = virt / PAGE_SIZE ∧ s = t ∧ t.tables pid (virt / PAGE_SIZE / 1024) = true ∧
      Accessible pid virt) (fun _ s => s = t) A := by
  rw [getL2Slot]
  split
  next => exact Triple.throw fun _ hs => hs
  next haligned =>
    split
    next => exact Triple.throw fun _ hs => hs
    next hallowed =>
      refine Triple.get_bind fun s hs => ?_
      subst hs
      split
      next htable =>
        exact Triple.pure fun _ hs =>
          ⟨rfl, hs, htable, not_not.1 haligned, Bool.of_not_eq_false hallowed⟩
      next => exact Triple.throw fun _ hs => hs

theorem getL2Slot_run (h : Accessible pid virt)
    (htable : t.tables pid (virt / PAGE_SIZE / 1024) = true) :
    getL2Slot pid virt t = (.ok (virt / PAGE_SIZE), t) := by
  have hallowed : ¬ MemoryMapping.allowsSection pid (virt / 2 ^ 20) = false := by
    rw [h.2]
    exact Bool.true_eq_false.mp
  rw [getL2Slot, if_neg (not_not_intro h.1), if_neg hallowed, Prog.bind_ok _ (Prog.get_run t), if_pos htable]
  rfl

theorem allocateTables_spec (hA : ∀ p, A (.kernel p)) {group : Nat}
    (hnone : t.tables pid group = false) :
    Triple (· = t) (allocateTables pid group) (fun _ s => Frame t s ∧ s.tables pid group = true)
      (fun _ s => Frame t s) A := by
  refine Triple.bind ((onRam_spec hA _).conseq (fun _ hs => hs) (fun _ _ hs => hs)
    (fun _ s hs => ⟨fun p g => hs.1 ▸ id, fun p v _ => congrFun (congrFun hs.2 p) v,
      fun p v => .inl (congrFun (congrFun hs.2 p) v)⟩) fun _ => id) fun _ => ?_
  refine Triple.modify fun s hs => ?_
  rw [hs.1, hs.2]
  refine ⟨⟨fun p g h => by simp [h], fun p v h => if_neg ?_, fun p v => ?_⟩, by simp⟩
  · rintro ⟨rfl, rfl⟩
    rw [hnone] at h
    cases h
  · dsimp only
    split
    · exact .inr rfl
    · exact .inl rfl

theorem allocateL2Slot_spec (hA : ∀ p, A (.kernel p)) :
    Triple (· = t) (allocateL2Slot pid virt)
      (fun slot s => slot = virt / PAGE_SIZE ∧ s.words pid (virt / PAGE_SIZE) = 0 ∧
        s.tables pid (virt / PAGE_SIZE / 1024) = true ∧ Accessible pid virt ∧ Frame t s)
      (fun _ s => Frame t s) A := by
  rw [allocateL2Slot]
  split
  next => exact Triple.throw fun _ hs => hs ▸ Frame.refl
  next haligned =>
    split
    next => exact Triple.throw fun _ hs => hs ▸ Frame.refl
    next hallowed =>
      refine Triple.get_bind fun s hs => ?_
      subst hs
      refine Triple.bind (Q := fun _ t => Frame s t ∧
        t.tables pid (virt / PAGE_SIZE / 1024) = true) ?_ fun _ => ?_
      · unfold Prog.onlyIf
        split
        next hnone => exact allocateTables_spec hA hnone
        next hsome =>
          exact Triple.pure fun t ht => by
            subst ht
            exact ⟨Frame.refl, Bool.of_not_eq_false hsome⟩
      · refine Triple.bind (Triple.gets (Q := fun e t => e = t.entry pid (virt / PAGE_SIZE) ∧
          Frame s t ∧ t.tables pid (virt / PAGE_SIZE / 1024) = true)
          fun t ht => ⟨rfl, ht⟩) fun e => ?_
        split
        next hempty =>
          rintro t ⟨rfl, hframe, htable⟩
          exact ⟨rfl, isEmpty_entry.1 hempty, htable,
            ⟨not_not.1 haligned, Bool.of_not_eq_false hallowed⟩, hframe⟩
        next => exact Triple.throw fun t ht => ht.2.1

/-! ## 4. A page on loan -/

open Kernel.Descriptors.L2TableEntry

/-- What the words of a small page descriptor hold, one truth value a field. -/
structure Page where
  addr : Word
  x : Bool
  dev : Bool
  noCache : Bool
  w : Bool
  user : Bool
  ng : Bool
  aligned : Aligned addr
  nonzero : addr ≠ 0

namespace Page

def word (page : Page) : Word :=
  page.addr ||| fields page.x page.dev page.noCache page.w page.user page.ng

/-- The word of the lender's slot while the page is lent. -/
def reserved (page : Page) : Word :=
  reservation page.addr (decoded page.w page.x (page.dev || page.noCache) page.dev
    (isAddressInPlaintextDram page.addr.toNat)) page.user

/-- The page as its borrower has it. -/
def lent (page : Page) (mutable : Bool) : Page := { page with w := page.w && mutable }

theorem entry_word (page : Page) : fromU32 page.word = .mapped ⟨page.word⟩ :=
  fromU32_fields page.aligned

theorem word_ne_zero (page : Page) : page.word ≠ 0 := fun h => by
  have hentry := page.entry_word
  rw [h] at hentry
  cases hentry

theorem entry_reserved (page : Page) : fromU32 page.reserved = .unmapped page.reserved :=
  (fromU32_reservation page.aligned page.nonzero).1

theorem reserved_addr (page : Page) : page.reserved &&& ~~~ PAGE_MASK = page.addr :=
  (fromU32_reservation page.aligned page.nonzero).2

theorem phys_word (page : Page) (s : Tables) : (mapped ⟨page.word⟩).phys s = (.ok page.addr, s) :=
  unwrapAddr_run page.aligned

theorem toUnmapped_word (page : Page) (s : Tables) :
    (mapped ⟨page.word⟩).toUnmapped s = (.ok (.unmapped page.reserved), s) :=
  toUnmapped_run page.aligned

/-- An immutable loan clears the access to write and nothing else. -/
theorem lent_word (page : Page) (mutable : Bool) (s : Tables) :
    lentEntry mutable (.mapped ⟨page.word⟩) s = (.ok (.mapped ⟨(page.lent mutable).word⟩), s) := by
  unfold lentEntry
  cases mutable with
  | true =>
    rw [if_pos rfl, word, word, lent, Bool.and_true]
    rfl
  | false =>
    rw [if_neg Bool.false_ne_true, toImmutable, word, word, lent, Bool.and_false, BitVec.or_assoc,
      fields_immutable]
    rfl

/-- Returning makes the descriptor of the same address again. -/
theorem toMapped_reserved (page : Page) (hng : page.ng = decide (virt < TTBR1_SPLIT)) (s : Tables) :
    (unmapped page.reserved).toMapped virt s = (.ok (.mapped ⟨page.word⟩), s) := by
  rw [reserved, toMapped_run page.aligned, fields_decoded_eq hng, word]

end Page

variable {page : Page} {mutable : Bool}

/-- The slots of the lender and of the borrower while the page is lent. -/
structure Lent (page : Page) (pid : PID) (src : Nat) (dest : PID) (daddr : Nat) (mutable : Bool)
    (s : Tables) : Prop where
  lender : Accessible pid src
  lenderTable : s.tables pid (src / PAGE_SIZE / 1024) = true
  borrower : Accessible dest daddr
  borrowerTable : s.tables dest (daddr / PAGE_SIZE / 1024) = true
  apart : ¬ (pid = dest ∧ src / PAGE_SIZE = daddr / PAGE_SIZE)
  reserved : s.words pid (src / PAGE_SIZE) = page.reserved
  lent : s.words dest (daddr / PAGE_SIZE) = (page.lent mutable).word

theorem lend_spec (hA : ∀ p, A (.kernel p)) (hword : t.words pid (src / PAGE_SIZE) = page.word) :
    Triple (· = t) (lendPage pid src dest daddr mutable)
      (fun addr s => addr = page.addr ∧ Lent page pid src dest daddr mutable s ∧
        ∀ p v, ¬ (p = pid ∧ v = src / PAGE_SIZE) → ¬ (p = dest ∧ v = daddr / PAGE_SIZE) →
          s.words p v = t.words p v ∨ s.words p v = 0)
      (fun _ s => Frame t s) A := by
  have hentry : t.entry pid (src / PAGE_SIZE) = .mapped ⟨page.word⟩ := by
    rw [entry, hword, page.entry_word]
  rw [lendPage]
  refine Triple.bind (getL2Slot_spec.conseq (fun _ hs => hs) (fun _ _ hs => hs)
    (fun _ s hs => hs ▸ Frame.refl) fun _ => id) fun slot => ?_
  refine Triple.bind (Triple.gets (Q := fun e s => e = .mapped ⟨page.word⟩ ∧
    slot = src / PAGE_SIZE ∧ s = t ∧ t.tables pid (src / PAGE_SIZE / 1024) = true ∧
    Accessible pid src) fun s hs => ?_) fun e => ?_
  · obtain ⟨rfl, rfl, hrest⟩ := hs
    exact ⟨hentry, rfl, rfl, hrest⟩
  split
  next => exact Triple.throw fun s hs => hs.2.2.1 ▸ Frame.refl
  next =>
    rintro s ⟨rfl, rfl, rfl, htable, haccess⟩
    refine (?_ : Triple (· = s) _ _ _ _) s rfl
    have hbacked : backedEntry pid (src / PAGE_SIZE) src (.mapped ⟨page.word⟩) =
        pure (.mapped ⟨page.word⟩) := rfl
    rw [hbacked]
    refine Triple.bind (Q := fun e u => e = .mapped ⟨page.word⟩ ∧ u = s)
      (Triple.pure fun _ hu => ⟨rfl, hu⟩) fun e => ?_
    split
    next hnone =>
      rintro u ⟨rfl, -⟩
      cases hnone
    next =>
      rintro u ⟨rfl, rfl⟩
      refine (?_ : Triple (· = u) _ _ _ _) u rfl
      refine Triple.bind (allocateL2Slot_spec hA) fun slot => ?_
      rintro s ⟨rfl, hempty, htable', haccess', hframe⟩
      refine (?_ : Triple (· = s) _ _ _ _) s rfl
      have hword' : s.words pid (src / PAGE_SIZE) ≠ 0 := by
        rw [hframe.kept _ _ htable, hword]
        exact page.word_ne_zero
      have hapart : ¬ (pid = dest ∧ src / PAGE_SIZE = daddr / PAGE_SIZE) := by
        rintro ⟨rfl, heq⟩
        rw [heq] at hword'
        exact hword' hempty
      intro s' hs'
      subst hs'
      rw [Prog.bind_ok _ (page.toUnmapped_word _), Prog.bind_ok _ (writeSlot_run _ _ _ _),
        Prog.bind_ok _ (page.lent_word mutable _), Prog.bind_ok _ (writeSlot_run _ _ _ _),
        page.phys_word]
      refine ⟨rfl, ⟨haccess, hframe.tables _ _ htable, haccess', htable', hapart, ?_, ?_⟩,
        fun p v hlender hborrower => ?_⟩
      · rw [words_put_of_ne hapart, words_put]
        rfl
      · rw [words_put]
        rfl
      · rw [words_put_of_ne hborrower, words_put_of_ne hlender]
        exact hframe.words p v

/-- Whatever happened meanwhile, a return from the two slots of the loan restores the lender's
word and frees the borrower's slot. -/
theorem return_spec (hng : page.ng = decide (src < TTBR1_SPLIT))
    (h : Lent page pid src dest daddr mutable s) :
    ∃ s', returnPage dest daddr pid src s = (.ok page.addr, s') ∧
      s'.words pid (src / PAGE_SIZE) = page.word ∧ s'.words dest (daddr / PAGE_SIZE) = 0 ∧
      ∀ p v, ¬ (p = pid ∧ v = src / PAGE_SIZE) → ¬ (p = dest ∧ v = daddr / PAGE_SIZE) →
        s'.words p v = s.words p v := by
  have hsrc : s.entry dest (daddr / PAGE_SIZE) = .mapped ⟨(page.lent mutable).word⟩ := by
    rw [entry, h.lent, Page.entry_word]
  have hdest : s.entry pid (src / PAGE_SIZE) = .unmapped page.reserved := by
    rw [entry, h.reserved, Page.entry_reserved]
  have hphys : (unmapped page.reserved).phys s = (.ok page.addr, s) := by
    rw [phys, page.reserved_addr]
    rfl
  have hsame : ¬ (page.lent mutable).addr ≠ page.addr := not_not_intro rfl
  refine ⟨(s.put dest (daddr / PAGE_SIZE) 0).put pid (src / PAGE_SIZE) page.word, ?_, words_put, ?_,
    fun p v hlender hborrower => ?_⟩
  · rw [returnPage, Prog.bind_ok _ (getL2Slot_run h.borrower h.borrowerTable),
      Prog.bind_ok _ (getL2Slot_run h.lender h.lenderTable), readSlot, readSlot,
      Prog.bind_ok _ (Prog.gets_run _ _), Prog.bind_ok _ (Prog.gets_run _ _), hsrc, hdest,
      Prog.bind_ok _ (Page.phys_word _ _), Prog.bind_ok _ hphys, if_neg hsame,
      Prog.bind_ok _ (writeSlot_run _ _ _ _), Prog.bind_ok _ (page.toMapped_reserved hng _),
      Prog.bind_ok _ (writeSlot_run _ _ _ _), phys, page.reserved_addr]
    rfl
  · rw [words_put_of_ne fun heq => h.apart ⟨heq.1.symm, heq.2.symm⟩, words_put]
  · rw [words_put_of_ne hlender, words_put_of_ne hborrower]

/-! ## 5. Pages that `mapPage` maps -/

/-- A mapped entry that `mapPage` leaves is the descriptor of a page. -/
theorem mapPage_spec {phys : Word} {flags : MemoryFlags} {mapUser : Bool} :
    Triple (fun _ => True) (mapPage pid phys virt flags mapUser)
      (fun _ s => (s.entry pid (virt / PAGE_SIZE)).isMapped = true →
        ∃ page : Page, page.addr = phys ∧ page.ng = decide (virt < TTBR1_SPLIT) ∧
          s.words pid (virt / PAGE_SIZE) = page.word) (fun _ _ => True) fun _ => True := by
  refine Triple.bind (Q := fun _ _ => True) (Triple.require (fun _ _ _ => trivial) fun _ => trivial)
    fun _ => ?_
  refine Triple.bind (Q := fun e _ => (fromU32 e.asU32).isMapped = true →
    ∃ page : Page, page.addr = phys ∧ page.ng = decide (virt < TTBR1_SPLIT) ∧
      e.asU32 = page.word) ?_ fun e => ?_
  · unfold entryFor
    split
    next hne =>
      by_cases haligned : Aligned phys
      · intro s _
        rw [newMapped_run haligned, smallPageFlags_eq]
        exact fun _ => ⟨⟨phys, _, _, _, _, _, _, haligned, hne⟩, rfl, rfl, rfl⟩
      · intro s _
        rw [newMapped_unaligned haligned]
        trivial
    next hzero =>
      obtain rfl : phys = 0 := not_not.1 hzero
      have hzero : Aligned 0 := BitVec.zero_and
      intro s _
      rw [newOnDemand_run hzero]
      intro hmapped
      rw [asU32, isMapped_onDemand] at hmapped
      cases hmapped
  · intro s hs
    refine (?_ : Triple (· = s) _ _ _ _) s rfl
    refine Triple.bind ((allocateL2Slot_spec fun _ => trivial).conseq (fun _ h => h) (fun _ _ h => h)
      (fun _ _ _ => trivial) fun _ => id) fun slot => ?_
    rintro t ⟨rfl, -⟩
    rw [writeSlot_run]
    show (fromU32 ((t.put _ _ _).words _ _)).isMapped = true → _
    rw [words_put]
    exact hs

/-- A page that `mapPage` mapped, lent and returned. While it is lent, the lender's slot is
reserved for it, and an immutable loan gives nobody access to write: who can write to the
page could do so before, through another slot. However the other slots change meanwhile,
the return restores the lender's word and frees the borrower's slot. -/
theorem return_undoes_lend {pid₀ : PID} {phys addr : Word} {flags : MemoryFlags} {mapUser : Bool}
    {t₀ t₁ : Tables} (hmap : mapPage pid₀ phys src flags mapUser t₀ = (.ok (), t₁))
    (hmapped : (t₁.entry pid₀ (src / PAGE_SIZE)).isMapped = true)
    (hword : t.words pid (src / PAGE_SIZE) = t₁.words pid₀ (src / PAGE_SIZE))
    (hlend : lendPage pid src dest daddr mutable t = (.ok addr, s)) :
    addr = phys ∧
    ((s.entry pid (src / PAGE_SIZE)).isEmpty = false ∧
      (s.entry pid (src / PAGE_SIZE)).isMapped = false ∧
      (s.entry pid (src / PAGE_SIZE)).isShared = true ∧
      (s.entry pid (src / PAGE_SIZE)).phys s = (.ok phys, s)) ∧
    (mutable = false → ∀ p v a, Writable (s.entry p v) a →
      Writable (t.entry p v) a ∧ ¬ (p = pid ∧ v = src / PAGE_SIZE) ∧
        ¬ (p = dest ∧ v = daddr / PAGE_SIZE)) ∧
    ∀ s' : Tables, (∀ p g, s.tables p g = true → s'.tables p g = true) →
      s'.words pid (src / PAGE_SIZE) = s.words pid (src / PAGE_SIZE) →
      s'.words dest (daddr / PAGE_SIZE) = s.words dest (daddr / PAGE_SIZE) →
      ∃ s'', returnPage dest daddr pid src s' = (.ok phys, s'') ∧
        s''.words pid (src / PAGE_SIZE) = t.words pid (src / PAGE_SIZE) ∧
        s''.entry dest (daddr / PAGE_SIZE) = .empty := by
  have hpage := @mapPage_spec pid₀ src phys flags mapUser t₀ trivial
  rw [hmap] at hpage
  obtain ⟨page, rfl, hng, hpageWord⟩ := hpage hmapped
  rw [hpageWord] at hword
  have hlent := @lend_spec t pid dest src daddr (fun _ => True) page mutable (fun _ => trivial)
    hword t rfl
  rw [hlend] at hlent
  obtain ⟨rfl, hlent, hothers⟩ := hlent
  have hreserved : s.entry pid (src / PAGE_SIZE) = .unmapped page.reserved := by
    rw [entry, hlent.reserved, page.entry_reserved]
  refine ⟨rfl, ?_, ?_, fun s' htables hsrc hdest => ?_⟩
  · rw [hreserved, phys, isShared, page.reserved_addr]
    exact ⟨rfl, rfl, bne_iff_ne.2 page.nonzero, rfl⟩
  · rintro rfl p v a hwritable
    have hlender : ¬ (p = pid ∧ v = src / PAGE_SIZE) := by
      rintro ⟨rfl, rfl⟩
      obtain ⟨d, hd, -⟩ := hwritable
      rw [hreserved] at hd
      cases hd
    have hborrower : ¬ (p = dest ∧ v = daddr / PAGE_SIZE) := by
      rintro ⟨rfl, rfl⟩
      rw [entry, hlent.lent, Page.entry_word, Page.word, Page.lent, Bool.and_false] at hwritable
      exact not_writable_immutable page.aligned hwritable
    refine ⟨?_, hlender, hborrower⟩
    rcases hothers p v hlender hborrower with heq | hzero
    · rwa [entry, ← heq]
    · obtain ⟨d, hd, -⟩ := hwritable
      rw [entry, hzero] at hd
      cases hd
  · have hloan : Lent page pid src dest daddr mutable s' :=
      ⟨hlent.lender, htables _ _ hlent.lenderTable, hlent.borrower,
        htables _ _ hlent.borrowerTable, hlent.apart, hsrc.trans hlent.reserved,
        hdest.trans hlent.lent⟩
    obtain ⟨s'', hreturn, hrestored, hfree, -⟩ := return_spec hng hloan
    refine ⟨s'', hreturn, hrestored.trans hword.symm, ?_⟩
    rw [entry, hfree]
    rfl

/-- Every section has a table and no slot is in use. -/
def blank : Tables := ⟨Ram.init fun _ => none, fun _ _ => true, fun _ _ => 0⟩

/-- A user page, mapped writable. -/
def userPage : Tables := (mapPage ⟨3, PID.three_ne⟩ 0x40001000 0x30000000 .W true blank).2

/-- The page on loan without access to write. -/
def onLoan : Tables :=
  (lendPage ⟨3, PID.three_ne⟩ 0x30000000 ⟨4, PID.four_ne⟩ 0x31000000 false userPage).2

theorem return_undoes_lend_page : ∃ s',
    returnPage ⟨4, by decide⟩ 0x31000000 ⟨3, by decide⟩ 0x30000000 onLoan =
        (.ok 0x40001000, s') ∧
      s'.words ⟨3, by decide⟩ (0x30000000 / PAGE_SIZE) =
        userPage.words ⟨3, by decide⟩ (0x30000000 / PAGE_SIZE) ∧
      s'.entry ⟨4, by decide⟩ (0x31000000 / PAGE_SIZE) = .empty := by
  have hmap : mapPage ⟨3, by decide⟩ 0x40001000 0x30000000 .W true blank = (.ok (), userPage) :=
    rfl
  have hlend : lendPage ⟨3, by decide⟩ 0x30000000 ⟨4, by decide⟩ 0x31000000 false userPage =
    (.ok 0x40001000, onLoan) := rfl
  exact (return_undoes_lend hmap rfl rfl hlend).2.2.2 onLoan (fun _ _ => id) rfl rfl

/-- UART1 is mapped by the kernel and by a process that lends its page without access to
write. The kernel's mapping stays writable. -/
theorem shared_peripheral_stays_writable : ∃ s,
    (do
      mapPage PID.kernel 0xf8020000 0x90000000 (MemoryFlags.W.or .DEV) false
      mapPage ⟨3, by decide⟩ 0xf8020000 0x30000000 (MemoryFlags.W.or .DEV) true
      lendPage ⟨3, by decide⟩ 0x30000000 ⟨4, by decide⟩ 0x31000000 false) blank =
        (.ok 0xf8020000, s) ∧
    Writable (s.entry PID.kernel (0x90000000 / PAGE_SIZE)) 0xf8020000 :=
  ⟨_, rfl, _, rfl, rfl, rfl⟩

end Tables

end Kernel.Descriptors
