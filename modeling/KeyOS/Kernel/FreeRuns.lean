import KeyOS.Kernel.Descriptors
import KeyOS.Lib.FirstRun

/-!
# Free address ranges

`find_free_run` reads the L1 descriptor of a section once. A section without an L2 table is
free as a whole, one with an L2 table is read entry by entry, and one that is mapped directly
is in use. `find_virtual_address` searches from the allocation hint to the end of the area and
then from the start of the area to just above the hint.

* `findFreeRun_answers` says that the scan finds the lowest run or that there is none.
* `findVirtualAddress_exact` says that the two searches together miss nothing.
-/

namespace Kernel.FreeRuns

open Exec FirstRun
open Kernel.Descriptors (Word)

/-! ## 1. Addresses and L1 descriptors -/

def TRANSLATION_TABLE_SIZE : Nat := 4096

def PAGE_TABLE_SIZE : Nat := 256

namespace VirtualAddress

def translationTableIndex (addr : Nat) : Nat := addr >>> 20

def pageTableIndex (addr : Nat) : Nat := (addr &&& 0xfffff) >>> 12

def fromIndices (translationIndex pageIndex offset : Nat) : Option Nat :=
  if TRANSLATION_TABLE_SIZE ≤ translationIndex ∨ PAGE_TABLE_SIZE ≤ pageIndex ∨ 0xfff ≤ offset then
    none
  else
    some (translationIndex <<< 20 ||| pageIndex <<< 12 ||| offset)

end VirtualAddress

inductive TranslationTableType where
  | invalid
  | page
  /-- A mapping of 1 MiB -/
  | mappedSection
  /-- A mapping of 16 MiB -/
  | supersection
deriving DecidableEq

namespace TranslationTableType

def align : TranslationTableType → Word
  | .invalid => 0
  | .page => 0x3ff
  | .mappedSection => 0xf_ffff
  | .supersection => 0xf_ffff

end TranslationTableType

namespace TranslationTableDescriptor

def getType (word : Word) : TranslationTableType :=
  if word &&& 0b11 = 0b00 then .invalid
  else if word &&& 0b11 = 0b01 then .page
  else if word &&& 0x40000 = 0 then .mappedSection
  else .supersection

def getAddr (word : Word) : Option Word :=
  if getType word = .invalid then none else some (word &&& ~~~ (getType word).align)

end TranslationTableDescriptor

open VirtualAddress TranslationTableDescriptor

/-! ## 2. The search -/

/-- The `unwrap` calls of the search. -/
inductive FreeRunPanic where
  /-- `from_indices(vpn1 + 1, 0, 0).unwrap()` -/
  | noNextSection
  /-- `l1.get_addr().unwrap()` -/
  | invalidMemory
deriving DecidableEq

/-- The tables of a process: the L1 descriptors, and the words of the L2 table at a physical
address. -/
structure MemoryMapping where
  l1 : Nat → Word
  l2 : Word → Nat → Word

/-- `run_start` and `run_len` -/
structure Run where
  start : Nat
  len : Nat

/-- Count `pages` free pages at `addr`. -/
def Run.extend (run : Run) (addr pages : Nat) : Run :=
  ⟨if run.len = 0 then addr else run.start, run.len + pages⟩

/-- What a part of the scan ends with: the start of a run, or the address to go on at. -/
inductive Scan where
  | found (start : Nat)
  | more (addr : Nat) (run : Run)

namespace MemoryMapping

/-- `L2Slot::at(l2_base, addr).read()` -/
def readSlot (m : MemoryMapping) (l2Base : Word) (addr : Nat) : Descriptors.L2TableEntry :=
  .fromU32 (m.l2 l2Base (pageTableIndex addr))

/-- The loop over a section with an L2 table, with `left` pages to look at. -/
def scanPages (m : MemoryMapping) (l2Base : Word) (needed : Nat) : Nat → Nat → Run → Scan
  | 0, addr, run => .more addr run
  | left + 1, addr, run =>
    if (m.readSlot l2Base addr).isEmpty then
      if needed ≤ (run.extend addr 1).len then .found (run.extend addr 1).start
      else scanPages m l2Base needed left (addr + PAGE_SIZE) (run.extend addr 1)
    else scanPages m l2Base needed left (addr + PAGE_SIZE) ⟨run.start, 0⟩

/-- One section, from `addr` on. -/
def scanSection (m : MemoryMapping) (needed addr sectionEnd : Nat) (run : Run) :
    Except FreeRunPanic Scan :=
  let l1 := m.l1 (translationTableIndex addr)
  match getType l1 with
  -- No L2 table: the whole rest of the section is free
  | .invalid =>
    let run := run.extend addr ((sectionEnd - addr) / PAGE_SIZE)
    .ok (if needed ≤ run.len then .found run.start else .more sectionEnd run)
  | .page =>
    match getAddr l1 with
    | some l2Base =>
      .ok (m.scanPages l2Base needed ((sectionEnd - addr + PAGE_SIZE - 1) / PAGE_SIZE) addr run)
    | none => .error .invalidMemory
  -- Occupied, breaks the run
  | .mappedSection | .supersection => .ok (.more sectionEnd ⟨run.start, 0⟩)

/-- The loop of `find_free_run`. `fuel` is the number of sections up to `stop`. -/
def scan (m : MemoryMapping) (stop needed : Nat) :
    Nat → Nat → Run → Except FreeRunPanic (Option Nat)
  | 0, _, _ => .ok none
  | fuel + 1, addr, run =>
    if addr < stop then
      match fromIndices (translationTableIndex addr + 1) 0 0 with
      | none => .error .noNextSection
      | some next =>
        match m.scanSection needed addr (min next stop) run with
        | .error e => .error e
        | .ok (.found start) => .ok (some start)
        | .ok (.more addr run) => scan m stop needed fuel addr run
    else .ok none

/-- Start of the first run of `needed` free pages in `[start, stop)`. -/
def findFreeRun (m : MemoryMapping) (start stop needed : Nat) : Except FreeRunPanic (Option Nat) :=
  m.scan stop needed
    (translationTableIndex stop + 1 - translationTableIndex start) start ⟨start, 0⟩

end MemoryMapping

/-- A process, as far as it is searched. -/
structure AddressSpace where
  mapping : MemoryMapping
  allocationHint : Nat

/-- `find_free_run` of a program. -/
def freeRun (m : MemoryMapping) (start stop needed : Nat) :
    Prog AddressSpace FreeRunPanic Error (Option Nat) :=
  match m.findFreeRun start stop needed with
  | .ok answer => pure answer
  | .error p => Prog.panic p

def saturatingAdd (a b : Nat) : Nat := min (a + b) (2 ^ 32 - 1)

/-- The two searches: forward from the hint, then the area below it. -/
def searchAround (m : MemoryMapping) (hint size : Nat) :
    Prog AddressSpace FreeRunPanic Error (Option Nat) := do
  match ← freeRun m hint MMAP_AREA_VIRT_END (size / PAGE_SIZE) with
  | some start => pure (some start)
  | none =>
    freeRun m MMAP_AREA_VIRT (min (saturatingAdd hint size) MMAP_AREA_VIRT_END) (size / PAGE_SIZE)

def findVirtualAddress (virt size : Nat) : Prog AddressSpace FreeRunPanic Error Nat := do
  if virt ≠ 0 then
    pure virt
  else if MMAP_AREA_VIRT_END - MMAP_AREA_VIRT < size then
    Prog.throw .outOfMemory
  else do
    let p ← Prog.get
    let found ← searchAround p.mapping p.allocationHint size
    let start ← Prog.okOr .badAddress found
    Prog.modify fun p => { p with allocationHint := min (start + size) MMAP_AREA_VIRT_END }
    pure start

/-! ## 3. What a search should find -/

namespace MemoryMapping

/-- Nothing is mapped or reserved at the page. -/
def isUnmapped (m : MemoryMapping) (page : Nat) : Bool :=
  let l1 := m.l1 (page / PAGE_TABLE_SIZE)
  match getType l1 with
  | .invalid => true
  | .page =>
    (Descriptors.L2TableEntry.fromU32 (m.l2 (l1 &&& ~~~ TranslationTableType.page.align)
      (page % PAGE_TABLE_SIZE))).isEmpty
  | .mappedSection | .supersection => false

/-- The lowest run of `needed` unmapped pages of `[first, stop)`, or that there is none. -/
def Answers (m : MemoryMapping) (first stop needed : Nat) : Option Nat → Prop
  | some addr => ∃ v, addr = v * PAGE_SIZE ∧
      IsLowest (fun page => m.isUnmapped page = true) first stop needed v
  | none => ∀ v, ¬ IsRun (fun page => m.isUnmapped page = true) first stop needed v

end MemoryMapping

/-! ## 4. The scan -/

variable {m : MemoryMapping} {first stop needed page k : Nat} {run : Run}

theorem translationTableIndex_page : translationTableIndex (page * PAGE_SIZE) = page / PAGE_TABLE_SIZE := by
  rw [translationTableIndex, Nat.shiftRight_eq_div_pow, PAGE_SIZE, PAGE_TABLE_SIZE]
  omega

theorem pageTableIndex_page : pageTableIndex (page * PAGE_SIZE) = page % PAGE_TABLE_SIZE := by
  have hmask : (0xfffff : Nat) = 2 ^ 20 - 1 := rfl
  rw [pageTableIndex, hmask, Nat.and_two_pow_sub_one_eq_mod, Nat.shiftRight_eq_div_pow, PAGE_SIZE,
    PAGE_TABLE_SIZE]
  omega

theorem fromIndices_section {vpn1 : Nat} (h : vpn1 < TRANSLATION_TABLE_SIZE) :
    fromIndices vpn1 0 0 = some (vpn1 * PAGE_TABLE_SIZE * PAGE_SIZE) := by
  rw [fromIndices, if_neg (by rw [PAGE_TABLE_SIZE]; omega), Nat.zero_shiftLeft, Nat.or_zero,
    Nat.or_zero, Nat.shiftLeft_eq, PAGE_TABLE_SIZE, PAGE_SIZE, Nat.mul_assoc]

theorem getAddr_page {word : Word} (h : getType word = .page) :
    getAddr word = some (word &&& ~~~ TranslationTableType.page.align) := by
  rw [getAddr, h]
  rfl

/-- The invariant of the scan at the address of `page`. -/
structure At (m : MemoryMapping) (first needed page : Nat) (run : Run) : Prop where
  scanned : Scanned (fun page => m.isUnmapped page = true) first needed page run.len
  start : run.len ≠ 0 → run.start = (page - run.len) * PAGE_SIZE

theorem At.extend_start (h : At m first needed page run) :
    (run.extend (page * PAGE_SIZE) k).start = (page - run.len) * PAGE_SIZE := by
  unfold Run.extend
  dsimp only
  split
  next hzero => rw [hzero, Nat.sub_zero]
  next hne => exact h.start hne

/-- Free pages extend the run. -/
theorem At.extend (h : At m first needed page run) (hshort : ¬ needed ≤ (run.extend (page * PAGE_SIZE) k).len)
    (hfree : ∀ u, page ≤ u → u < page + k → m.isUnmapped u = true) :
    At m first needed (page + k) (run.extend (page * PAGE_SIZE) k) := by
  refine ⟨h.scanned.extend (Nat.not_le.1 hshort) hfree, fun _ => ?_⟩
  have hlen : page + k - (run.extend (page * PAGE_SIZE) k).len = page - run.len := by
    rw [Run.extend]
    dsimp only
    omega
  rw [hlen]
  exact h.extend_start

/-- Free pages complete the run. -/
theorem At.found (h : At m first needed page run) (hfull : needed ≤ (run.extend (page * PAGE_SIZE) k).len)
    (hfree : ∀ u, page ≤ u → u < page + k → m.isUnmapped u = true) (hstop : page + k ≤ stop) :
    m.Answers first stop needed (some (run.extend (page * PAGE_SIZE) k).start) :=
  ⟨page - run.len, h.extend_start, h.scanned.found hfull hfree hstop⟩

/-- Pages in use break it. -/
theorem At.occupied (h : At m first needed page run) (hk : 0 < k)
    (hused : ∀ u, page ≤ u → u < page + k → m.isUnmapped u = false) :
    At m first needed (page + k) ⟨run.start, 0⟩ :=
  ⟨h.scanned.occupied hk fun u hle hlt => by rw [hused u hle hlt]; exact Bool.false_ne_true,
    fun hne => absurd rfl hne⟩

/-- What a part of the scan that starts at `page` and covers `k` pages ends with. -/
def Covers (m : MemoryMapping) (first stop needed page k : Nat) : Scan → Prop
  | .found start => m.Answers first stop needed (some start)
  | .more addr run => addr = (page + k) * PAGE_SIZE ∧ At m first needed (page + k) run

theorem scanPages_covers {l2Base : Word} (hstop : page + k ≤ stop) (h : At m first needed page run)
    (hread : ∀ u, page ≤ u → u < page + k →
      m.isUnmapped u = (m.readSlot l2Base (u * PAGE_SIZE)).isEmpty) :
    Covers m first stop needed page k (m.scanPages l2Base needed k (page * PAGE_SIZE) run) := by
  induction k generalizing page run with
  | zero => exact ⟨rfl, h⟩
  | succ k ih =>
    have hnext : page * PAGE_SIZE + PAGE_SIZE = (page + 1) * PAGE_SIZE := by
      rw [Nat.add_mul, Nat.one_mul]
    have hcount : page + (k + 1) = page + 1 + k := by omega
    have hpage := hread page (Nat.le_refl _) (by omega)
    have hone : ∀ u, page ≤ u → u < page + 1 → u = page := fun u hle hlt => by omega
    have hrest : ∀ u, page + 1 ≤ u → u < page + 1 + k →
        m.isUnmapped u = (m.readSlot l2Base (u * PAGE_SIZE)).isEmpty :=
      fun u hle hlt => hread u (by omega) (by omega)
    unfold MemoryMapping.scanPages
    rw [hnext]
    have hgo : ∀ {run' : Run}, At m first needed (page + 1) run' →
        Covers m first stop needed page (k + 1)
          (m.scanPages l2Base needed k ((page + 1) * PAGE_SIZE) run') := by
      intro run' hrun'
      have hcovers := ih (by omega) hrun' hrest
      unfold Covers at hcovers ⊢
      rw [hcount]
      exact hcovers
    split
    next hempty =>
      have hfree : ∀ u, page ≤ u → u < page + 1 → m.isUnmapped u = true :=
        fun u hle hlt => by rw [hone u hle hlt, hpage, hempty]
      split
      next hfull => exact h.found hfull hfree (by omega)
      next hshort => exact hgo (h.extend hshort hfree)
    next hused =>
      refine hgo (h.occupied Nat.one_pos fun u hle hlt => ?_)
      rw [hone u hle hlt, hpage]
      exact Bool.eq_false_iff.2 hused

/-- The pages of a section share an L1 descriptor. -/
theorem scanSection_covers (h : At m first needed page run) (hk : 0 < k)
    (hstop : page + k ≤ stop) (hsection : ∀ u, page ≤ u → u < page + k →
      u / PAGE_TABLE_SIZE = page / PAGE_TABLE_SIZE) :
    ∃ result, m.scanSection needed (page * PAGE_SIZE) ((page + k) * PAGE_SIZE) run = .ok result ∧
      Covers m first stop needed page k result := by
  have hpages : ((page + k) * PAGE_SIZE - page * PAGE_SIZE) / PAGE_SIZE = k := by
    rw [← Nat.sub_mul, Nat.add_sub_cancel_left, Nat.mul_div_cancel _ (by decide)]
  have hrounded : ((page + k) * PAGE_SIZE - page * PAGE_SIZE + PAGE_SIZE - 1) / PAGE_SIZE = k := by
    rw [← Nat.sub_mul, Nat.add_sub_cancel_left, PAGE_SIZE]
    omega
  unfold MemoryMapping.scanSection
  simp only [translationTableIndex_page, hpages, hrounded]
  cases htype : getType (m.l1 (page / PAGE_TABLE_SIZE)) with
  | invalid =>
    have hfree : ∀ u, page ≤ u → u < page + k → m.isUnmapped u = true := by
      intro u hle hlt
      rw [MemoryMapping.isUnmapped, hsection u hle hlt, htype]
    refine ⟨_, rfl, ?_⟩
    split
    next hfull => exact h.found hfull hfree hstop
    next hshort => exact ⟨rfl, h.extend hshort hfree⟩
  | page =>
    simp only [getAddr_page htype]
    refine ⟨_, rfl, scanPages_covers hstop h fun u hle hlt => ?_⟩
    rw [MemoryMapping.isUnmapped, hsection u hle hlt, htype, MemoryMapping.readSlot,
      pageTableIndex_page]
  | mappedSection =>
    refine ⟨_, rfl, rfl, h.occupied hk fun u hle hlt => ?_⟩
    rw [MemoryMapping.isUnmapped, hsection u hle hlt, htype]
  | supersection =>
    refine ⟨_, rfl, rfl, h.occupied hk fun u hle hlt => ?_⟩
    rw [MemoryMapping.isUnmapped, hsection u hle hlt, htype]

theorem scan_answers {fuel : Nat} (hstop : stop ≤ (TRANSLATION_TABLE_SIZE - 1) * PAGE_TABLE_SIZE)
    (hle : page ≤ stop) (h : At m first needed page run)
    (hfuel : page = stop ∨ stop ≤ (page / PAGE_TABLE_SIZE + fuel) * PAGE_TABLE_SIZE) :
    ∃ answer, m.scan (stop * PAGE_SIZE) needed fuel (page * PAGE_SIZE) run = .ok answer ∧
      m.Answers first stop needed answer := by
  have hend : page = stop → m.Answers first stop needed none := by
    rintro rfl
    exact h.scanned.none
  induction fuel generalizing page run with
  | zero =>
    refine ⟨none, rfl, hend ?_⟩
    rw [PAGE_TABLE_SIZE] at hfuel
    omega
  | succ fuel ih =>
    unfold MemoryMapping.scan
    split
    next hlt =>
      have hlt : page < stop := Nat.lt_of_mul_lt_mul_right hlt
      have hvpn : page / PAGE_TABLE_SIZE + 1 < TRANSLATION_TABLE_SIZE := by
        rw [PAGE_TABLE_SIZE, TRANSLATION_TABLE_SIZE] at *
        omega
      obtain ⟨k, hk, hkend, hkstop⟩ : ∃ k, 0 < k ∧
          page + k = min ((page / PAGE_TABLE_SIZE + 1) * PAGE_TABLE_SIZE) stop ∧ page + k ≤ stop := by
        refine ⟨min ((page / PAGE_TABLE_SIZE + 1) * PAGE_TABLE_SIZE) stop - page, ?_⟩
        rw [PAGE_TABLE_SIZE]
        omega
      have hmin : min ((page / PAGE_TABLE_SIZE + 1) * PAGE_TABLE_SIZE * PAGE_SIZE)
          (stop * PAGE_SIZE) = (page + k) * PAGE_SIZE := by
        rw [hkend, Nat.mul_min_mul_right]
      have hsection : ∀ u, page ≤ u → u < page + k → u / PAGE_TABLE_SIZE = page / PAGE_TABLE_SIZE := by
        intro u hle hlt
        rw [PAGE_TABLE_SIZE] at *
        omega
      obtain ⟨result, hrun, hcovers⟩ := scanSection_covers h hk hkstop hsection
      rw [translationTableIndex_page, fromIndices_section hvpn]
      simp only [hmin, hrun]
      cases result with
      | found start => exact ⟨some start, rfl, hcovers⟩
      | more addr run' =>
        obtain ⟨rfl, hat⟩ := hcovers
        refine ih hkstop hat ?_ ?_
        · rw [PAGE_TABLE_SIZE] at *
          omega
        · intro heq
          rw [← heq]
          exact hat.scanned.none
    next hge =>
      refine ⟨none, rfl, hend (Nat.le_antisymm hle ?_)⟩
      exact Nat.le_of_mul_le_mul_right (Nat.not_lt.1 hge) (by decide)

/-- `find_free_run` between page boundaries below the last section. -/
theorem findFreeRun_answers (hneeded : 0 < needed)
    (hstop : stop ≤ (TRANSLATION_TABLE_SIZE - 1) * PAGE_TABLE_SIZE) :
    ∃ answer, m.findFreeRun (first * PAGE_SIZE) (stop * PAGE_SIZE) needed = .ok answer ∧
      m.Answers first stop needed answer := by
  unfold MemoryMapping.findFreeRun
  rw [translationTableIndex_page, translationTableIndex_page]
  rcases Nat.lt_or_ge stop first with hlt | hle
  · have hnone : m.Answers first stop needed none := by
      intro v hv
      have hfirst := hv.le
      have hinside := hv.inside
      omega
    have hout : ¬ first * PAGE_SIZE < stop * PAGE_SIZE :=
      Nat.not_lt.2 (Nat.mul_le_mul_right _ (Nat.le_of_lt hlt))
    generalize stop / PAGE_TABLE_SIZE + 1 - first / PAGE_TABLE_SIZE = fuel
    cases fuel with
    | zero => exact ⟨none, rfl, hnone⟩
    | succ fuel =>
      unfold MemoryMapping.scan
      rw [if_neg hout]
      exact ⟨none, rfl, hnone⟩
  · refine scan_answers hstop hle ⟨.start hneeded, fun hne => absurd rfl hne⟩ (.inr ?_)
    rw [PAGE_TABLE_SIZE]
    omega

/-! ## 5. Both searches -/

/-- The pages of `[addr, addr + size)` lie in the area and are unmapped. -/
structure FreeRange (m : MemoryMapping) (addr size : Nat) : Prop where
  aligned : addr % PAGE_SIZE = 0
  le : MMAP_AREA_VIRT ≤ addr
  inside : addr + size ≤ MMAP_AREA_VIRT_END
  unmapped : ∀ page, addr ≤ page * PAGE_SIZE → page * PAGE_SIZE < addr + size →
    m.isUnmapped page = true

/-- What the search for `size` bytes is to find. -/
def Finds (m : MemoryMapping) (size : Nat) : Option Nat → Prop
  | some addr => FreeRange m addr size
  | none => ∀ addr, ¬ FreeRange m addr size

theorem FreeRange.isRun {v count : Nat} (h : FreeRange m (v * PAGE_SIZE) (count * PAGE_SIZE)) :
    IsRun (fun page => m.isUnmapped page = true) (MMAP_AREA_VIRT / PAGE_SIZE)
      (MMAP_AREA_VIRT_END / PAGE_SIZE) count v := by
  have hle := h.le
  have hinside := h.inside
  refine ⟨?_, ?_, fun u hu hlt => h.unmapped u (Nat.mul_le_mul_right _ hu) ?_⟩
  · rw [MMAP_AREA_VIRT, PAGE_SIZE] at *
    omega
  · rw [MMAP_AREA_VIRT_END, PAGE_SIZE] at *
    omega
  · rw [← Nat.add_mul]
    exact Nat.mul_lt_mul_of_pos_right hlt (by decide)

theorem freeRange_of_isRun {v count : Nat} (hle : MMAP_AREA_VIRT / PAGE_SIZE ≤ first)
    (hstop : stop ≤ MMAP_AREA_VIRT_END / PAGE_SIZE)
    (h : IsRun (fun page => m.isUnmapped page = true) first stop count v) :
    FreeRange m (v * PAGE_SIZE) (count * PAGE_SIZE) := by
  have hfirst := h.le
  have hinside := h.inside
  refine ⟨Nat.mul_mod_left _ _, ?_, ?_, fun page hpage hlt => h.each page ?_ ?_⟩
  · rw [MMAP_AREA_VIRT, PAGE_SIZE] at *
    omega
  · rw [MMAP_AREA_VIRT_END, PAGE_SIZE] at *
    omega
  · exact Nat.le_of_mul_le_mul_right hpage (by decide)
  · rw [← Nat.add_mul] at hlt
    exact Nat.lt_of_mul_lt_mul_right hlt

/-- A run that the first search misses starts below the hint, so that it ends before the end
of the second one. -/
theorem searchAround_finds {hint count : Nat} (hcount : 0 < count)
    (hle : MMAP_AREA_VIRT / PAGE_SIZE ≤ hint) (p : AddressSpace) :
    ∃ answer, searchAround m (hint * PAGE_SIZE) (count * PAGE_SIZE) p = (.ok answer, p) ∧
      Finds m (count * PAGE_SIZE) answer := by
  have harea : MMAP_AREA_VIRT = MMAP_AREA_VIRT / PAGE_SIZE * PAGE_SIZE := by decide
  have hareaEnd : MMAP_AREA_VIRT_END = MMAP_AREA_VIRT_END / PAGE_SIZE * PAGE_SIZE := by decide
  have hareaTop : MMAP_AREA_VIRT_END / PAGE_SIZE ≤
      (TRANSLATION_TABLE_SIZE - 1) * PAGE_TABLE_SIZE := by decide
  have hdiv : count * PAGE_SIZE / PAGE_SIZE = count := Nat.mul_div_cancel _ (by decide)
  have hbelow : min (saturatingAdd (hint * PAGE_SIZE) (count * PAGE_SIZE)) MMAP_AREA_VIRT_END =
      min (hint + count) (MMAP_AREA_VIRT_END / PAGE_SIZE) * PAGE_SIZE := by
    rw [saturatingAdd, MMAP_AREA_VIRT_END, PAGE_SIZE]
    omega
  obtain ⟨forward, hforward, hanswer⟩ : ∃ answer, m.findFreeRun (hint * PAGE_SIZE)
      (MMAP_AREA_VIRT_END / PAGE_SIZE * PAGE_SIZE) count = .ok answer ∧
      m.Answers hint (MMAP_AREA_VIRT_END / PAGE_SIZE) count answer :=
    findFreeRun_answers hcount hareaTop
  obtain ⟨wrapped, hwrapped, hanswer'⟩ : ∃ answer,
      m.findFreeRun (MMAP_AREA_VIRT / PAGE_SIZE * PAGE_SIZE)
        (min (hint + count) (MMAP_AREA_VIRT_END / PAGE_SIZE) * PAGE_SIZE) count = .ok answer ∧
      m.Answers (MMAP_AREA_VIRT / PAGE_SIZE) (min (hint + count) (MMAP_AREA_VIRT_END / PAGE_SIZE))
        count answer :=
    findFreeRun_answers hcount (Nat.le_trans (Nat.min_le_right _ _) hareaTop)
  rw [← hareaEnd] at hforward
  rw [← hbelow, ← harea] at hwrapped
  unfold searchAround
  rw [hdiv]
  have hfirst : freeRun m (hint * PAGE_SIZE) MMAP_AREA_VIRT_END count p = (.ok forward, p) := by
    rw [freeRun, hforward]
    rfl
  rw [Prog.bind_ok _ hfirst]
  cases forward with
  | some addr =>
    obtain ⟨v, rfl, hrun, -⟩ := hanswer
    exact ⟨_, rfl, freeRange_of_isRun hle (Nat.le_refl _) hrun⟩
  | none =>
    refine ⟨wrapped, by rw [freeRun, hwrapped]; rfl, ?_⟩
    cases wrapped with
    | some addr =>
      obtain ⟨v, rfl, hrun, -⟩ := hanswer'
      exact freeRange_of_isRun (Nat.le_refl _) (Nat.min_le_right _ _) hrun
    | none =>
      intro addr hfree
      obtain ⟨v, rfl⟩ : ∃ v, addr = v * PAGE_SIZE :=
        ⟨addr / PAGE_SIZE, (Nat.div_mul_cancel (Nat.dvd_of_mod_eq_zero hfree.aligned)).symm⟩
      have hrun := hfree.isRun
      rcases Nat.lt_or_ge v hint with hlow | hhigh
      · refine hanswer' v ⟨hrun.le, ?_, hrun.each⟩
        have := hrun.inside
        omega
      · exact hanswer v ⟨hhigh, hrun.inside, hrun.each⟩

/-- A result of `find_virtual_address` without an address to start from. -/
def Exact (m : MemoryMapping) (size : Nat) : Outcome FreeRunPanic Error Nat → Prop
  | .ok addr => Finds m size (some addr)
  | .err _ => Finds m size none
  | .panic _ => False

theorem findVirtualAddress_exact {hint size : Nat} (hhint : hint % PAGE_SIZE = 0)
    (hle : MMAP_AREA_VIRT ≤ hint) (hsize : size % PAGE_SIZE = 0)
    (hpos : 0 < size) : Exact m size (findVirtualAddress 0 size ⟨m, hint⟩).1 := by
  obtain ⟨first, rfl⟩ := Nat.dvd_of_mod_eq_zero hhint
  obtain ⟨count, rfl⟩ := Nat.dvd_of_mod_eq_zero hsize
  rw [Nat.mul_comm PAGE_SIZE] at *
  rw [Nat.mul_comm PAGE_SIZE] at *
  unfold findVirtualAddress
  rw [if_neg (by decide)]
  split
  next hlarge =>
    intro addr hfree
    have hinside := hfree.inside
    have hstart := hfree.le
    omega
  next =>
    have hcount : 0 < count := Nat.pos_of_mul_pos_right hpos
    have hfirst : MMAP_AREA_VIRT / PAGE_SIZE ≤ first := by
      rw [MMAP_AREA_VIRT, PAGE_SIZE] at *
      omega
    obtain ⟨answer, hrun, hfinds⟩ := searchAround_finds hcount hfirst ⟨m, first * PAGE_SIZE⟩
    rw [Prog.bind_ok _ (Prog.get_run _), Prog.bind_ok _ hrun]
    cases answer with
    | some addr => exact hfinds
    | none => exact hfinds

/-- Soundness and completeness of both searches, for every page table. -/
theorem search_exact (m : MemoryMapping) :
    (∀ first stop needed, 0 < needed → stop ≤ (TRANSLATION_TABLE_SIZE - 1) * PAGE_TABLE_SIZE →
      ∃ answer, m.findFreeRun (first * PAGE_SIZE) (stop * PAGE_SIZE) needed = .ok answer ∧
        m.Answers first stop needed answer) ∧
    ∀ hint size, hint % PAGE_SIZE = 0 → MMAP_AREA_VIRT ≤ hint →
      size % PAGE_SIZE = 0 → 0 < size → Exact m size (findVirtualAddress 0 size ⟨m, hint⟩).1 :=
  ⟨fun _ _ _ hneeded hstop => findFreeRun_answers hneeded hstop,
    fun _ _ hhint hle hsize hpos => findVirtualAddress_exact hhint hle hsize hpos⟩

/-- A process with nothing mapped. -/
def unmapped : MemoryMapping := ⟨fun _ => 0, fun _ _ => 0⟩

theorem search_unmapped :
    (∃ answer, unmapped.findFreeRun (1 * PAGE_SIZE) (3 * PAGE_SIZE) 2 = .ok answer ∧
      unmapped.Answers 1 3 2 answer) ∧
    Exact unmapped PAGE_SIZE (findVirtualAddress 0 PAGE_SIZE ⟨unmapped, MMAP_AREA_VIRT⟩).1 :=
  ⟨(search_exact unmapped).1 1 3 2 (by decide) (by decide),
    (search_exact unmapped).2 MMAP_AREA_VIRT PAGE_SIZE (by decide) (by decide) (by decide)
      (by decide)⟩

end Kernel.FreeRuns
