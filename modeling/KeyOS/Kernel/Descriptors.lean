import KeyOS.Kernel.PageTable

/-!
# L2 entries as words

An L2 entry is one word. A word that is 0 is a free slot, a word whose two low bits are
clear is an allocation without a mapping, and any other word is a small page descriptor.
The memory flags of a page take three forms: the bits of `MemoryFlags`, the fields of a
descriptor, and the bits above `UNMAPPED_FLAGS_OFFSET` of a word that maps nothing.

`KeyOS.Kernel.PageTable` has the same entries as records. Here are the words, and that the
three forms agree: `toUnmapped_run` stores what a descriptor shows, and `toMapped_run` with
`fields_decoded_eq` makes the same descriptor of it.
-/

namespace Kernel.Descriptors

open Exec

abbrev Word := BitVec 32

/-- The `unwrap`, `expect` and `assert` calls on the way of a descriptor. -/
inductive DescriptorPanic where
  | kernel (p : Panic)
  /-- `assert_eq!(phys & (PAGE_SIZE - 1), 0)` -/
  | unalignedPhys
  /-- `get_addr().unwrap()` of a descriptor that is invalid -/
  | invalidMemory
  /-- "new l2 entry" -/
  | newL2Entry
  /-- "Tried to map RWX page!" -/
  | mapRwx
deriving DecidableEq

/-! ## 1. Register fields -/

structure Field where
  offset : Nat
  numbits : Nat

namespace Field

def mask (f : Field) : Word := BitVec.ofNat 32 (2 ^ f.numbits - 1) <<< f.offset

/-- `u32::from(FIELD::VALUE)` -/
def value (f : Field) (v : Nat) : Word := BitVec.ofNat 32 v <<< f.offset

def read (f : Field) (w : Word) : Word := (w &&& f.mask) >>> f.offset

def matchesAll (f : Field) (v : Nat) (w : Word) : Bool := (w &&& f.mask) == f.value v

end Field

namespace SMALL_PAGE_FLAGS

/-- Execute never -/
def XN : Field := ⟨0, 1⟩

def VALID : Field := ⟨1, 1⟩

/-- Device memory -/
def B : Field := ⟨2, 1⟩

/-- Cacheable -/
def C : Field := ⟨3, 1⟩

def AP : Field := ⟨4, 2⟩

/-- Read only -/
def AP2 : Field := ⟨9, 1⟩

/-- Non-global -/
def NG : Field := ⟨11, 1⟩

/-- `XN::Enable` and its siblings -/
def enable : Nat := 1

/-- `AP::PrivAccess` -/
def privAccess : Nat := 0b01

/-- `AP::FullAccess` -/
def fullAccess : Nat := 0b11

end SMALL_PAGE_FLAGS

/-! ## 2. Memory flags -/

structure MemoryFlags where
  bits : Word
deriving DecidableEq

namespace MemoryFlags

def FLAGS_ALL : Word := 0b01111101

def W : MemoryFlags := ⟨0b00000100⟩

def X : MemoryFlags := ⟨0b00001000⟩

def DEV : MemoryFlags := ⟨0b00010000⟩

def NO_CACHE : MemoryFlags := ⟨0b00100000⟩

def PLAINTEXT : MemoryFlags := ⟨0b01000000⟩

def fromBits (raw : Word) : MemoryFlags := ⟨raw &&& FLAGS_ALL⟩

def empty : MemoryFlags := ⟨0⟩

def or (a b : MemoryFlags) : MemoryFlags := ⟨a.bits ||| b.bits⟩

def isSet (flags mask : MemoryFlags) : Bool := (flags.bits &&& mask.bits) == mask.bits

end MemoryFlags

/-! ## 3. Small page descriptors -/

inductive PageTableType where
  | invalid
  | smallPage
  | largePage
deriving DecidableEq

namespace PageTableType

def align : PageTableType → Word
  | .invalid => 0
  | .smallPage => 0xfff
  | .largePage => 0xffff

end PageTableType

inductive PageError where
  | alignError
  | invalidMemory
deriving DecidableEq

structure PageTableDescriptor where
  word : Word
deriving DecidableEq

namespace PageTableDescriptor

def new (pagetype : PageTableType) (addr flags : Word) : Except PageError PageTableDescriptor :=
  if pagetype = .invalid then .ok ⟨0⟩
  else if addr &&& pagetype.align ≠ 0 then .error .alignError
  else .ok ⟨addr ||| flags⟩

def getType (d : PageTableDescriptor) : PageTableType :=
  if d.word &&& 0b11 = 0b00 then .invalid
  else if d.word &&& 0b11 = 0b01 then .largePage
  else .smallPage

def getAddr (d : PageTableDescriptor) : Except PageError Word :=
  if d.getType = .invalid then .error .invalidMemory
  else .ok (d.word &&& ~~~ d.getType.align)

def getFlags (d : PageTableDescriptor) : Word := d.word &&& 0xffff

end PageTableDescriptor

/-! ## 4. Entries -/

inductive L2TableEntry where
  | empty
  | mapped (d : PageTableDescriptor)
  | unmapped (u : Word)
deriving DecidableEq

/-- `PAGE_SIZE - 1` -/
def PAGE_MASK : Word := 0xfff

def TTBR1_SPLIT : Nat := 0x80000000

def decodeFlags (phys flags : Word) : MemoryFlags :=
  let w := if SMALL_PAGE_FLAGS.AP2.read flags = 0 then MemoryFlags.W else .empty
  let x := if SMALL_PAGE_FLAGS.XN.read flags = 0 then MemoryFlags.X else .empty
  let noCache := if SMALL_PAGE_FLAGS.C.read flags = 0 then MemoryFlags.NO_CACHE else .empty
  let dev := if SMALL_PAGE_FLAGS.B.read flags ≠ 0 then MemoryFlags.DEV else .empty
  let plaintext :=
    if isAddressInPlaintextDram phys.toNat then MemoryFlags.PLAINTEXT else .empty
  (((w.or x).or noCache).or dev).or plaintext

namespace L2TableEntry

variable {σ : Type}

def MAP_USER_FLAG : Word := 1 <<< 2

def UNMAPPED_FLAGS_OFFSET : Nat := 3

def fromU32 (value : Word) : L2TableEntry :=
  if value = 0 then .empty
  else if value &&& 3 = 0 then .unmapped value
  else .mapped ⟨value⟩

def asU32 : L2TableEntry → Word
  | .empty => 0
  | .mapped d => d.word
  | .unmapped u => u

def newOnDemand (phys : Word) (flags : MemoryFlags) (mapUser : Bool) :
    Prog σ DescriptorPanic Error L2TableEntry := do
  Prog.require .unalignedPhys (phys &&& PAGE_MASK == 0)
  pure (.unmapped (phys ||| (flags.bits <<< UNMAPPED_FLAGS_OFFSET) |||
    if mapUser then MAP_USER_FLAG else 0))

/-- The flags that `newMapped` collects for its descriptor. -/
def smallPageFlags (virt : Nat) (flags : MemoryFlags) (mapUser : Bool) : Word :=
  SMALL_PAGE_FLAGS.VALID.value SMALL_PAGE_FLAGS.enable |||
  (if flags.isSet .X then 0 else SMALL_PAGE_FLAGS.XN.value SMALL_PAGE_FLAGS.enable) |||
  (if flags.isSet .DEV || flags.isSet .NO_CACHE then 0
    else SMALL_PAGE_FLAGS.C.value SMALL_PAGE_FLAGS.enable) |||
  (if flags.isSet .DEV then SMALL_PAGE_FLAGS.B.value SMALL_PAGE_FLAGS.enable else 0) |||
  (if flags.isSet .W then 0 else SMALL_PAGE_FLAGS.AP2.value SMALL_PAGE_FLAGS.enable) |||
  (if mapUser then SMALL_PAGE_FLAGS.AP.value SMALL_PAGE_FLAGS.fullAccess
    else SMALL_PAGE_FLAGS.AP.value SMALL_PAGE_FLAGS.privAccess) |||
  -- The lower half of the address space belongs to one process
  (if virt < TTBR1_SPLIT then SMALL_PAGE_FLAGS.NG.value SMALL_PAGE_FLAGS.enable else 0)

def newMapped (virt : Nat) (phys : Word) (flags : MemoryFlags) (mapUser : Bool) :
    Prog σ DescriptorPanic Error L2TableEntry :=
  if phys &&& PAGE_MASK ≠ 0 then Prog.throw .badAlignment
  else
    match PageTableDescriptor.new .smallPage phys (smallPageFlags virt flags mapUser) with
    | .ok d => pure (.mapped d)
    | .error _ => Prog.panic .newL2Entry

/-- `get_addr().unwrap()` -/
def unwrapAddr (d : PageTableDescriptor) : Prog σ DescriptorPanic Error Word :=
  match d.getAddr with
  | .ok addr => pure addr
  | .error _ => Prog.panic .invalidMemory

def phys : L2TableEntry → Prog σ DescriptorPanic Error Word
  | .empty => Prog.throw .badAddress
  | .mapped d => unwrapAddr d
  | .unmapped u => pure (u &&& ~~~ PAGE_MASK)

def flags : L2TableEntry → Prog σ DescriptorPanic Error MemoryFlags
  | .empty => Prog.throw .badAddress
  | .unmapped u => pure (.fromBits (u >>> UNMAPPED_FLAGS_OFFSET))
  | .mapped d => do
    let addr ← unwrapAddr d
    pure (decodeFlags addr d.getFlags)

def toMapped (virt : Nat) : L2TableEntry → Prog σ DescriptorPanic Error L2TableEntry
  | .empty => Prog.throw .badAddress
  | .mapped d => pure (.mapped d)
  | .unmapped u => do
    let phys ← (L2TableEntry.unmapped u).phys
    let flags ← (L2TableEntry.unmapped u).flags
    newMapped virt phys flags (u &&& MAP_USER_FLAG != 0)

def toUnmapped : L2TableEntry → Prog σ DescriptorPanic Error L2TableEntry
  | .empty => Prog.throw .badAddress
  | .mapped d => do
    let phys ← (L2TableEntry.mapped d).phys
    let flags ← (L2TableEntry.mapped d).flags
    newOnDemand phys flags
      (SMALL_PAGE_FLAGS.AP.matchesAll SMALL_PAGE_FLAGS.fullAccess d.getFlags)
  | .unmapped u => pure (.unmapped u)

def isShared : L2TableEntry → Bool
  | .unmapped u => u &&& ~~~ PAGE_MASK != 0
  | _ => false

def isOnDemand : L2TableEntry → Bool
  | .unmapped u => u &&& ~~~ PAGE_MASK == 0
  | _ => false

def isEmpty : L2TableEntry → Bool
  | .empty => true
  | _ => false

def isMapped : L2TableEntry → Bool
  | .mapped _ => true
  | _ => false

def isUserAccessible : L2TableEntry → Bool
  | .empty => false
  | .mapped d =>
    d.getFlags &&& SMALL_PAGE_FLAGS.AP.value SMALL_PAGE_FLAGS.fullAccess ==
      SMALL_PAGE_FLAGS.AP.value SMALL_PAGE_FLAGS.fullAccess
  | .unmapped u => u &&& MAP_USER_FLAG != 0

def toImmutable : L2TableEntry → Prog σ DescriptorPanic Error L2TableEntry
  | .empty => Prog.throw .badAddress
  | .mapped d =>
    pure (.mapped ⟨d.word ||| SMALL_PAGE_FLAGS.AP2.value SMALL_PAGE_FLAGS.enable⟩)
  | .unmapped u =>
    pure (.unmapped (u &&& ~~~ (MemoryFlags.W.bits <<< UNMAPPED_FLAGS_OFFSET)))

/-- The descriptor of `withPhys`, whose flags keep the low bits of the old address. -/
def withPhys (phys : Word) : L2TableEntry → Prog σ DescriptorPanic Error L2TableEntry
  | .empty => do
    Prog.require .unalignedPhys (phys &&& PAGE_MASK == 0)
    Prog.throw .badAddress
  | .mapped d => do
    Prog.require .unalignedPhys (phys &&& PAGE_MASK == 0)
    match PageTableDescriptor.new .smallPage phys d.getFlags with
    | .ok d => pure (.mapped d)
    | .error _ => Prog.panic .invalidMemory
  | .unmapped u => do
    Prog.require .unalignedPhys (phys &&& PAGE_MASK == 0)
    pure (.unmapped ((u &&& PAGE_MASK) ||| phys))

end L2TableEntry

/-! ## 5. Low and high bits -/

section Words

variable {addr f m : Word}

/-- A page address has none of the low bits. -/
def Aligned (addr : Word) : Prop := addr &&& PAGE_MASK = 0

theorem Aligned.or_and (h : Aligned addr) (hm : m &&& PAGE_MASK = m) :
    (addr ||| f) &&& m = f &&& m := by
  have hzero : addr &&& m = 0 := by
    rw [← hm, BitVec.and_comm m, ← BitVec.and_assoc, h, BitVec.ofNat_eq_ofNat, BitVec.zero_and]
  rw [BitVec.and_or_distrib_right, hzero, BitVec.ofNat_eq_ofNat, BitVec.zero_or]

theorem Aligned.or_and_high (h : Aligned addr) (hf : f &&& ~~~ PAGE_MASK = 0) :
    (addr ||| f) &&& ~~~ PAGE_MASK = addr := by
  have hall : addr &&& ~~~ PAGE_MASK = addr := by
    calc addr &&& ~~~ PAGE_MASK
      _ = (addr &&& PAGE_MASK) ||| (addr &&& ~~~ PAGE_MASK) := by
        rw [h, BitVec.ofNat_eq_ofNat, BitVec.zero_or]
      _ = addr &&& (PAGE_MASK ||| ~~~ PAGE_MASK) := BitVec.and_or_distrib_left.symm
      _ = addr := BitVec.and_allOnes
  rw [BitVec.and_or_distrib_right, hf, hall, BitVec.ofNat_eq_ofNat, BitVec.or_zero]

theorem getFlags_and (hm : m &&& PAGE_MASK = m) (w : Word) :
    PageTableDescriptor.getFlags ⟨w⟩ &&& m = w &&& m := by
  have hwide : (0xffff : Word) &&& m = m := by
    rw [← hm, BitVec.and_comm m, ← BitVec.and_assoc]
    rfl
  rw [PageTableDescriptor.getFlags, BitVec.and_assoc, hwide]

/-- A field below the address of a page reads what the flags have there. -/
theorem Aligned.read (h : Aligned addr) {field : Field} (hm : field.mask &&& PAGE_MASK = field.mask) :
    field.read (PageTableDescriptor.getFlags ⟨addr ||| f⟩) = field.read f := by
  rw [Field.read, getFlags_and hm, h.or_and hm, Field.read]

end Words

/-! ## 6. From a descriptor to a reservation and back -/

namespace L2TableEntry

variable {σ : Type} {addr : Word} {virt : Nat} {flags : MemoryFlags} {mapUser : Bool}

theorem decodeFlags_getFlags (h : Aligned addr) (f : Word) :
    decodeFlags addr (PageTableDescriptor.getFlags ⟨addr ||| f⟩) = decodeFlags addr f := by
  unfold decodeFlags
  rw [h.read rfl, h.read rfl, h.read rfl, h.read rfl]

/-- The flags of a descriptor, by what decides about each field. -/
def fields (x dev noCache w user ng : Bool) : Word :=
  SMALL_PAGE_FLAGS.VALID.value SMALL_PAGE_FLAGS.enable |||
  (if x then 0 else SMALL_PAGE_FLAGS.XN.value SMALL_PAGE_FLAGS.enable) |||
  (if dev || noCache then 0 else SMALL_PAGE_FLAGS.C.value SMALL_PAGE_FLAGS.enable) |||
  (if dev then SMALL_PAGE_FLAGS.B.value SMALL_PAGE_FLAGS.enable else 0) |||
  (if w then 0 else SMALL_PAGE_FLAGS.AP2.value SMALL_PAGE_FLAGS.enable) |||
  (if user then SMALL_PAGE_FLAGS.AP.value SMALL_PAGE_FLAGS.fullAccess
    else SMALL_PAGE_FLAGS.AP.value SMALL_PAGE_FLAGS.privAccess) |||
  (if ng then SMALL_PAGE_FLAGS.NG.value SMALL_PAGE_FLAGS.enable else 0)

theorem smallPageFlags_eq : smallPageFlags virt flags mapUser =
    fields (flags.isSet .X) (flags.isSet .DEV) (flags.isSet .NO_CACHE) (flags.isSet .W) mapUser
      (virt < TTBR1_SPLIT) := by
  simp only [smallPageFlags, fields, decide_eq_true_eq]

/-- The memory flags that `decodeFlags` collects, by what decides about each. -/
def decoded (w x noCache dev plaintext : Bool) : MemoryFlags :=
  ((((if w then MemoryFlags.W else .empty).or (if x then MemoryFlags.X else .empty)).or
    (if noCache then MemoryFlags.NO_CACHE else .empty)).or
    (if dev then MemoryFlags.DEV else .empty)).or
    (if plaintext then MemoryFlags.PLAINTEXT else .empty)

/-- Decoding forgets the difference between `DEV` and `DEV | NO_CACHE`. -/
theorem decodeFlags_fields {x dev noCache w user ng : Bool} :
    decodeFlags addr (fields x dev noCache w user ng) =
      decoded w x (dev || noCache) dev (isAddressInPlaintextDram addr.toNat) := by
  unfold decodeFlags
  generalize isAddressInPlaintextDram addr.toNat = plaintext
  revert x dev noCache w user ng plaintext
  decide

/-- The descriptor does not show the difference either. -/
theorem fields_decoded {x dev noCache w user ng plaintext : Bool} :
    fields ((decoded w x (dev || noCache) dev plaintext).isSet .X)
        ((decoded w x (dev || noCache) dev plaintext).isSet .DEV)
        ((decoded w x (dev || noCache) dev plaintext).isSet .NO_CACHE)
        ((decoded w x (dev || noCache) dev plaintext).isSet .W) user ng =
      fields x dev noCache w user ng := by
  revert x dev noCache w user ng plaintext
  decide

theorem fields_low {x dev noCache w user ng : Bool} :
    fields x dev noCache w user ng &&& ~~~ PAGE_MASK = 0 := by
  revert x dev noCache w user ng
  decide

theorem fields_user {x dev noCache w user ng : Bool} :
    SMALL_PAGE_FLAGS.AP.matchesAll SMALL_PAGE_FLAGS.fullAccess (fields x dev noCache w user ng) =
      user := by
  revert x dev noCache w user ng
  decide

/-- The word of an entry that stores these flags without a mapping. -/
def reservation (addr : Word) (flags : MemoryFlags) (mapUser : Bool) : Word :=
  addr ||| (flags.bits <<< UNMAPPED_FLAGS_OFFSET) ||| if mapUser then MAP_USER_FLAG else 0

/-- The bits of a reservation below its address. -/
theorem reservation_bits {w x noCache dev plaintext user : Bool} {bits : Word}
    (hbits : bits = ((decoded w x noCache dev plaintext).bits <<< UNMAPPED_FLAGS_OFFSET |||
      if user then MAP_USER_FLAG else 0)) :
    bits &&& ~~~ PAGE_MASK = 0 ∧ bits &&& 3 = 0 ∧ (bits &&& MAP_USER_FLAG != 0) = user ∧
      MemoryFlags.fromBits (bits >>> UNMAPPED_FLAGS_OFFSET) = decoded w x noCache dev plaintext := by
  subst hbits
  revert w x noCache dev plaintext user
  decide

section Runs

variable {x dev noCache w user ng : Bool} {s : σ}

/-- A descriptor that `newMapped` makes is that of a small page. -/
theorem getType_fields (h : Aligned addr) :
    PageTableDescriptor.getType ⟨addr ||| fields x dev noCache w user ng⟩ = .smallPage := by
  unfold PageTableDescriptor.getType
  dsimp only
  rw [h.or_and rfl]
  revert x dev noCache w user ng
  decide

theorem newMapped_run (h : Aligned addr) :
    newMapped virt addr flags mapUser s =
      (.ok (.mapped ⟨addr ||| smallPageFlags virt flags mapUser⟩), s) := by
  have hmask : ¬ addr &&& PAGE_MASK ≠ 0 := not_not_intro h
  have hnew : PageTableDescriptor.new .smallPage addr (smallPageFlags virt flags mapUser) =
      .ok ⟨addr ||| smallPageFlags virt flags mapUser⟩ := by
    rw [PageTableDescriptor.new, if_neg nofun]
    exact if_neg hmask
  rw [newMapped, if_neg hmask, hnew]
  rfl

theorem newMapped_unaligned (h : ¬ Aligned addr) :
    newMapped virt addr flags mapUser s = (.err .badAlignment, s) := by
  have hmask : addr &&& PAGE_MASK ≠ 0 := h
  rw [newMapped, if_pos hmask]
  rfl

theorem unwrapAddr_run (h : Aligned addr) :
    unwrapAddr ⟨addr ||| fields x dev noCache w user ng⟩ s = (.ok addr, s) := by
  have haddr : PageTableDescriptor.getAddr ⟨addr ||| fields x dev noCache w user ng⟩ = .ok addr := by
    rw [PageTableDescriptor.getAddr, getType_fields h, if_neg nofun]
    exact congrArg Except.ok (h.or_and_high fields_low)
  rw [unwrapAddr, haddr]
  rfl

theorem newOnDemand_run (h : Aligned addr) :
    newOnDemand addr flags mapUser s = (.ok (.unmapped (reservation addr flags mapUser)), s) := by
  have hcheck : (addr &&& PAGE_MASK == 0) = true := beq_iff_eq.2 h
  rw [newOnDemand, Prog.bind_ok _ (Prog.require_run _ hcheck s)]
  rfl

theorem toUnmapped_run (h : Aligned addr) :
    toUnmapped (.mapped ⟨addr ||| fields x dev noCache w user ng⟩) s =
      (.ok (.unmapped (reservation addr
        (decoded w x (dev || noCache) dev (isAddressInPlaintextDram addr.toNat)) user)), s) := by
  have hflags : flags (.mapped ⟨addr ||| fields x dev noCache w user ng⟩) s =
      (.ok (decoded w x (dev || noCache) dev (isAddressInPlaintextDram addr.toNat)), s) := by
    rw [L2TableEntry.flags, Prog.bind_ok _ (unwrapAddr_run h), decodeFlags_getFlags h,
      decodeFlags_fields]
    rfl
  have huser : SMALL_PAGE_FLAGS.AP.matchesAll SMALL_PAGE_FLAGS.fullAccess
      (PageTableDescriptor.getFlags ⟨addr ||| fields x dev noCache w user ng⟩) = user := by
    rw [Field.matchesAll, getFlags_and rfl, h.or_and rfl]
    exact fields_user
  rw [toUnmapped, L2TableEntry.phys, Prog.bind_ok _ (unwrapAddr_run h), Prog.bind_ok _ hflags,
    huser, newOnDemand_run h]

/-- A reservation gives back what it stores. -/
theorem toMapped_run (h : Aligned addr) {plaintext : Bool} :
    toMapped virt (.unmapped (reservation addr (decoded w x noCache dev plaintext) user)) s =
      (.ok (.mapped ⟨addr ||| smallPageFlags virt (decoded w x noCache dev plaintext) user⟩), s) := by
  unfold reservation
  rw [BitVec.or_assoc]
  generalize hbits : ((decoded w x noCache dev plaintext).bits <<< UNMAPPED_FLAGS_OFFSET |||
    if user then MAP_USER_FLAG else 0) = bits
  obtain ⟨hhigh, -, huser, hflags⟩ := reservation_bits hbits.symm
  have hstored : MemoryFlags.fromBits ((addr ||| bits) >>> UNMAPPED_FLAGS_OFFSET) =
      decoded w x noCache dev plaintext := by
    have hshift : MemoryFlags.FLAGS_ALL =
      (MemoryFlags.FLAGS_ALL <<< UNMAPPED_FLAGS_OFFSET) >>> UNMAPPED_FLAGS_OFFSET := by decide
    rw [← hflags, MemoryFlags.fromBits, MemoryFlags.fromBits, hshift,
      ← BitVec.ushiftRight_and_distrib, ← BitVec.ushiftRight_and_distrib, h.or_and (by decide)]
  rw [toMapped, L2TableEntry.phys, L2TableEntry.flags, h.or_and_high hhigh, hstored,
    h.or_and (by decide), huser, Prog.bind_ok _ (Prog.pure_run _ s),
    Prog.bind_ok _ (Prog.pure_run _ s), newMapped_run h]

end Runs

section Slots

variable {x dev noCache w user ng plaintext : Bool}

theorem fields_decoded_eq (hng : ng = decide (virt < TTBR1_SPLIT)) :
    smallPageFlags virt (decoded w x (dev || noCache) dev plaintext) user =
      fields x dev noCache w user ng := by
  rw [smallPageFlags_eq, hng, fields_decoded]

theorem fields_immutable :
    fields x dev noCache w user ng ||| SMALL_PAGE_FLAGS.AP2.value SMALL_PAGE_FLAGS.enable =
      fields x dev noCache false user ng := by
  revert x dev noCache w user ng
  decide

theorem fromU32_fields (h : Aligned addr) :
    fromU32 (addr ||| fields x dev noCache w user ng) =
      .mapped ⟨addr ||| fields x dev noCache w user ng⟩ := by
  have htype : (addr ||| fields x dev noCache w user ng) &&& 3 ≠ 0 := by
    rw [h.or_and (by decide)]
    revert x dev noCache w user ng
    decide
  have hzero : addr ||| fields x dev noCache w user ng ≠ 0 := fun heq => htype (by rw [heq]; rfl)
  rw [fromU32, if_neg hzero, if_neg htype]

/-- The entry of a reservation for a page is shared. -/
theorem fromU32_reservation (h : Aligned addr) (hne : addr ≠ 0) :
    fromU32 (reservation addr (decoded w x noCache dev plaintext) user) =
        .unmapped (reservation addr (decoded w x noCache dev plaintext) user) ∧
      reservation addr (decoded w x noCache dev plaintext) user &&& ~~~ PAGE_MASK = addr := by
  unfold reservation
  rw [BitVec.or_assoc]
  generalize hbits : ((decoded w x noCache dev plaintext).bits <<< UNMAPPED_FLAGS_OFFSET |||
    if user then MAP_USER_FLAG else 0) = bits
  obtain ⟨hhigh, hlow, -, -⟩ := reservation_bits hbits.symm
  have haddr := h.or_and_high hhigh
  have hzero : addr ||| bits ≠ 0 := fun heq => hne (by rw [← haddr, heq]; rfl)
  refine ⟨?_, haddr⟩
  rw [fromU32, if_neg hzero, if_pos (by rw [h.or_and (by decide), hlow])]

theorem shiftLeft_low (bits : Word) : (bits <<< UNMAPPED_FLAGS_OFFSET) &&& 3 = 0 := by
  have hthree : (3 : Word).toNat = 2 ^ 2 - 1 := rfl
  apply BitVec.eq_of_toNat_eq
  rw [BitVec.toNat_and, BitVec.toNat_shiftLeft, Nat.shiftLeft_eq, hthree,
    Nat.and_two_pow_sub_one_eq_mod, UNMAPPED_FLAGS_OFFSET]
  show _ = 0
  omega

/-- An on-demand page is not mapped, whatever its flags. -/
theorem isMapped_onDemand : (fromU32 (reservation 0 flags user)).isMapped = false := by
  have hlow : reservation 0 flags user &&& 3 = 0 := by
    rw [reservation, BitVec.and_or_distrib_right, BitVec.and_or_distrib_right, shiftLeft_low]
    cases user <;> rfl
  unfold fromU32
  rw [if_pos hlow]
  split <;> rfl

/-- The page can be written through the entry. -/
def Writable (e : L2TableEntry) (addr : Word) : Prop :=
  ∃ d, e = .mapped d ∧ d.getAddr = .ok addr ∧ SMALL_PAGE_FLAGS.AP2.read d.getFlags = 0

theorem not_writable_immutable (h : Aligned addr) {addr' : Word} :
    ¬ Writable (.mapped ⟨addr ||| fields x dev noCache false user ng⟩) addr' := by
  rintro ⟨d, hd, -, hread⟩
  cases hd
  rw [h.read rfl] at hread
  revert x dev noCache user ng
  decide

end Slots

end L2TableEntry

end Kernel.Descriptors
