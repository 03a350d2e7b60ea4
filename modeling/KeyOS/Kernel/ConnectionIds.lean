import KeyOS.Kernel.ConnectionEvents

/-!
# Connection ids

A process makes and drops connections, and its servers die. A CID is issued for one connection
only, also when the generations of a slot are used up, and it names its slot as long as a reference
to the connection is left: connected while the server lives, a tombstone after that.
-/

namespace Kernel

open Exec Prog Services

/-! ## 1. CIDs -/

theorem packCid_eq {cidx generation : Nat} (hcidx : cidx < maxConnections)
    (hgeneration : generation ≤ MAX_GENERATION) :
    packCid cidx generation = generation * 256 + (cidx + 2) := by
  have hlow : cidx + 2 < 2 ^ 8 := by
    unfold maxConnections at hcidx
    omega
  have hhigh : generation <<< 8 < 2 ^ 32 := by
    rw [Nat.shiftLeft_eq]
    simp [MAX_GENERATION, CID_INDEX_BITS, Nat.shiftRight_eq_div_pow] at hgeneration
    omega
  show (generation <<< 8) % 2 ^ 32 ||| (cidx + 2) = _
  rw [Nat.mod_eq_of_lt hhigh, ← Nat.shiftLeft_add_eq_or_of_lt hlow, Nat.shiftLeft_eq]

theorem unpackCid_ok {cid cidx generation : Nat} :
    unpackCid cid = .ok (cidx, generation) ↔ cid = generation * 256 + (cidx + 2) ∧ cidx + 2 < 256 := by
  have hlow : cid &&& CID_INDEX_MASK = cid % 256 := Nat.and_two_pow_sub_one_eq_mod cid 8
  have hhigh : cid >>> CID_INDEX_BITS = cid / 256 := Nat.shiftRight_eq_div_pow cid 8
  show (if cid &&& CID_INDEX_MASK < 2 then Except.error Error.serverNotFound
    else .ok ((cid &&& CID_INDEX_MASK) - 2, cid >>> CID_INDEX_BITS)) = _ ↔ _
  rw [hlow, hhigh]
  split
  · constructor
    · intro h
      cases h
    · rintro ⟨rfl, hlt⟩
      omega
  · rw [Except.ok.injEq, Prod.mk.injEq]
    omega

theorem packCid_inj {cidx cidx' generation generation' : Nat} (hcidx : cidx < maxConnections)
    (hgeneration : generation ≤ MAX_GENERATION) (hcidx' : cidx' < maxConnections)
    (hgeneration' : generation' ≤ MAX_GENERATION)
    (h : packCid cidx generation = packCid cidx' generation') :
    cidx = cidx' ∧ generation = generation' := by
  have heq : generation * 256 + (cidx + 2) = generation' * 256 + (cidx' + 2) := by
    rw [← packCid_eq hcidx hgeneration, h, packCid_eq hcidx' hgeneration']
  unfold maxConnections at hcidx hcidx'
  omega

theorem unpack_of_connection {p : Process} {cid : CID} {cidx : Nat} {slot : ConnectionSlot}
    (h : p.connection cid = .ok (cidx, slot)) : ∃ generation,
      unpackCid cid = .ok (cidx, generation) ∧ slot.liveGeneration = some generation := by
  obtain ⟨⟨cidx', generation⟩, hunpack, h⟩ := bind_eq_ok.1 h
  dsimp only at h
  split at h
  · split at h
    · next hlive =>
      cases h
      exact ⟨generation, hunpack, hlive⟩
    · cases h
  · cases h

/-! ## 2. Connections of a process -/

namespace ConnectionSlot

/-- A reference is dropped. -/
def release : ConnectionSlot → ConnectionSlot
  | .tombstone refcount generation =>
    if 1 < refcount then .tombstone (refcount - 1) generation else freeOrCondemn generation
  | .connected sidx refcount generation permissions =>
    if 1 < refcount then .connected sidx (refcount - 1) generation permissions
    else freeOrCondemn generation
  | slot => slot

def refcount : ConnectionSlot → Nat
  | .connected _ refcount _ _ | .tombstone refcount _ => refcount
  | .free _ | .condemned => 0

/-- The last generation that the slot has had. -/
def lastGeneration : ConnectionSlot → Nat
  | .connected _ _ generation _ | .tombstone _ generation | .free generation => generation
  | .condemned => MAX_GENERATION

/-- The generations fit into a CID, and a slot in use has references. -/
def Bounded : ConnectionSlot → Prop
  | .free generation => generation < MAX_GENERATION
  | .connected _ refcount generation _ | .tombstone refcount generation =>
    generation ≤ MAX_GENERATION ∧ 0 < refcount
  | .condemned => True

theorem Bounded.last_le {slot : ConnectionSlot} (h : slot.Bounded) :
    slot.lastGeneration ≤ MAX_GENERATION := by
  cases slot with
  | free generation => exact Nat.le_of_lt h
  | connected sidx refcount generation permissions => exact h.1
  | tombstone refcount generation => exact h.1
  | condemned => exact Nat.le_refl _

theorem Bounded.refcount_pos {slot : ConnectionSlot} {generation : Nat} (h : slot.Bounded)
    (hlive : slot.liveGeneration = some generation) : 0 < slot.refcount := by
  cases slot with
  | connected sidx refcount generation permissions => exact h.2
  | tombstone refcount generation => exact h.2
  | free generation => cases hlive
  | condemned => cases hlive

theorem last_of_live {slot : ConnectionSlot} {generation : Nat}
    (h : slot.liveGeneration = some generation) : slot.lastGeneration = generation := by
  cases slot <;> cases h <;> rfl

end ConnectionSlot

namespace Process

/-- What `disconnect_from_server` does to the table. -/
def disconnect (cid : CID) (p : Process) : Except Error Process := do
  let (cidx, slot) ← p.connection cid
  .ok (p.setSlot cidx slot.release)

end Process

inductive ConnectionOp where
  | connect (sidx : Nat) (permissions : MessagePermissions)
  | disconnect (cid : CID)
  | serverDied (sidx : Nat)

/-- A process, with the CIDs of its connections in the order in which they were made, how many
references to each are left, and the CIDs of those whose server has died. -/
structure Connections where
  process : Process
  issued : List CID
  refs : CID → Nat
  died : List CID

namespace Connections

def new (process : Process) : Connections := ⟨process, [], fun _ => 0, []⟩

def connected (c : Connections) : Outcome Panic Error (CID × Bool) × Process → Connections
  | (.ok (cid, isNew), process) =>
    { c with
      process := process
      issued := if isNew then c.issued ++ [cid] else c.issued
      refs := Function.update c.refs cid (c.refs cid + 1) }
  | (_, process) => { c with process := process }

def dropped (c : Connections) (cid : CID) : Except Error Process → Connections
  | .ok process =>
    { c with process := process, refs := Function.update c.refs cid (c.refs cid - 1) }
  | .error _ => c

def buried (c : Connections) : Option CID × Process → Connections
  | (cid, process) => { c with process := process, died := c.died ++ cid.toList }

def step (c : Connections) : ConnectionOp → Connections
  | .connect sidx permissions => c.connected (Process.addConnection sidx permissions c.process)
  | .disconnect cid => c.dropped cid (c.process.disconnect cid)
  | .serverDied sidx => c.buried (c.process.tombstoneConnectionBySidx sidx)

def run (c : Connections) (ops : List ConnectionOp) : Connections := ops.foldl step c

/-- What is known of the CIDs of a slot. -/
structure SlotKept (c : Connections) (cidx : Nat) (slot : ConnectionSlot) : Prop where
  bounded : slot.Bounded
  issued : ∀ generation ≤ MAX_GENERATION, packCid cidx generation ∈ c.issued →
    generation ≤ slot.lastGeneration
  live : ∀ generation, slot.liveGeneration = some generation →
    packCid cidx generation ∈ c.issued ∧ c.refs (packCid cidx generation) = slot.refcount ∧
      (slot.connectedTo = none ↔ packCid cidx generation ∈ c.died)
  gone : ∀ generation ≤ MAX_GENERATION, slot.liveGeneration ≠ some generation →
    c.refs (packCid cidx generation) = 0

structure Inv (c : Connections) : Prop where
  length : c.process.connectionMap.length = maxConnections
  slots : ∀ cidx slot, c.process.connectionMap[cidx]? = some slot → c.SlotKept cidx slot
  packed : ∀ cid, cid ∈ c.issued ∨ 0 < c.refs cid ∨ cid ∈ c.died →
    ∃ cidx < maxConnections, ∃ generation ≤ MAX_GENERATION, cid = packCid cidx generation
  nodup : c.issued.Nodup
  died : ∀ cid ∈ c.died, cid ∈ c.issued
  once : ∀ (i j : Nat) (slot slot' : ConnectionSlot) (sidx : UInt8),
    c.process.connectionMap[i]? = some slot → c.process.connectionMap[j]? = some slot' →
      slot.connectedTo = some sidx → slot'.connectedTo = some sidx → i = j

section Keeps

variable {c c' : Connections} {cidx generation : Nat} {slot slot' : ConnectionSlot} {cid : CID}

theorem Inv.lt (h : c.Inv) (hslot : c.process.connectionMap[cidx]? = some slot) :
    cidx < maxConnections :=
  h.length ▸ (List.getElem?_eq_some_iff.1 hslot).1

/-- One slot changes, and what is known of one of its CIDs. -/
theorem Inv.set (h : c.Inv) (hslot : c.process.connectionMap[cidx]? = some slot)
    (hgeneration : generation ≤ MAX_GENERATION)
    (hprocess : c'.process.connectionMap = c.process.connectionMap.set cidx slot')
    (hsame : ∀ cid, cid ≠ packCid cidx generation → (cid ∈ c'.issued ↔ cid ∈ c.issued) ∧
      c'.refs cid = c.refs cid ∧ (cid ∈ c'.died ↔ cid ∈ c.died))
    (hnodup : c'.issued.Nodup) (hdied : ∀ cid ∈ c'.died, cid ∈ c'.issued)
    (hkept : c'.SlotKept cidx slot')
    (honce : ∀ sidx, slot'.connectedTo = some sidx → ∀ j other,
      c.process.connectionMap[j]? = some other → other.connectedTo = some sidx → j = cidx) :
    c'.Inv := by
  have hlt := h.lt hslot
  have hat (j : Nat) (other : ConnectionSlot) (hj : c'.process.connectionMap[j]? = some other) :
      j = cidx ∧ other = slot' ∨ j ≠ cidx ∧ c.process.connectionMap[j]? = some other := by
    rw [hprocess] at hj
    by_cases heq : j = cidx
    · subst heq
      rw [List.getElem?_set_self (h.length.symm ▸ hlt)] at hj
      exact .inl ⟨rfl, (Option.some_inj.1 hj).symm⟩
    · rw [List.getElem?_set_ne (Ne.symm heq)] at hj
      exact .inr ⟨heq, hj⟩
  refine ⟨?_, fun j other hj => ?_, fun cid hcid => ?_, hnodup, hdied, ?_⟩
  · rw [hprocess, List.length_set, h.length]
  · rcases hat j other hj with ⟨rfl, rfl⟩ | ⟨hne, hj⟩
    · exact hkept
    · -- The CIDs of another slot are other CIDs.
      have hj' := h.slots j other hj
      have hother (g : Nat) (hg : g ≤ MAX_GENERATION) : packCid j g ≠ packCid cidx generation :=
        fun heq => hne (packCid_inj (h.lt hj) hg hlt hgeneration heq).1
      refine ⟨hj'.bounded, fun g hg hissued => ?_, fun g hlive => ?_, fun g hg hlive => ?_⟩
      · exact hj'.issued g hg ((hsame _ (hother g hg)).1.1 hissued)
      · have hg : g ≤ MAX_GENERATION :=
          ConnectionSlot.last_of_live hlive ▸ hj'.bounded.last_le
        obtain ⟨hissued, hrefs, hdied⟩ := hsame _ (hother g hg)
        rw [hissued, hrefs, hdied]
        exact hj'.live g hlive
      · rw [(hsame _ (hother g hg)).2.1]
        exact hj'.gone g hg hlive
  · by_cases heq : cid = packCid cidx generation
    · exact ⟨cidx, hlt, generation, hgeneration, heq⟩
    · obtain ⟨hissued, hrefs, hdied⟩ := hsame cid heq
      rw [hissued, hrefs, hdied] at hcid
      exact h.packed cid hcid
  · intro i j other other' sidx hi hj hother hother'
    rcases hat i other hi with ⟨rfl, rfl⟩ | ⟨-, hi⟩ <;>
      rcases hat j other' hj with ⟨rfl, rfl⟩ | ⟨-, hj⟩
    · rfl
    · exact (honce sidx hother j other' hj hother').symm
    · exact honce sidx hother' i other hi hother
    · exact h.once i j other other' sidx hi hj hother hother'

/-- What a CID that is accepted names. -/
theorem Inv.named (h : c.Inv) (hfound : c.process.connection cid = .ok (cidx, slot)) :
    c.process.connectionMap[cidx]? = some slot ∧
      ∃ generation ≤ MAX_GENERATION, slot.liveGeneration = some generation ∧
        cid = packCid cidx generation := by
  obtain ⟨generation, hunpack, hlive⟩ := unpack_of_connection hfound
  have hslot := getElem?_of_connection hfound
  have hg : generation ≤ MAX_GENERATION :=
    ConnectionSlot.last_of_live hlive ▸ (h.slots cidx slot hslot).bounded.last_le
  refine ⟨hslot, generation, hg, hlive, ?_⟩
  rw [packCid_eq (h.lt hslot) hg]
  exact (unpackCid_ok.1 hunpack).1

/-- A CID of a slot in use is accepted. -/
theorem Inv.connection_eq (h : c.Inv) (hslot : c.process.connectionMap[cidx]? = some slot)
    (hlive : slot.liveGeneration = some generation) :
    c.process.connection (packCid cidx generation) = .ok (cidx, slot) := by
  have hg : generation ≤ MAX_GENERATION :=
    ConnectionSlot.last_of_live hlive ▸ (h.slots cidx slot hslot).bounded.last_le
  have hlt := h.lt hslot
  have hunpack : unpackCid (packCid cidx generation) = .ok (cidx, generation) := by
    refine unpackCid_ok.2 ⟨packCid_eq hlt hg, ?_⟩
    unfold maxConnections at hlt
    omega
  refine bind_eq_ok.2 ⟨_, hunpack, ?_⟩
  dsimp only
  rw [hslot]
  exact if_pos hlive

end Keeps

/-! ## 3. Steps -/

section Steps

variable {c : Connections} {cidx generation : Nat} {slot : ConnectionSlot} {cid : CID}

theorem addConnection_cases (p : Process) (sidx : Nat) (permissions : MessagePermissions) :
    (∃ cidx refcount generation permissions',
      p.connectionMap[cidx]? =
        some (.connected (UInt8.ofNat sidx) refcount generation permissions') ∧
      Process.addConnection sidx permissions p = (.ok (packCid cidx generation, false),
        p.setSlot cidx (.connected (UInt8.ofNat sidx) (refcount + 1) generation permissions'))) ∨
    (∃ cidx generation, p.connectionMap[cidx]? = some (.free generation) ∧
      (∀ (j : Nat) (other : ConnectionSlot), p.connectionMap[j]? = some other →
        other.connectedTo ≠ some (UInt8.ofNat sidx)) ∧
      Process.addConnection sidx permissions p = (.ok (packCid cidx (generation + 1), true),
        p.setSlot cidx (.connected (UInt8.ofNat sidx) 1 (generation + 1) permissions))) ∨
    ∃ e, Process.addConnection sidx permissions p = (.err e, p) := by
  unfold Process.addConnection
  simp only [bind_run, get_run]
  cases hfound : p.findConnected (UInt8.ofNat sidx) with
  | some found =>
    obtain ⟨cidx, refcount, generation, permissions'⟩ := found
    dsimp only
    split
    · exact .inl ⟨cidx, refcount, generation, permissions', findConnected_some hfound, rfl⟩
    · exact .inr (.inr ⟨_, rfl⟩)
  | none =>
    cases hfree : p.findFree with
    | some found =>
      obtain ⟨cidx, generation⟩ := found
      refine .inr (.inl ⟨cidx, generation, findFree_some hfree, fun j other hj hto => ?_, rfl⟩)
      have hnone := List.any_eq_false.1 (findConnected_none hfound) other (List.mem_of_getElem? hj)
      exact hnone (by rw [hto, beq_self_eq_true])
    | none => exact .inr (.inr ⟨_, rfl⟩)

/-- Another reference to a connection. -/
theorem Inv.share {sidx : UInt8} {refcount : Nat} {permissions : MessagePermissions} (h : c.Inv)
    (hslot : c.process.connectionMap[cidx]? =
      some (.connected sidx refcount generation permissions)) :
    Inv { c with
      process := c.process.setSlot cidx (.connected sidx (refcount + 1) generation permissions)
      refs := Function.update c.refs (packCid cidx generation)
        (c.refs (packCid cidx generation) + 1) } := by
  have hkept := h.slots cidx _ hslot
  obtain ⟨hissued, hrefs, hdied⟩ := hkept.live generation rfl
  refine h.set hslot hkept.bounded.1 rfl (fun cid hne => ?_) h.nodup h.died ?_ fun other hto j slot hj
    hother => ?_
  · exact ⟨Iff.rfl, Function.update_of_ne hne _ _, Iff.rfl⟩
  · refine ⟨⟨hkept.bounded.1, Nat.succ_pos _⟩, hkept.issued, fun g hlive => ?_, fun g hg hlive => ?_⟩
    · cases hlive
      exact ⟨hissued, (Function.update_self _ _ _).trans (congrArg (· + 1) hrefs), hdied⟩
    · have hne : packCid cidx g ≠ packCid cidx generation := fun heq => hlive
        (congrArg some (packCid_inj (h.lt hslot) hg (h.lt hslot) hkept.bounded.1 heq).2.symm)
      exact (Function.update_of_ne hne _ _).trans (hkept.gone g hg hlive)
  · cases hto
    exact h.once j cidx slot _ sidx hj hslot hother rfl

/-- A new connection. -/
theorem Inv.issue {sidx : UInt8} {permissions : MessagePermissions} (h : c.Inv)
    (hslot : c.process.connectionMap[cidx]? = some (.free generation))
    (hfresh : ∀ (j : Nat) (other : ConnectionSlot), c.process.connectionMap[j]? = some other →
      other.connectedTo ≠ some sidx) :
    Inv { c with
      process := c.process.setSlot cidx (.connected sidx 1 (generation + 1) permissions)
      issued := c.issued ++ [packCid cidx (generation + 1)]
      refs := Function.update c.refs (packCid cidx (generation + 1))
        (c.refs (packCid cidx (generation + 1)) + 1) } := by
  have hkept := h.slots cidx _ hslot
  have hg : generation + 1 ≤ MAX_GENERATION := hkept.bounded
  have hnew : packCid cidx (generation + 1) ∉ c.issued := fun hmem =>
    absurd (hkept.issued _ hg hmem) (Nat.not_succ_le_self generation)
  refine h.set hslot hg rfl (fun cid hne => ?_) ?_ (fun cid hcid => ?_) ?_ fun other hto j slot hj
    hother => ?_
  · simp [hne]
  · exact List.nodup_append.2 ⟨h.nodup, List.nodup_singleton _, fun a ha b hb hab =>
      hnew (List.mem_singleton.1 hb ▸ hab ▸ ha)⟩
  · exact List.mem_append_left _ (h.died cid hcid)
  · refine ⟨⟨hg, Nat.zero_lt_one⟩, fun g hle hmem => ?_, fun g hlive => ?_, fun g hle hlive => ?_⟩
    · rcases List.mem_append.1 hmem with hmem | hmem
      · exact Nat.le_succ_of_le (hkept.issued g hle hmem)
      · exact Nat.le_of_eq
          (packCid_inj (h.lt hslot) hle (h.lt hslot) hg (List.mem_singleton.1 hmem)).2
    · cases hlive
      refine ⟨by simp, ?_, fun hto => (by cases hto), fun hmem => absurd (h.died _ hmem) hnew⟩
      have hzero : c.refs (packCid cidx (generation + 1)) = 0 :=
        hkept.gone _ hg (by simp [ConnectionSlot.liveGeneration])
      exact (Function.update_self _ _ _).trans (congrArg (· + 1) hzero)
    · have hne : packCid cidx g ≠ packCid cidx (generation + 1) := fun heq => hlive
        (congrArg some (packCid_inj (h.lt hslot) hle (h.lt hslot) hg heq).2.symm)
      exact (Function.update_of_ne hne _ _).trans
        (hkept.gone g hle (by simp [ConnectionSlot.liveGeneration]))
  · cases hto
    exact absurd hother (hfresh j slot hj)

/-- A reference that is dropped, the last one or not. -/
theorem release_cases {slot : ConnectionSlot} {generation : Nat} (hbounded : slot.Bounded)
    (hlive : slot.liveGeneration = some generation) :
    slot.release.Bounded ∧ slot.release.lastGeneration = generation ∧
      (slot.release.liveGeneration = some generation ∧ slot.release.refcount = slot.refcount - 1 ∧
          slot.release.connectedTo = slot.connectedTo ∨
        slot.release.liveGeneration = none ∧ slot.refcount = 1 ∧
          slot.release.connectedTo = none) := by
  have hone {refcount : Nat} (hpos : 0 < refcount) (hmore : ¬1 < refcount) : refcount = 1 := by omega
  cases slot <;> cases hlive
  all_goals
    dsimp only [ConnectionSlot.release, ConnectionSlot.freeOrCondemn]
    split
    · exact ⟨⟨hbounded.1, Nat.sub_pos_of_lt ‹_›⟩, rfl, .inl ⟨rfl, rfl, rfl⟩⟩
    · split
      · exact ⟨trivial, Nat.le_antisymm ‹_› hbounded.1, .inr ⟨rfl, hone hbounded.2 ‹_›, rfl⟩⟩
      · exact ⟨Nat.not_le.1 ‹_›, rfl, .inr ⟨rfl, hone hbounded.2 ‹_›, rfl⟩⟩

theorem Inv.release (h : c.Inv) (hfound : c.process.connection cid = .ok (cidx, slot)) :
    Inv { c with
      process := c.process.setSlot cidx slot.release
      refs := Function.update c.refs cid (c.refs cid - 1) } := by
  obtain ⟨hslot, g, hg, hlive, rfl⟩ := h.named hfound
  have hkept := h.slots cidx slot hslot
  obtain ⟨hissued, hrefs, hdied⟩ := hkept.live g hlive
  obtain ⟨hbounded, hlast, hcases⟩ := release_cases hkept.bounded hlive
  refine h.set hslot hg rfl (fun cid hne => ?_) h.nodup h.died ?_ fun other hto j slot' hj hother => ?_
  · exact ⟨Iff.rfl, Function.update_of_ne hne _ _, Iff.rfl⟩
  · refine ⟨hbounded, fun g' hle hmem => ?_, fun g' hlive' => ?_, fun g' hle hlive' => ?_⟩
    · rw [hlast, ← ConnectionSlot.last_of_live hlive]
      exact hkept.issued g' hle hmem
    · rcases hcases with ⟨hlives, hcount, hto⟩ | ⟨hnone, -⟩
      · obtain rfl : g = g' := Option.some_inj.1 (hlives.symm.trans hlive')
        exact ⟨hissued, (Function.update_self _ _ _).trans (by rw [hrefs, hcount]), hto ▸ hdied⟩
      · rw [hnone] at hlive'
        cases hlive'
    · by_cases heq : g' = g
      · subst heq
        rcases hcases with ⟨hlives, -⟩ | ⟨-, hone, -⟩
        · exact absurd hlives hlive'
        · exact (Function.update_self _ _ _).trans (by rw [hrefs, hone])
      · have hne : packCid cidx g' ≠ packCid cidx g := fun hcid =>
          heq (packCid_inj (h.lt hslot) hle (h.lt hslot) hg hcid).2
        exact (Function.update_of_ne hne _ _).trans (hkept.gone g' hle fun hother =>
          heq (Option.some_inj.1 (hother.symm.trans hlive)))
  · rcases hcases with ⟨-, -, hsame⟩ | ⟨-, -, hnone⟩
    · exact h.once j cidx slot' slot other hj hslot hother (hsame ▸ hto)
    · rw [hnone] at hto
      cases hto

theorem tombstoneFrom_cases (deadSidx : UInt8) (k : Nat) (slots : List ConnectionSlot) :
    (Process.tombstoneFrom deadSidx k slots = (none, slots)) ∨
    ∃ i refcount generation permissions,
      slots[i]? = some (.connected deadSidx refcount generation permissions) ∧
      Process.tombstoneFrom deadSidx k slots =
        (some (packCid (k + i) generation), slots.set i (.tombstone refcount generation)) := by
  induction slots generalizing k with
  | nil => exact .inl rfl
  | cons slot slots ih =>
    by_cases hfound : ∃ refcount generation permissions,
      slot = .connected deadSidx refcount generation permissions
    · obtain ⟨refcount, generation, permissions, rfl⟩ := hfound
      exact .inr ⟨0, refcount, generation, permissions, rfl, if_pos rfl⟩
    · have hrest : Process.tombstoneFrom deadSidx k (slot :: slots) =
          ((Process.tombstoneFrom deadSidx (k + 1) slots).1,
            slot :: (Process.tombstoneFrom deadSidx (k + 1) slots).2) := by
        cases slot with
        | connected sidx refcount generation permissions =>
          exact if_neg fun heq => hfound ⟨_, _, _, congrArg (ConnectionSlot.connected · _ _ _) heq⟩
        | _ => rfl
      rw [hrest]
      rcases ih (k + 1) with hnone | ⟨i, refcount, generation, permissions, hi, hsome⟩
      · exact .inl (by rw [hnone])
      · refine .inr ⟨i + 1, refcount, generation, permissions, hi, ?_⟩
        rw [hsome, Nat.add_assoc, Nat.add_comm 1 i]
        rfl

theorem Inv.bury {sidx : UInt8} {refcount : Nat} {permissions : MessagePermissions} (h : c.Inv)
    (hslot : c.process.connectionMap[cidx]? =
      some (.connected sidx refcount generation permissions)) :
    Inv { c with
      process := c.process.setSlot cidx (.tombstone refcount generation)
      died := c.died ++ [packCid cidx generation] } := by
  have hkept := h.slots cidx _ hslot
  obtain ⟨hissued, hrefs, hdied⟩ := hkept.live generation rfl
  refine h.set hslot hkept.bounded.1 rfl (fun cid hne => ?_) h.nodup (fun cid hcid => ?_) ?_
    fun other hto => ?_
  · simp [hne]
  · rcases List.mem_append.1 hcid with hcid | hcid
    · exact h.died cid hcid
    · exact List.mem_singleton.1 hcid ▸ hissued
  · refine ⟨hkept.bounded, hkept.issued, fun g hlive => ?_, hkept.gone⟩
    cases hlive
    exact ⟨hissued, hrefs, fun _ => by simp, fun _ => rfl⟩
  · cases hto

theorem Inv.step (h : c.Inv) (op : ConnectionOp) : (c.step op).Inv := by
  cases op with
  | connect sidx permissions =>
    rcases addConnection_cases c.process sidx permissions with
      ⟨cidx, refcount, generation, permissions', hslot, hrun⟩ |
        ⟨cidx, generation, hslot, hfresh, hrun⟩ | ⟨e, hrun⟩
    · exact (congrArg (fun r => (c.connected r).Inv) hrun).mpr (h.share hslot)
    · exact (congrArg (fun r => (c.connected r).Inv) hrun).mpr (h.issue hslot hfresh)
    · exact (congrArg (fun r => (c.connected r).Inv) hrun).mpr h
  | disconnect cid =>
    show (c.dropped cid (c.process.disconnect cid)).Inv
    unfold Process.disconnect
    cases hfound : c.process.connection cid with
    | ok found => exact h.release hfound
    | error e => exact h
  | serverDied sidx =>
    show (c.buried (c.process.tombstoneConnectionBySidx sidx)).Inv
    unfold Process.tombstoneConnectionBySidx
    rcases tombstoneFrom_cases (UInt8.ofNat sidx) 0 c.process.connectionMap with
      hnone | ⟨i, refcount, generation, permissions, hslot, hsome⟩
    · rw [hnone]
      simpa [buried] using h
    · rw [hsome, Nat.zero_add]
      exact h.bury hslot

theorem Inv.run (h : c.Inv) (ops : List ConnectionOp) : (c.run ops).Inv := by
  induction ops generalizing c with
  | nil => exact h
  | cons op ops ih => exact ih (h.step op)

theorem new_inv (pid ppid : PID) : (new (Process.new pid ppid)).Inv := by
  have hat (i : Nat) (slot : ConnectionSlot)
      (hi : (Process.new pid ppid).connectionMap[i]? = some slot) : slot = .free 0 :=
    List.eq_of_mem_replicate (List.mem_of_getElem? hi)
  refine ⟨List.length_replicate, fun i slot hi => ?_, fun cid hcid => ?_, List.nodup_nil,
    fun cid hcid => (by cases hcid), fun i j slot slot' sidx hi _ hto => ?_⟩
  · obtain rfl := hat i slot hi
    exact ⟨show 0 < MAX_GENERATION by decide, fun g _ hmem => (by cases hmem), fun g hlive => (by cases hlive),
      fun g _ _ => rfl⟩
  · rcases hcid with hcid | hcid | hcid <;> cases hcid
  · obtain rfl := hat i slot hi
    cases hto

end Steps

/-- A CID is issued for one connection, is accepted exactly while references to it are left, and
names a tombstone exactly when the server has died; a server has one connection. -/
structure Exact (c : Connections) : Prop where
  issuedOnce : c.issued.Nodup
  accepted : ∀ cid, (∃ found, c.process.connection cid = .ok found) ↔ 0 < c.refs cid
  named : ∀ cid cidx slot, c.process.connection cid = .ok (cidx, slot) → cid ∈ c.issued ∧
    slot.refcount = c.refs cid ∧ (slot.connectedTo = none ↔ cid ∈ c.died)
  once : ∀ (i j : Nat) (slot slot' : ConnectionSlot) (sidx : UInt8),
    c.process.connectionMap[i]? = some slot → c.process.connectionMap[j]? = some slot' →
      slot.connectedTo = some sidx → slot'.connectedTo = some sidx → i = j

theorem Inv.exact {c : Connections} (h : c.Inv) : c.Exact := by
  have hnamed (cid : CID) (cidx : Nat) (slot : ConnectionSlot)
      (hfound : c.process.connection cid = .ok (cidx, slot)) : cid ∈ c.issued ∧
        slot.refcount = c.refs cid ∧ (slot.connectedTo = none ↔ cid ∈ c.died) ∧ slot.Bounded ∧
          ∃ generation, slot.liveGeneration = some generation := by
    obtain ⟨hslot, g, -, hlive, rfl⟩ := h.named hfound
    have hkept := h.slots cidx slot hslot
    obtain ⟨hissued, hrefs, hdied⟩ := hkept.live g hlive
    exact ⟨hissued, hrefs.symm, hdied, hkept.bounded, g, hlive⟩
  refine ⟨h.nodup, fun cid => ⟨?_, fun hpos => ?_⟩, fun cid cidx slot hfound => ?_, h.once⟩
  · rintro ⟨⟨cidx, slot⟩, hfound⟩
    obtain ⟨-, hrefs, -, hbounded, g, hlive⟩ := hnamed cid cidx slot hfound
    exact hrefs ▸ hbounded.refcount_pos hlive
  · obtain ⟨cidx, hcidx, g, hg, rfl⟩ := h.packed cid (.inr (.inl hpos))
    have hin : cidx < c.process.connectionMap.length := h.length.symm ▸ hcidx
    have hslot := List.getElem?_eq_getElem hin
    by_contra hno
    have hzero := (h.slots cidx _ hslot).gone g hg fun hlive =>
      hno ⟨_, h.connection_eq hslot hlive⟩
    omega
  · obtain ⟨hissued, hrefs, hdied, -⟩ := hnamed cid cidx slot hfound
    exact ⟨hissued, hrefs, hdied⟩

end Connections

/-! ## 4. The call -/

namespace Services

variable {s : Services} {p : Process} {pid : PID}

/-- Each process has its connections, and that of `pid` those of `p`. -/
def Tables (s : Services) (pid : PID) (p : Process) (s' : Services) : Prop :=
  ∀ q, s'.connectionMap q = (s.putProcess pid p).connectionMap q

theorem tables_self (hp : s.process pid = some p) : Tables s pid p s := by
  intro q
  rw [connectionMap_putProcess]
  split
  · next h => rw [h, connectionMap, hp]; rfl
  · rfl

theorem setSlot_table {slot : ConnectionSlot} {cidx : Nat} (hp : s.process pid = some p)
    {E : Error → Services → Prop} :
    Triple (· = s) (onProcess pid (Prog.modify (Process.setSlot cidx slot)))
      (fun _ s' => s' = s.putProcess pid (p.setSlot cidx slot)) E fun _ => True := by
  refine (onProcess_spec hp (Triple.modify (Q := fun _ p' => p' = p.setSlot cidx slot)
    (E := fun _ _ => False) fun v hv => by rw [hv])).conseq (fun _ h => h) (fun _ v hv => ?_)
      (fun _ v hv => ?_) fun _ h => h
  · obtain ⟨p', rfl, rfl⟩ := hv
    rfl
  · exact hv.elim fun _ h => h.1.elim

theorem dropConnection_table {cid : CID} {cidx sidx generation : Nat}
    (hp : s.process s.current = some p) :
    Triple (· = s) (dropConnection cid cidx sidx generation)
      (fun _ => Tables s s.current (p.setSlot cidx (.freeOrCondemn generation)))
      (fun _ => Tables s s.current (p.setSlot cidx (.freeOrCondemn generation))) fun _ => True := by
  refine Triple.get_bind fun u hu => ?_
  subst hu
  refine Triple.bind (setSlot_table hp) fun _ => ?_
  refine Triple.bind (Q := fun _ => Frame (u.putProcess u.current
    (p.setSlot cidx (.freeOrCondemn generation)))) (failRequests_spec.pre fun v hv => ?_) fun _ => ?_
  · rw [hv]
    exact Frame.refl
  intro v hv
  refine (?_ : Triple (· = v) _ _ _ _) v rfl
  exact sendServerEvent_spec.conseq (fun _ h => h)
    (fun _ w hw q => (hw.connections q).trans (hv.connections q))
    (fun _ w hw q => (hw.1.connections q).trans (hv.connections q)) fun _ h => h

/-- The call drops a reference of the caller, also where the server cannot be told. -/
theorem disconnectFromServer_table {cid : CID} {c : Connections}
    (hp : s.process s.current = some c.process) :
    Triple (· = s) (disconnectFromServer cid)
      (fun _ => Tables s s.current (c.step (.disconnect cid)).process)
      (fun _ => Tables s s.current (c.step (.disconnect cid)).process) fun _ => True := by
  refine Triple.get_bind fun u hu => ?_
  subst hu
  refine Triple.bind (Triple.expect (Q := fun p v => v = u ∧ p = c.process)
    (fun p h v hv => ⟨hv, Option.some_inj.1 (h.symm.trans hp)⟩) fun _ => trivial) fun p => ?_
  rintro v ⟨rfl, rfl⟩
  refine (?_ : Triple (· = v) _ _ _ _) v rfl
  have hstep : c.step (.disconnect cid) = c.dropped cid (c.process.connection cid >>=
    fun found => .ok (c.process.setSlot found.1 found.2.release)) := rfl
  cases hfound : c.process.connection cid with
  | error e =>
    have hafter : (c.step (.disconnect cid)).process = c.process := by rw [hstep, hfound]; rfl
    rw [hafter]
    exact Triple.throw fun w hw => by
      rw [hw]
      exact tables_self hp
  | ok found =>
    obtain ⟨cidx, slot⟩ := found
    have hafter : (c.step (.disconnect cid)).process = c.process.setSlot cidx slot.release := by
      rw [hstep, hfound]
      rfl
    rw [hafter]
    refine Triple.bind (Q := fun found w => w = v ∧ found = (cidx, slot)) (Triple.ofExcept
      (fun found h w hw => ⟨hw, (Except.ok.inj h).symm⟩) fun e h => (by cases h)) fun found => ?_
    rintro w ⟨rfl, rfl⟩
    refine (?_ : Triple (· = w) _ _ _ _) w rfl
    cases slot with
    | free generation => obtain ⟨g, -, hlive⟩ := unpack_of_connection hfound; cases hlive
    | condemned => obtain ⟨g, -, hlive⟩ := unpack_of_connection hfound; cases hlive
    | tombstone refcount generation =>
      refine (setSlot_table hp).conseq (fun _ h => h) (fun _ t ht q => ?_) (fun _ t ht => ht)
        fun _ h => h
      rw [ht]
      rfl
    | connected sidx refcount generation permissions =>
      dsimp only [ConnectionSlot.release]
      split
      · refine (setSlot_table hp).conseq (fun _ h => h) (fun _ t ht q => ?_) (fun _ t ht => ht)
          fun _ h => h
        rw [ht]
      · exact dropConnection_table hp

end Services

end Kernel
