import KeyOS.Cosign.Header

/-!
# Trust is earned

The verdict on a header comes from four separate steps. Taken together they leave no
combination of zero and non-zero keys and signatures with a level that was not earned.
-/

namespace Cosign

/-! ## 1. Accepted headers -/

theorem bind_ok {ε α β : Type} {x : Except ε α} {f : α → Except ε β} {b : β} :
    (x >>= f) = .ok b ↔ ∃ a, x = .ok a ∧ f a = .ok b := by
  cases x with
  | ok a => exact ⟨fun h => ⟨a, rfl, h⟩, fun ⟨_, ha, h⟩ => by cases ha; exact h⟩
  | error e => exact ⟨nofun, fun ⟨_, ha, _⟩ => nomatch ha⟩

namespace Header

theorem ensure_ok {condition : Bool} {e : Error} :
    ensure condition e = .ok () ↔ condition = true := by
  cases condition with
  | true => exact ⟨fun _ => rfl, fun _ => rfl⟩
  | false => exact ⟨nofun, nofun⟩

/-- Two checks, one after the other. -/
theorem check_bind {α : Type} {x : Except Error Unit} {f : Unit → Except Error α} {a : α} :
    (x >>= f) = .ok a ↔ x = .ok () ∧ f () = .ok a := by
  rw [bind_ok]
  exact ⟨fun ⟨_, hx, hf⟩ => ⟨hx, hf⟩, fun ⟨hx, hf⟩ => ⟨(), hx, hf⟩⟩

section Checks

variable {known : List Pubkey} {verifyEcdsa : Digest → Signature → Pubkey → VerificationResult}
  {validSemver : Bytes → Bool} {h h' : Header}

/-- What the check of one signature establishes. -/
def SignatureChecked (verifyEcdsa : Digest → Signature → Pubkey → VerificationResult)
    (hash : Digest) (signature : Signature) (pubkey : Pubkey) : Prop :=
  signature ≠ zeros 64 → verifyEcdsa hash signature pubkey = .valid

theorem verifySignatures_ok (hok : verifySignatures known verifyEcdsa h = .ok ()) :
    SignatureChecked verifyEcdsa h.hash h.signature1 h.pubkey1 ∧
    SignatureChecked verifyEcdsa h.hash h.signature2 h.pubkey2 := by
  obtain ⟨hfirst, hsecond⟩ := check_bind.mp hok
  refine ⟨fun hs => ?_, fun hs => ?_⟩
  · rw [onlyIf, if_pos (bne_iff_ne.mpr hs)] at hfirst
    exact beq_iff_eq.mp (ensure_ok.mp (check_bind.mp hfirst).1)
  · rw [onlyIf, if_pos (bne_iff_ne.mpr hs)] at hsecond
    exact beq_iff_eq.mp (ensure_ok.mp (check_bind.mp hsecond).1)

/-- The levels that the public keys of a header allow. -/
inductive Level (known : List Pubkey) (h : Header) : Trust → Prop where
  | disabled (hk : known = []) : Level known h .disabled
  | full (h1 : h.pubkey1 ∈ known) (h2 : h.pubkey2 ∈ known) (hne : h.pubkey1 ≠ h.pubkey2) :
      Level known h .fullyTrusted
  | partially (h1 : h.pubkey1 ∈ known) (h2 : h.pubkey2 = zeros 33) :
      Level known h .partiallyTrusted
  | thirdParty (h1 : h.pubkey1 = zeros 33) (h2 : h.pubkey2 ∉ known) : Level known h .thirdParty

theorem updateTrust_ok (hok : updateTrust known h = .ok h') :
    h' = { h with trust := h'.trust } ∧ Level known h h'.trust := by
  unfold updateTrust at hok
  split at hok
  · next hk =>
    cases hok
    exact ⟨rfl, .disabled (List.length_eq_zero_iff.mp hk)⟩
  · split at hok
    · next hc =>
      cases hok
      simp only [Bool.and_eq_true, List.contains_iff_mem, bne_iff_ne] at hc
      exact ⟨rfl, .full hc.1.1 hc.1.2 hc.2⟩
    · split at hok
      · next hc =>
        cases hok
        simp only [Bool.and_eq_true, List.contains_iff_mem, beq_iff_eq] at hc
        exact ⟨rfl, .partially hc.1 hc.2⟩
      · split at hok
        · next hc =>
          cases hok
          simp only [Bool.and_eq_true, Bool.not_eq_true', beq_iff_eq] at hc
          refine ⟨rfl, .thirdParty hc.1 fun hmem => ?_⟩
          rw [List.contains_iff_mem.mpr hmem] at hc
          cases hc.2
        · cases hok

/-- The size is checked on top of the other fields. -/
theorem validateFields_ok {binary : Bytes} :
    validateFields validSemver binary true h = .ok () ↔
      (binary.length < 2 ^ 32 ∧ (fromLeBytes h.binSize).toNat = binary.length) ∧
      validateFields validSemver [] false h = .ok () := by
  simp only [validateFields, check_bind, onlyIf, if_true, Bool.false_eq_true, if_false, ensure_ok,
    decide_eq_true_eq, beq_iff_eq, true_and]
  constructor
  · rintro ⟨h1, h2, h3, h4, h5, hsize, h6⟩
    exact ⟨hsize, h1, h2, h3, h4, h5, h6⟩
  · rintro ⟨hsize, h1, h2, h3, h4, h5, h6⟩
    exact ⟨h1, h2, h3, h4, h5, hsize, h6⟩

theorem validateFields_zero (hok : validateFields validSemver [] false h = .ok ()) :
    (h.signature1 = zeros 64 → h.pubkey1 = zeros 33) ∧
    (h.signature2 = zeros 64 → h.pubkey2 = zeros 33) := by
  simp only [validateFields, check_bind, ensure_ok, Bool.or_eq_true, bne_iff_ne, beq_iff_eq] at hok
  obtain ⟨-, -, -, -, -, -, h1, h2⟩ := hok
  exact ⟨fun hs => h1.resolve_left fun hne => hne hs, fun hs => h2.resolve_left fun hne => hne hs⟩

end Checks

/-! ## 2. What each level says -/

/-- `Earned known Signs h t`: who signed a header of trust `t`, and what else it carries. -/
def Earned (known : List Pubkey) (Signs : Pubkey → Prop) (h : Header) : Trust → Prop
  | .fullyTrusted => h.pubkey1 ∈ known ∧ h.pubkey2 ∈ known ∧ h.pubkey1 ≠ h.pubkey2 ∧
      Signs h.pubkey1 ∧ Signs h.pubkey2
  | .partiallyTrusted => h.pubkey1 ∈ known ∧ Signs h.pubkey1 ∧
      h.pubkey2 = zeros 33 ∧ h.signature2 = zeros 64
  | .thirdParty => h.pubkey1 = zeros 33 ∧ h.signature1 = zeros 64 ∧
      h.pubkey2 ∉ known ∧ Signs h.pubkey2
  | .disabled => known = []
  | .unverified => False

/-- The steps that every accepted header has passed. -/
structure Accepted (known : List Pubkey)
    (verifyEcdsa : Digest → Signature → Pubkey → VerificationResult) (h : Header) : Prop where
  present : h.signature1 ≠ zeros 64 ∨ h.signature2 ≠ zeros 64
  first : SignatureChecked verifyEcdsa h.hash h.signature1 h.pubkey1
  second : SignatureChecked verifyEcdsa h.hash h.signature2 h.pubkey2
  level : Level known h h.trust
  zero1 : h.signature1 = zeros 64 → h.pubkey1 = zeros 33
  zero2 : h.signature2 = zeros 64 → h.pubkey2 = zeros 33

theorem Accepted.earned {known : List Pubkey}
    {verifyEcdsa : Digest → Signature → Pubkey → VerificationResult} {Signs : Pubkey → Prop}
    {h : Header} (ha : Accepted known verifyEcdsa h) (hknown : zeros 33 ∉ known)
    (hsigns : ∀ signature key, verifyEcdsa h.hash signature key = .valid → Signs key)
    (hzero : ∀ signature, verifyEcdsa h.hash signature (zeros 33) ≠ .valid) :
    Earned known Signs h h.trust := by
  -- A known key is not the zero key, so its signature is there and has been verified.
  have hfirst : h.pubkey1 ∈ known → Signs h.pubkey1 := fun hmem =>
    hsigns _ _ (ha.first fun hs => hknown (ha.zero1 hs ▸ hmem))
  have hsecond : h.pubkey2 ∈ known → Signs h.pubkey2 := fun hmem =>
    hsigns _ _ (ha.second fun hs => hknown (ha.zero2 hs ▸ hmem))
  cases hlevel : h.trust with
  | disabled =>
    cases hlevel ▸ ha.level with
    | disabled hk => exact hk
  | unverified =>
    cases hlevel ▸ ha.level
  | fullyTrusted =>
    cases hlevel ▸ ha.level with
    | full h1 h2 hne => exact ⟨h1, h2, hne, hfirst h1, hsecond h2⟩
  | partiallyTrusted =>
    cases hlevel ▸ ha.level with
    | partially h1 h2 =>
      refine ⟨h1, hfirst h1, h2, ?_⟩
      by_contra hs
      exact hzero _ (h2 ▸ ha.second hs)
  | thirdParty =>
    cases hlevel ▸ ha.level with
    | thirdParty h1 h2 =>
      have hs1 : h.signature1 = zeros 64 := by
        by_contra hs
        exact hzero _ (h1 ▸ ha.first hs)
      have hs2 : h.signature2 ≠ zeros 64 := ha.present.resolve_left fun hne => hne hs1
      exact ⟨h1, hs1, h2, hsigns _ _ (ha.second hs2)⟩

/-! ## 3. The two parsers -/

section Parsers

variable {known : List Pubkey} {sha : Bytes → Digest}
  {verifyEcdsa : Digest → Signature → Pubkey → VerificationResult} {validSemver : Bytes → Bool}
  {h : Header} {size : Size}

/-- What the checks after the hash make of a header. -/
def Checked (known : List Pubkey)
    (verifyEcdsa : Digest → Signature → Pubkey → VerificationResult) (validSemver : Bytes → Bool)
    (hashed h : Header) : Prop :=
  verifySignatures known verifyEcdsa hashed = .ok () ∧ updateTrust known hashed = .ok h ∧
    validateFields validSemver [] false h = .ok ()

theorem Checked.accepted {hashed : Header}
    (hc : Checked known verifyEcdsa validSemver hashed h)
    (hpresent : (hashed.signature1 != zeros 64 || hashed.signature2 != zeros 64) = true) :
    Accepted known verifyEcdsa h ∧ h = { hashed with trust := h.trust } := by
  obtain ⟨hverify, htrust, hfields⟩ := hc
  obtain ⟨heq, hlevel⟩ := updateTrust_ok htrust
  obtain ⟨hfirst, hsecond⟩ := verifySignatures_ok hverify
  obtain ⟨hzero1, hzero2⟩ := validateFields_zero hfields
  simp only [Bool.or_eq_true, bne_iff_ne] at hpresent
  generalize h.trust = t at heq hlevel
  subst heq
  refine ⟨⟨hpresent, hfirst, hsecond, ?_, hzero1, hzero2⟩, rfl⟩
  cases hlevel with
  | disabled hk => exact .disabled hk
  | full h1 h2 hne => exact .full h1 h2 hne
  | partially h1 h2 => exact .partially h1 h2
  | thirdParty h1 h2 => exact .thirdParty h1 h2

/-- The reserved bytes and the binary of an image. -/
def reserved (data : Bytes) (size : Size) : Bytes := (data.take size.1).drop payloadSize

def binary (data : Bytes) (size : Size) : Bytes := data.drop size.1

theorem Checked.binSize {hashed : Header} (hc : Checked known verifyEcdsa validSemver hashed h) :
    h.binSize = hashed.binSize := by
  have heq := (updateTrust_ok hc.2.1).1
  rw [heq]

theorem parse_ok {data : Bytes} :
    parse known sha verifyEcdsa validSemver data size = .ok (some h) ↔
      size.1 ≤ maxSize ∧ ∃ h₀, deserialize data size = .ok (some h₀) ∧
        (h₀.signature1 != zeros 64 || h₀.signature2 != zeros 64) = true ∧
        ((binary data size).length < 2 ^ 32 ∧
          (fromLeBytes h₀.binSize).toNat = (binary data size).length) ∧
        Checked known verifyEcdsa validSemver
          (h₀.hashWith sha (reserved data size) (binary data size)) h := by
  unfold parse
  rw [check_bind, ensure_ok, decide_eq_true_iff, bind_ok]
  refine and_congr_right fun _ => ⟨?_, ?_⟩
  · rintro ⟨found, hfound, hrest⟩
    cases found with
    | none => cases hrest
    | some h₀ =>
      obtain ⟨hpresent, hrest⟩ := check_bind.mp hrest
      obtain ⟨hverify, hrest⟩ := check_bind.mp hrest
      obtain ⟨h', htrust, hrest⟩ := bind_ok.mp hrest
      obtain ⟨hfields, hrest⟩ := check_bind.mp hrest
      cases hrest
      obtain ⟨hsize, hfields⟩ := validateFields_ok.mp hfields
      have hc : Checked known verifyEcdsa validSemver
        (h₀.hashWith sha (reserved data size) (binary data size)) h := ⟨hverify, htrust, hfields⟩
      have hbin : h.binSize = h₀.binSize := hc.binSize
      exact ⟨h₀, hfound, ensure_ok.mp hpresent, hbin ▸ hsize, hc⟩
  · rintro ⟨h₀, hfound, hpresent, hsize, hc⟩
    have hbin : h.binSize = h₀.binSize := hc.binSize
    refine ⟨some h₀, hfound, check_bind.mpr ⟨ensure_ok.mpr hpresent, check_bind.mpr ⟨hc.1,
      bind_ok.mpr ⟨h, hc.2.1, check_bind.mpr ⟨validateFields_ok.mpr ⟨?_, hc.2.2⟩, rfl⟩⟩⟩⟩⟩
    rw [hbin]
    exact hsize

theorem parseStreaming_ok {ε : Type} {hashStreaming : Nat → Except ε Digest} {headerData : Bytes}
    {binarySize : Nat} :
    parseStreaming known sha verifyEcdsa validSemver hashStreaming headerData binarySize size =
        .ok (some h) ↔
      size.1 ≤ maxSize ∧ size.1 ≤ headerData.length ∧ ∃ h₀ binHash,
        deserialize headerData size = .ok (some h₀) ∧
        (h₀.signature1 != zeros 64 || h₀.signature2 != zeros 64) = true ∧
        (fromLeBytes h₀.binSize).toNat = binarySize ∧ hashStreaming binarySize = .ok binHash ∧
        Checked known verifyEcdsa validSemver
          (h₀.finalizeHash sha (h₀.computeHeaderFieldsHash sha) (sha (reserved headerData size))
            binHash) h := by
  unfold parseStreaming
  rw [check_bind, ensure_ok, decide_eq_true_iff, check_bind, ensure_ok, decide_eq_true_iff, bind_ok]
  refine and_congr_right fun _ => and_congr_right fun _ => ⟨?_, ?_⟩
  · rintro ⟨found, hfound, hrest⟩
    cases found with
    | none => cases hrest
    | some h₀ =>
      obtain ⟨hpresent, hrest⟩ := check_bind.mp hrest
      obtain ⟨hsize, hrest⟩ := check_bind.mp hrest
      obtain ⟨hashed, hhash, hrest⟩ := bind_ok.mp hrest
      obtain ⟨hverify, hrest⟩ := check_bind.mp hrest
      obtain ⟨h', htrust, hrest⟩ := bind_ok.mp hrest
      obtain ⟨hfields, hrest⟩ := check_bind.mp hrest
      cases hrest
      cases hstream : hashStreaming binarySize with
      | error e =>
        rw [hstream] at hhash
        cases hhash
      | ok binHash =>
        rw [hstream] at hhash
        cases hhash
        exact ⟨h₀, binHash, hfound, ensure_ok.mp hpresent, beq_iff_eq.mp (ensure_ok.mp hsize), rfl,
          hverify, htrust, hfields⟩
  · rintro ⟨h₀, binHash, hfound, hpresent, hsize, hstream, hverify, htrust, hfields⟩
    refine ⟨some h₀, hfound, check_bind.mpr ⟨ensure_ok.mpr hpresent, check_bind.mpr
      ⟨ensure_ok.mpr (beq_iff_eq.mpr hsize), bind_ok.mpr ⟨_, ?_, check_bind.mpr ⟨hverify,
        bind_ok.mpr ⟨h, htrust, check_bind.mpr ⟨hfields, rfl⟩⟩⟩⟩⟩⟩⟩
    rw [hstream]
    rfl

/-! ### The bytes of an image -/

theorem slice_take {data : Bytes} {start n k : Nat} (h : start + n ≤ k) :
    slice (data.take k) start n = slice data start n := by
  unfold slice
  congr 1
  funext i
  rw [List.getElem?_take_of_lt (Nat.lt_of_lt_of_le (Nat.add_lt_add_left i.2 start) h)]

/-- The header is read from the first `size` bytes. -/
theorem deserialize_take {data : Bytes} (h : size.1 ≤ data.length) :
    deserialize (data.take size.1) size = deserialize data size := by
  have hsize : 240 ≤ size.1 := size.2
  have hslice : ∀ start n, start + n ≤ 240 →
      slice (data.take size.1) start n = slice data start n := fun start n hn =>
    slice_take (Nat.le_trans hn hsize)
  unfold deserialize
  rw [List.length_take, Nat.min_eq_left h, hslice 0 4 (by decide), hslice 4 4 (by decide),
    hslice 8 14 (by decide), hslice 22 20 (by decide), hslice 42 4 (by decide),
    hslice 46 33 (by decide), hslice 79 64 (by decide), hslice 143 33 (by decide),
    hslice 176 64 (by decide), if_neg (by omega : ¬ size.1 < 4),
    if_neg (by omega : ¬ data.length < 4), if_neg (Nat.lt_irrefl _),
    if_neg (Nat.not_lt.mpr h)]

theorem deserialize_length {data : Bytes} {h₀ : Header}
    (h : deserialize data size = .ok (some h₀)) : size.1 ≤ data.length := by
  unfold deserialize at h
  split at h
  · cases h
  · split at h
    · cases h
    · split at h
      · cases h
      · next hlen => exact Nat.not_lt.mp hlen

theorem reserved_take (data : Bytes) : reserved (data.take size.1) size = reserved data size := by
  rw [reserved, reserved, List.take_take, Nat.min_self]

/-- With a reader that provides the binary, the two parsers accept the same images. -/
theorem parse_iff_parseStreaming {ε : Type} {hashStreaming : Nat → Except ε Digest} {data : Bytes}
    (hstream : hashStreaming (binary data size).length = .ok (sha (binary data size))) :
    parse known sha verifyEcdsa validSemver data size = .ok (some h) ↔
      parseStreaming known sha verifyEcdsa validSemver hashStreaming (data.take size.1)
        (binary data size).length size = .ok (some h) := by
  rw [parse_ok, parseStreaming_ok]
  constructor
  · rintro ⟨hmax, h₀, hfound, hpresent, ⟨-, hsize⟩, hc⟩
    have hlen := deserialize_length hfound
    refine ⟨hmax, Nat.le_of_eq (by rw [List.length_take, Nat.min_eq_left hlen]), h₀, _, ?_,
      hpresent, hsize, hstream, ?_⟩
    · rwa [deserialize_take hlen]
    · rw [reserved_take]
      exact hc
  · rintro ⟨hmax, hlen, h₀, binHash, hfound, hpresent, hsize, hbin, hc⟩
    rw [hstream] at hbin
    cases hbin
    have hlen' : size.1 ≤ data.length := Nat.le_trans hlen (List.length_take_le' _ _)
    rw [deserialize_take hlen'] at hfound
    rw [reserved_take] at hc
    exact ⟨hmax, h₀, hfound, hpresent, ⟨hsize ▸ UInt32.toNat_lt _, hsize⟩, hc⟩

end Parsers

/-! ## 4. What a signature covers -/

/-- The contents of an image that its signatures cover. -/
structure Contents where
  /-- Magic, timestamp, date, version and size of the binary. -/
  fields : Vector UInt8 46
  reserved : Bytes
  binary : Bytes
deriving DecidableEq, Repr

def contentsOf (data : Bytes) (size : Size) : Contents where
  fields := slice data 0 46
  reserved := reserved data size
  binary := binary data size

namespace Contents

variable (sha : Bytes → Digest)

def hashes (c : Contents) : Bytes :=
  hashBuf ((sha (hashBuf c.fields.toList)).toList ++ (sha c.reserved).toList ++
    (sha c.binary).toList)

/-- The message that is signed. -/
def digest (c : Contents) : Digest := sha (sha (c.hashes sha)).toList

/-- All that is hashed on the way. -/
def hashed (c : Contents) : List Bytes :=
  [hashBuf c.fields.toList, c.reserved, c.binary, c.hashes sha, (sha (c.hashes sha)).toList]

end Contents

/-- Among what is hashed for `c` and for `c'` there is no collision. -/
def NoCollision (sha : Bytes → Digest) (c c' : Contents) : Prop :=
  ∀ x ∈ c.hashed sha, ∀ y ∈ c'.hashed sha, sha x = sha y → x = y

theorem hashBuf_inj {a b : Bytes} (hlen : a.length = b.length) (h : hashBuf a = hashBuf b) :
    a = b :=
  (List.append_inj h hlen).1

theorem digest_inj {sha : Bytes → Digest} {c c' : Contents} (hno : NoCollision sha c c')
    (h : c.digest sha = c'.digest sha) : c = c' := by
  have hcombined : c.hashes sha = c'.hashes sha := by
    refine hno _ (by simp [Contents.hashed]) _ (by simp [Contents.hashed]) ?_
    exact Vector.toList_inj.mp (hno _ (by simp [Contents.hashed]) _ (by simp [Contents.hashed]) h)
  have hparts := hashBuf_inj (by simp only [List.length_append, Vector.length_toList]) hcombined
  obtain ⟨hfront, hbinary⟩ := List.append_inj hparts
    (by simp only [List.length_append, Vector.length_toList])
  obtain ⟨hfields, hreserved⟩ := List.append_inj hfront (by simp only [Vector.length_toList])
  have hf : hashBuf c.fields.toList = hashBuf c'.fields.toList :=
    hno _ (by simp [Contents.hashed]) _ (by simp [Contents.hashed]) (Vector.toList_inj.mp hfields)
  have hr : c.reserved = c'.reserved :=
    hno _ (by simp [Contents.hashed]) _ (by simp [Contents.hashed]) (Vector.toList_inj.mp hreserved)
  have hb : c.binary = c'.binary :=
    hno _ (by simp [Contents.hashed]) _ (by simp [Contents.hashed]) (Vector.toList_inj.mp hbinary)
  obtain ⟨fields, reserved, binary⟩ := c
  obtain ⟨fields', reserved', binary'⟩ := c'
  obtain rfl : fields = fields' :=
    Vector.toList_inj.mp (hashBuf_inj (by simp only [Vector.length_toList]) hf)
  obtain rfl : reserved = reserved' := hr
  obtain rfl : binary = binary' := hb
  rfl

theorem slice_toList {data : Bytes} {start n : Nat} (h : start + n ≤ data.length) :
    (slice data start n).toList = (data.drop start).take n := by
  refine List.ext_getElem ?_ fun i hi _ => ?_
  · rw [Vector.length_toList, List.length_take, List.length_drop]
    omega
  · rw [Vector.length_toList] at hi
    have hlt : start + i < data.length := by omega
    simp only [slice, Vector.getElem_toList, Vector.getElem_ofFn, List.getElem_take,
      List.getElem_drop, List.getElem?_eq_getElem hlt, Option.getD_some]

/-- The hashed fields are the first bytes of the image. -/
theorem fields_eq {data : Bytes} {size : Size} {h₀ : Header}
    (h : deserialize data size = .ok (some h₀)) : h₀.fields = (slice data 0 46).toList := by
  have hsize : 240 ≤ size.1 := size.2
  have hlen := deserialize_length h
  unfold deserialize at h
  split at h
  · cases h
  · split at h
    · cases h
    · split at h
      · cases h
      · cases h
        simp only [fields]
        rw [slice_toList (by omega), slice_toList (by omega), slice_toList (by omega),
          slice_toList (by omega), slice_toList (by omega), slice_toList (by omega),
          List.drop_zero, ← List.take_add, ← List.take_add, ← List.take_add, ← List.take_add]

/-- Parsing changes the hashes and the trust of a header, and nothing else. -/
def unverified (h : Header) : Header :=
  { h with hash := zeros 32, binHash := zeros 32, trust := .unverified }

theorem deserialize_unverified {data : Bytes} {size : Size} {h₀ : Header}
    (h : deserialize data size = .ok (some h₀)) : h₀ = h₀.unverified := by
  unfold deserialize at h
  split at h
  · cases h
  · split at h
    · cases h
    · split at h
      · cases h
      · cases h
        rfl

/-! ## 5. Trust is earned -/

section Earned

variable {known : List Pubkey} {sha : Bytes → Digest}
  {verifyEcdsa : Digest → Signature → Pubkey → VerificationResult} {validSemver : Bytes → Bool}
  {Signed : Pubkey → Contents → Prop} {data : Bytes} {size : Size}

/-- An accepted header with the hash of the image. -/
theorem earned_of_checked {h₀ h : Header} (hknown : zeros 33 ∉ known)
    (hgenuine : ∀ msg signature key, verifyEcdsa msg signature key = .valid →
      ∃ c : Contents, Signed key c ∧ c.digest sha = msg)
    (hzero : ∀ msg signature, verifyEcdsa msg signature (zeros 33) ≠ .valid)
    (hcollision : ∀ key c, Signed key c → NoCollision sha c (contentsOf data size))
    (hfound : deserialize data size = .ok (some h₀))
    (hpresent : (h₀.signature1 != zeros 64 || h₀.signature2 != zeros 64) = true)
    (hc : Checked known verifyEcdsa validSemver
      (h₀.hashWith sha (reserved data size) (binary data size)) h) :
    deserialize data size = .ok (some h.unverified) ∧
      Earned known (fun key => Signed key (contentsOf data size)) h h.trust := by
  obtain ⟨haccepted, heq⟩ := hc.accepted hpresent
  have hhash : h.hash = (contentsOf data size).digest sha := by
    rw [heq]
    show sha (sha (hashBuf ((sha (hashBuf h₀.fields)).toList ++ _ ++ _))).toList = _
    rw [fields_eq hfound]
    rfl
  refine ⟨?_, haccepted.earned hknown (fun signature key hvalid => ?_) fun signature => ?_⟩
  · rw [heq, hfound, deserialize_unverified hfound]
    rfl
  · obtain ⟨c, hsigned, hdigest⟩ := hgenuine _ _ _ hvalid
    rw [hhash] at hdigest
    rwa [← digest_inj (hcollision key c hsigned) hdigest]
  · exact hzero _ _

/-- With genuine signatures and no collision with what was signed: whatever the bytes, the
trust that either parser returns is earned by the keys of the header, for exactly these
header fields, reserved bytes and binary, and the two parsers return the same trust. -/
theorem trust_is_earned {ε : Type} {hashStreaming : Nat → Except ε Digest}
    (hknown : zeros 33 ∉ known)
    (hgenuine : ∀ msg signature key, verifyEcdsa msg signature key = .valid →
      ∃ c : Contents, Signed key c ∧ c.digest sha = msg)
    (hzero : ∀ msg signature, verifyEcdsa msg signature (zeros 33) ≠ .valid)
    (hcollision : ∀ key c, Signed key c → NoCollision sha c (contentsOf data size))
    (hstream : ∀ d, hashStreaming (binary data size).length = .ok d →
      d = sha (binary data size)) :
    (∀ h, parse known sha verifyEcdsa validSemver data size = .ok (some h) →
      deserialize data size = .ok (some h.unverified) ∧
      Earned known (fun key => Signed key (contentsOf data size)) h h.trust) ∧
    (∀ h, parseStreaming known sha verifyEcdsa validSemver hashStreaming (data.take size.1)
        (binary data size).length size = .ok (some h) →
      parse known sha verifyEcdsa validSemver data size = .ok (some h)) ∧
    ((∃ d, hashStreaming (binary data size).length = .ok d) → ∀ h,
      parse known sha verifyEcdsa validSemver data size = .ok (some h) →
      parseStreaming known sha verifyEcdsa validSemver hashStreaming (data.take size.1)
        (binary data size).length size = .ok (some h)) := by
  refine ⟨fun h hparse => ?_, fun h hparse => ?_, fun ⟨d, hd⟩ h hparse => ?_⟩
  · obtain ⟨-, h₀, hfound, hpresent, -, hc⟩ := parse_ok.mp hparse
    exact earned_of_checked hknown hgenuine hzero hcollision hfound hpresent hc
  · obtain ⟨-, -, h₀, d, -, -, -, hd, -⟩ := parseStreaming_ok.mp hparse
    exact (parse_iff_parseStreaming (hstream d hd ▸ hd)).mpr hparse
  · exact (parse_iff_parseStreaming (hstream d hd ▸ hd)).mp hparse

end Earned

/-! ### An image with one signature -/

def someKey : Pubkey := Vector.replicate 33 2

def someSignature : Signature := Vector.replicate 64 3

/-- A binary of one byte under a header that `someKey` has signed. -/
def image : Bytes :=
  [0x50, 0x52, 0x4D, 0x31] ++ List.replicate 38 0 ++ [1, 0, 0, 0] ++ someKey.toList ++
    someSignature.toList ++ List.replicate 97 0 ++ [7]

def imageSize : Size := ⟨240, Nat.le_refl _⟩

/-- A digest that tells the few strings apart that are hashed for `image`. -/
def someDigest (data : Bytes) : Digest :=
  Vector.ofFn fun i : Fin 32 => data.getD i.val 0 + UInt8.ofNat data.length

def accepts (msg : Digest) (signature : Signature) (key : Pubkey) : VerificationResult :=
  if msg = (contentsOf image imageSize).digest someDigest ∧ signature = someSignature ∧
    key = someKey then .valid else .invalid

def imageHeader : Header where
  magic := slice image 0 4
  timestamp := zeros 4
  date := zeros 14
  version := zeros 20
  binSize := slice image 42 4
  pubkey1 := someKey
  signature1 := someSignature
  pubkey2 := zeros 33
  signature2 := zeros 64
  size := 240
  hash := (contentsOf image imageSize).digest someDigest
  binHash := someDigest [7]
  trust := .partiallyTrusted

/-- `someKey` signs `image` only. -/
def signedImage (key : Pubkey) (c : Contents) : Prop :=
  key = someKey ∧ c = contentsOf image imageSize

/-- A reader that provides the binary of `image`. -/
def streamImage (_ : Nat) : Except Unit Digest := .ok (someDigest (binary image imageSize))

theorem trust_is_earned_one :
    imageHeader.pubkey1 = someKey ∧ imageHeader.signature2 = zeros 64 ∧
      signedImage imageHeader.pubkey1 (contentsOf image imageSize) := by
  have hparse : parse [someKey] someDigest accepts (fun _ => true) image imageSize =
      .ok (some imageHeader) := by decide +kernel
  have haccepts : ∀ msg signature key, accepts msg signature key = .valid →
      msg = (contentsOf image imageSize).digest someDigest ∧ key = someKey := by
    intro msg signature key h
    unfold accepts at h
    split at h
    · next hc => exact ⟨hc.1, hc.2.2⟩
    · cases h
  have hgenuine : ∀ msg signature key, accepts msg signature key = .valid →
      ∃ c, signedImage key c ∧ c.digest someDigest = msg := fun msg signature key h =>
    ⟨_, ⟨(haccepts _ _ _ h).2, rfl⟩, (haccepts _ _ _ h).1.symm⟩
  have hzero : ∀ msg signature, accepts msg signature (zeros 33) ≠ .valid :=
    fun msg signature h => absurd (haccepts _ _ _ h).2 (by decide)
  have hcollision : ∀ key c, signedImage key c →
      NoCollision someDigest c (contentsOf image imageSize) := by
    rintro key c ⟨-, rfl⟩
    unfold NoCollision
    decide +kernel
  have hstream : ∀ d, streamImage (binary image imageSize).length = .ok d →
      d = someDigest (binary image imageSize) := fun d h => (Except.ok.inj h).symm
  have hearned := (trust_is_earned (by decide : zeros 33 ∉ [someKey]) hgenuine hzero hcollision
    hstream).1 _ hparse
  exact ⟨rfl, hearned.2.2.2.2, hearned.2.2.1⟩

end Header

end Cosign
