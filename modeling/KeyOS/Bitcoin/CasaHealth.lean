import KeyOS.Lib.Decimal
import KeyOS.Lib.Exec

/-!
# Casa health checks

A challenge is a message and the path of the key that is to sign it. The path may be spelled in
several ways, and only the master key and those of Casa accounts ever sign.
-/

namespace Bitcoin.CasaHealth

open Decimal Exec

/-! ## 1. Challenges -/

def MAX_PATH_DEPTH : Nat := 12

def MAX_MESSAGE_LENGTH : Nat := 240

inductive AddressType where
  | classic
  | p2sh
  | p2wpkh
  | p2wpkhP2sh
  | p2wsh
  | p2wshP2sh
  | p2tr
  deriving DecidableEq, Repr

inductive Error where
  | invalidUtf8
  | invalidLineCount
  | invalidMessage
  | invalidPath
  | pathNotAllowed
  | pathTooDeep
  | unsupportedAddressType
  | keyDerivation
  | addressDerivation
  | messageDigest
  deriving DecidableEq, Repr

inductive ChildNumber where
  | normal (index : Nat)
  | hardened (index : Nat)
  deriving DecidableEq, Repr

abbrev DerivationPath := List ChildNumber

inductive NetworkKind where
  | main
  | test
  deriving DecidableEq, Repr

def apostrophe : Char := Char.ofNat 39

namespace ChildNumber

def index : ChildNumber → Nat
  | normal index | hardened index => index

def display : ChildNumber → List Char
  | normal index => Nat.toDigits 10 index
  | hardened index => Nat.toDigits 10 index ++ [apostrophe]

end ChildNumber

/-- The canonical spelling of a path -/
def display (path : DerivationPath) : List Char :=
  if path = [] then ['m'] else 'm' :: '/' :: ['/'].intercalate (path.map ChildNumber.display)

/-- The libraries that read a path, derive a key from it and sign. The parser reads a path that is
spelled canonically. -/
structure Wallet where
  Key : Type
  /-- `str::to_uppercase` -/
  toUppercase : List Char → List Char
  fromStr : List Char → Option DerivationPath
  derivePriv : DerivationPath → Option Key
  compressed : Key → Bool
  address : AddressType → Key → List Char
  signature : Key → List Char → Option (List Char)
  fromStr_display : ∀ path : DerivationPath, (∀ child ∈ path, child.index < 2 ^ 31) →
    fromStr (display path) = some path

variable (W : Wallet)

def AddressType.names : List (List Char × AddressType) :=
  [("AF_CLASSIC".toList, classic), ("AF_P2SH".toList, p2sh), ("AF_P2WPKH".toList, p2wpkh),
    ("AF_P2WPKH_P2SH".toList, p2wpkhP2sh), ("AF_P2WSH".toList, p2wsh),
    ("AF_P2WSH_P2SH".toList, p2wshP2sh), ("AF_P2TR".toList, p2tr)]

def AddressType.fromCore (value : List Char) : Except Error AddressType :=
  let normalized := (W.toUppercase value).map fun c => if c = ' ' then '_' else c
  if value = [] then .ok .classic
  else
    let normalized := if "AF_".toList.isPrefixOf normalized then normalized
      else "AF_".toList ++ normalized
    match names.lookup normalized with
    | some type => .ok type
    | none => .error .unsupportedAddressType

/-- No line is `Classic`. -/
def AddressType.ofLine (line : Option (List Char)) : Except Error AddressType :=
  match line with
  | some value => fromCore W value
  | none => .ok .classic

/-- The loop of `validate_message`, after some spaces -/
def scanMessage : Nat → List UInt8 → Except Error Unit
  | _, [] => .ok ()
  | spaces, byte :: bytes =>
    if ¬ (32 ≤ byte ∧ byte ≤ 126) then .error .invalidMessage
    else if 4 ≤ (if byte = 32 then spaces + 1 else 0) then .error .invalidMessage
    else scanMessage (if byte = 32 then spaces + 1 else 0) bytes

def bytesOf (message : List Char) : List UInt8 := message.flatMap String.utf8EncodeChar

def validateMessage (message : List Char) : Except Error Unit :=
  if bytesOf message = [] ∨ MAX_MESSAGE_LENGTH < (bytesOf message).length ∨
      message.head? = some ' ' ∨ message.getLast? = some ' ' then .error .invalidMessage
  else scanMessage 0 (bytesOf message)

/-- Lower case, with one sign of hardening -/
def unified (path : List Char) : List Char :=
  (path.map Char.toLower).map fun c => if c = 'h' ∨ c = 'p' then apostrophe else c

/-- `strip_suffix`, where there is one -/
def number (component : List Char) : List Char :=
  if component.getLast? = some apostrophe then component.dropLast else component

/-- A decimal number without leading zeros, below the hardened ones -/
def validNumber (number : List Char) : Bool :=
  decide (number ≠ []) && number.all Char.isDigit && decide (value number < 2 ^ 31) &&
    decide (number = Nat.toDigits 10 (value number))

def validComponent (component : List Char) : Bool := validNumber (number component)

def normalizePath (path : List Char) : Except Error (List Char) :=
  if unified path = [] ∨ unified path = ['m', '/'] then .ok ['m']
  else match unified path with
    | ['m'] => .ok ['m']
    | 'm' :: '/' :: rest =>
      if MAX_PATH_DEPTH < (rest.splitOn '/').length then .error .pathTooDeep
      else if (rest.splitOn '/').all validComponent then .ok (unified path)
      else .error .invalidPath
    | _ => .error .invalidPath

def lines (text : List Char) : List (List Char) :=
  let lines := (text.splitOn '\n').map (List.rdropWhile (· = '\r'))
  if lines.length = 4 ∧ lines.getLast? = some [] then lines.dropLast else lines

structure Challenge where
  message : List Char
  path : DerivationPath
  addressType : AddressType

def parse (input : ByteArray) : Except Error Challenge :=
  match String.fromUTF8? input with
  | none => .error .invalidUtf8
  | some text => match lines text.toList with
    | message :: line :: rest =>
      if 1 < rest.length then .error .invalidLineCount
      else do
        validateMessage message
        let normalizedPath ← normalizePath line
        match W.fromStr normalizedPath with
        | some path => do
          let addressType ← AddressType.ofLine W rest.head?
          .ok ⟨message, path, addressType⟩
        | none => .error .invalidPath
    | _ => .error .invalidLineCount

def NetworkKind.coinType : NetworkKind → Nat
  | main => 0
  | test => 1

def isCasaLegacyDerivation (derivation : DerivationPath) (network : NetworkKind) : Bool :=
  match derivation with
  | [.normal 49, .normal index, .normal _] => decide (index = network.coinType)
  | _ => false

def isCasaAccountDerivation (derivation : DerivationPath) (network : NetworkKind) : Bool :=
  isCasaLegacyDerivation derivation network || match derivation with
    | [.hardened 45, .normal index, .normal _] => decide (index = network.coinType)
    | _ => false

def validatePath (path : DerivationPath) : Except Error Unit :=
  if path = [] then .ok ()
  else if ¬ (3 ≤ path.length ∧ path.length ≤ 5) then .error .pathNotAllowed
  else if ¬ [NetworkKind.main, .test].any (isCasaAccountDerivation (path.take 3)) then
    .error .pathNotAllowed
  else if (path.drop 3).all (fun child => match child with | .normal _ => true | _ => false) &&
      (path.drop 3).head?.all fun child =>
        match child with | .normal index => decide (index ≤ 1) | _ => false then .ok ()
  else .error .pathNotAllowed

def envelope (message address signature : List Char) : List Char :=
  "-----BEGIN BITCOIN SIGNED MESSAGE-----\n".toList ++ (message ++
    "\n-----BEGIN SIGNATURE-----\n".toList ++ (address ++ '\n' :: (signature ++
      "\n-----END BITCOIN SIGNED MESSAGE-----\n".toList)))

def sign (input : ByteArray) : Except Error (List Char) := do
  let challenge ← parse W input
  validatePath challenge.path
  match W.derivePriv challenge.path with
  | none => .error .keyDerivation
  | some key =>
    if W.compressed key = false then .error .addressDerivation
    else if challenge.addressType ∈ [.p2sh, .p2wsh, .p2wshP2sh] then
      .error .unsupportedAddressType
    else match W.signature key challenge.message with
      | some signature =>
        .ok (envelope challenge.message (W.address challenge.addressType key) signature)
      | none => .error .messageDigest

/-! ## 2. Messages -/

/-- Printable, and without the spaces that would not be seen -/
structure Printable (message : List Char) : Prop where
  nonempty : bytesOf message ≠ []
  length_le : (bytesOf message).length ≤ MAX_MESSAGE_LENGTH
  head : message.head? ≠ some ' '
  last : message.getLast? ≠ some ' '
  bytes : ∀ byte ∈ bytesOf message, 32 ≤ byte ∧ byte ≤ 126
  spaces : ¬ [32, 32, 32, 32] <:+: bytesOf message

theorem scanMessage_ok {spaces : Nat} (hspaces : spaces < 4) {bytes : List UInt8} :
    scanMessage spaces bytes = .ok () ↔ (∀ byte ∈ bytes, 32 ≤ byte ∧ byte ≤ 126) ∧
      ¬ [32, 32, 32, 32] <:+: List.replicate spaces 32 ++ bytes := by
  induction bytes generalizing spaces with
  | nil =>
    refine iff_of_true rfl ⟨fun _ h => absurd h List.not_mem_nil, fun h => ?_⟩
    have := h.length_le
    simp at this
    omega
  | cons byte bytes ih =>
    unfold scanMessage
    by_cases hin : 32 ≤ byte ∧ byte ≤ 126
    · rw [if_neg (not_not.2 hin), List.forall_mem_cons, and_iff_right hin]
      by_cases hspace : byte = 32
      · subst hspace
        have hmove : List.replicate spaces (32 : UInt8) ++ 32 :: bytes =
            List.replicate (spaces + 1) 32 ++ bytes := by
          rw [List.replicate_succ', List.append_assoc, List.singleton_append]
        rw [if_pos rfl, hmove]
        split
        · next hfour =>
          obtain rfl : spaces = 3 := by omega
          refine iff_of_false (fun h => (by cases h)) fun h => h.2 ?_
          exact (List.prefix_append _ bytes).isInfix
        · next hfour => exact ih (Nat.not_le.1 hfour)
      · rw [if_neg hspace, if_neg (by decide), ih (by decide)]
        have hne : (32 : UInt8) ≠ byte := Ne.symm hspace
        have hskip : [32, 32, 32, 32] <:+: List.replicate spaces 32 ++ byte :: bytes ↔
            [32, 32, 32, 32] <:+: bytes := by
          interval_cases spaces <;> simp [List.infix_cons_iff, List.replicate_succ, hne]
        rw [hskip]
        rfl
    · rw [if_pos hin]
      exact iff_of_false (fun h => (by cases h)) fun h => hin (h.1 byte List.mem_cons_self)

theorem validateMessage_ok {message : List Char} :
    validateMessage message = .ok () ↔ Printable message := by
  unfold validateMessage
  split
  · next hbad =>
    refine iff_of_false (fun h => (by cases h)) fun h => ?_
    rcases hbad with hbad | hbad | hbad | hbad
    · exact h.nonempty hbad
    · exact absurd h.length_le (Nat.not_le.2 hbad)
    · exact h.head hbad
    · exact h.last hbad
  · next hgood =>
    obtain ⟨hnonempty, hlength, hhead, hlast⟩ := by simpa only [not_or] using hgood
    rw [scanMessage_ok (by decide)]
    exact ⟨fun h => ⟨hnonempty, Nat.not_lt.1 hlength, hhead, hlast, h.1, h.2⟩,
      fun h => ⟨h.bytes, h.spaces⟩⟩

/-! ## 3. Paths -/

section Paths

variable {line : List Char} {path : DerivationPath} {child : ChildNumber}

/-- What a line says, in any spelling that is accepted -/
structure Denotes (line : List Char) (path : DerivationPath) : Prop where
  small : ∀ child ∈ path, child.index < 2 ^ 31
  spelled : unified line = display path ∨ path = [] ∧ (unified line = [] ∨ unified line = ['m', '/'])

def decode (component : List Char) : ChildNumber :=
  if component.getLast? = some apostrophe then .hardened (value component.dropLast)
  else .normal (value component)

theorem apostrophe_not_mem (n : Nat) : apostrophe ∉ Nat.toDigits 10 n :=
  (digits_toDigits n).not_mem rfl

theorem display_decode {component : List Char} (h : validComponent component = true) :
    (decode component).display = component ∧ (decode component).index < 2 ^ 31 := by
  unfold validComponent number validNumber at h
  simp only [Bool.and_eq_true, decide_eq_true_iff] at h
  unfold decode
  split
  · next hlast =>
    rw [if_pos hlast] at h
    refine ⟨?_, h.1.2⟩
    rw [ChildNumber.display, ← h.2]
    exact List.dropLast_append_getLast? _ hlast
  · next hlast =>
    rw [if_neg hlast] at h
    exact ⟨h.2.symm, h.1.2⟩

theorem validComponent_display (h : child.index < 2 ^ 31) : validComponent child.display = true := by
  have hnumber : number child.display = Nat.toDigits 10 child.index := by
    unfold number
    cases child with
    | normal n => exact if_neg fun hlast => apostrophe_not_mem n (List.mem_of_getLast? hlast)
    | hardened n => exact (if_pos List.getLast?_concat).trans List.dropLast_concat
  have hall : (Nat.toDigits 10 child.index).all Char.isDigit = true :=
    List.all_eq_true.2 (digits_toDigits _)
  simpa [validComponent, hnumber, validNumber, hall] using h

theorem display_cons (hne : path ≠ []) :
    ∃ rest, rest ≠ [] ∧ display path = 'm' :: '/' :: rest ∧
      rest.splitOn '/' = path.map ChildNumber.display := by
  have hsplit : (['/'].intercalate (path.map ChildNumber.display)).splitOn '/' =
      path.map ChildNumber.display := by
    refine List.splitOn_intercalate '/' (fun l hl => ?_) (by simpa using hne)
    obtain ⟨child, -, rfl⟩ := List.mem_map.1 hl
    cases child with
    | normal n => exact (digits_toDigits n).not_mem rfl
    | hardened n =>
      intro hmem
      rcases List.mem_append.1 hmem with hmem | hmem
      · exact (digits_toDigits n).not_mem rfl hmem
      · exact absurd (List.mem_singleton.1 hmem) (by decide)
  refine ⟨_, fun hnil => ?_, if_neg hne, hsplit⟩
  rw [hnil] at hsplit
  obtain ⟨child, rest, rfl⟩ := List.exists_cons_of_ne_nil hne
  have hempty : child.display = [] := (List.cons.inj hsplit).1.symm
  cases child <;> simp [ChildNumber.display] at hempty

theorem normalizePath_ok {normalized : List Char} :
    normalizePath line = .ok normalized ↔
      ∃ path, Denotes line path ∧ path.length ≤ MAX_PATH_DEPTH ∧ normalized = display path := by
  constructor
  · intro h
    unfold normalizePath at h
    split at h
    · next hline =>
      cases h
      exact ⟨[], ⟨nofun, .inr ⟨rfl, hline⟩⟩, Nat.zero_le _, rfl⟩
    · split at h
      · next hm =>
        cases h
        exact ⟨[], ⟨nofun, .inl hm⟩, Nat.zero_le _, rfl⟩
      · next rest hrest =>
        split at h
        · cases h
        · next hdepth =>
          split at h
          · next hvalid =>
            cases h
            rw [List.all_eq_true] at hvalid
            have hmap : ((rest.splitOn '/').map decode).map ChildNumber.display =
                rest.splitOn '/' := by
              rw [List.map_map]
              exact (List.map_congr_left fun c hc => (display_decode (hvalid c hc)).1).trans
                (List.map_id _)
            have hne : (rest.splitOn '/').map decode ≠ [] := by simp
            have hdisplay : unified line = display ((rest.splitOn '/').map decode) := by
              rw [display, if_neg hne, hmap, List.intercalate_splitOn, hrest]
            refine ⟨_, ⟨fun child hchild => ?_, .inl hdisplay⟩, ?_, hdisplay⟩
            · obtain ⟨c, hc, rfl⟩ := List.mem_map.1 hchild
              exact (display_decode (hvalid c hc)).2
            · rw [List.length_map]
              exact Nat.not_lt.1 hdepth
          · cases h
      · cases h
  · rintro ⟨path, hpath, hdepth, rfl⟩
    rcases hpath.spelled with hspelled | ⟨rfl, hline⟩
    · unfold normalizePath
      rw [hspelled]
      by_cases hne : path = []
      · subst hne
        rfl
      · obtain ⟨rest, hrest, heq, hsplit⟩ := display_cons hne
        have hnot : ¬ ('m' :: '/' :: rest = [] ∨ 'm' :: '/' :: rest = ['m', '/']) := by
          simp [hrest]
        have hvalid : (rest.splitOn '/').all validComponent = true := by
          rw [hsplit, List.all_map]
          exact List.all_eq_true.2 fun child hchild =>
            validComponent_display (hpath.small child hchild)
        have hlength : (rest.splitOn '/').length ≤ MAX_PATH_DEPTH := by
          rwa [hsplit, List.length_map]
        rw [heq, if_neg hnot]
        exact (if_neg (Nat.not_lt.2 hlength)).trans (if_pos hvalid)
    · exact if_pos hline

end Paths

/-! ## 4. Signatures -/

/-- After the account: no more, or the change, or the change and an index -/
def CasaSuffix (suffix : DerivationPath) : Prop :=
  suffix = [] ∨ ∃ change ≤ 1, suffix = [.normal change] ∨
    ∃ index, suffix = [.normal change, .normal index]

/-- The account of a vault -/
def CasaAccount (purpose coin account : ChildNumber) : Prop :=
  (purpose = .normal 49 ∨ purpose = .hardened 45) ∧ (∃ index ≤ 1, coin = .normal index) ∧
    ∃ index, account = .normal index

/-- The master key, and the keys of accounts of vaults -/
inductive CasaPath : DerivationPath → Prop
  | master : CasaPath []
  | account {a b c : ChildNumber} {suffix : DerivationPath} (haccount : CasaAccount a b c)
    (hsuffix : CasaSuffix suffix) : CasaPath (a :: b :: c :: suffix)

theorem CasaPath.length_le {path : DerivationPath} (h : CasaPath path) :
    path.length ≤ MAX_PATH_DEPTH := by
  cases h with
  | master => exact Nat.zero_le _
  | account _ hsuffix =>
    rcases hsuffix with rfl | ⟨_, -, rfl | ⟨_, rfl⟩⟩ <;> simp [MAX_PATH_DEPTH]

theorem isCasaAccountDerivation_iff {a b c : ChildNumber} {network : NetworkKind} :
    isCasaAccountDerivation [a, b, c] network = true ↔ (a = .normal 49 ∨ a = .hardened 45) ∧
      b = .normal network.coinType ∧ ∃ account, c = .normal account := by
  unfold isCasaAccountDerivation isCasaLegacyDerivation
  rcases a with a | a <;> rcases b with b | b <;> rcases c with c | c <;> simp
  all_goals split <;> simp_all

theorem validatePath_ok {path : DerivationPath} : validatePath path = .ok () ↔ CasaPath path := by
  rcases path with _ | ⟨a, _ | ⟨b, _ | ⟨c, suffix⟩⟩⟩
  · exact iff_of_true rfl .master
  · exact iff_of_false (fun h => (by cases h)) fun h => (by cases h)
  · exact iff_of_false (fun h => (by cases h)) fun h => (by cases h)
  · have hcases : CasaPath (a :: b :: c :: suffix) ↔ CasaAccount a b c ∧ CasaSuffix suffix :=
      ⟨fun h => (by cases h; exact ⟨‹_›, ‹_›⟩), fun h => .account h.1 h.2⟩
    have hany : [NetworkKind.main, .test].any (isCasaAccountDerivation [a, b, c]) = true ↔
        CasaAccount a b c := by
      simp [isCasaAccountDerivation_iff, NetworkKind.coinType, CasaAccount,
        Nat.le_one_iff_eq_zero_or_eq_one]
      tauto
    rw [hcases, ← hany]
    unfold validatePath CasaSuffix
    rcases suffix with _ | ⟨d | d, _ | ⟨e | e, _ | ⟨f, suffix⟩⟩⟩ <;> simp
    all_goals grind

variable {input : ByteArray} {out : List Char}

/-- What is signed: the message of the challenge, with the key at the path that its line says -/
structure Signs (input : ByteArray) (message address signature : List Char) : Prop where
  printable : Printable message
  key : ∃ text line rest path type key,
    String.fromUTF8? input = some text ∧ lines text.toList = message :: line :: rest ∧
    rest.length ≤ 1 ∧ Denotes line path ∧ CasaPath path ∧
    AddressType.ofLine W rest.head? = .ok type ∧ type ∉ [.p2sh, .p2wsh, .p2wshP2sh] ∧
    W.derivePriv path = some key ∧ W.compressed key = true ∧ address = W.address type key ∧
    W.signature key message = some signature

theorem parse_ok {challenge : Challenge} : parse W input = .ok challenge ↔
    ∃ text line rest, String.fromUTF8? input = some text ∧
      lines text.toList = challenge.message :: line :: rest ∧ rest.length ≤ 1 ∧
      Printable challenge.message ∧ Denotes line challenge.path ∧
      challenge.path.length ≤ MAX_PATH_DEPTH ∧
      AddressType.ofLine W rest.head? = .ok challenge.addressType := by
  unfold parse
  constructor
  · intro h
    split at h
    · cases h
    · next text htext =>
      split at h
      · next message line rest hlines =>
        split at h
        · cases h
        · next hrest =>
          obtain ⟨⟨⟩, hmessage, h⟩ := bind_eq_ok.1 h
          obtain ⟨normalized, hnormal, h⟩ := bind_eq_ok.1 h
          obtain ⟨path, hdenotes, hdepth, rfl⟩ := normalizePath_ok.1 hnormal
          rw [W.fromStr_display path hdenotes.small] at h
          obtain ⟨type, htype, h⟩ := bind_eq_ok.1 h
          cases h
          exact ⟨text, line, rest, htext, hlines, Nat.not_lt.1 hrest,
            validateMessage_ok.1 hmessage, hdenotes, hdepth, htype⟩
      · cases h
  · rintro ⟨text, line, rest, htext, hlines, hrest, hmessage, hdenotes, hdepth, htype⟩
    have hpath := normalizePath_ok.2 ⟨_, hdenotes, hdepth, rfl⟩
    rw [htext]
    simp only [hlines, if_neg (Nat.not_lt.2 hrest), validateMessage_ok.2 hmessage, hpath]
    refine bind_eq_ok.2 ⟨_, rfl, bind_eq_ok.2 ⟨_, rfl, ?_⟩⟩
    rw [W.fromStr_display _ hdenotes.small, htype]
    rfl

end Bitcoin.CasaHealth
