import KeyOS.AppManager.ThirdPartyCerts

/-!
# The certificates in memory are those on disk

An import that fails is undone by a removal and a rewriting, which can fail as well. What the
failed steps leave in the file decides whether the listing is still what a start would load.
-/

namespace AppManager

open ThirdPartyCertificateStore

variable {x : X509} {dir : Dir} {name fingerprint : String} {bytes data : Bytes}
  {cert : ThirdPartyCertificateInfo} {s : ThirdPartyCertificateStore}

/-! ## 1. What is loaded -/

theorem certificateFileName_inj {a b : String} :
    certificateFileName a = certificateFileName b ↔ a = b :=
  String.append_left_inj certificateSuffix

theorem endsWith_certificateFileName : endsWith (certificateFileName fingerprint)
    certificateSuffix = true := by
  unfold endsWith certificateFileName
  rw [List.isSuffixOf_iff_suffix, String.toList_append]
  exact List.suffix_append _ _

theorem loadCertificate_name (h : loadCertificate x name bytes = some cert) :
    name = certificateFileName cert.fingerprint := by
  unfold loadCertificate at h
  split at h
  · cases h
  · split at h
    · cases h
    · split at h
      · cases h
      next hname =>
        cases h
        exact Decidable.not_not.1 hname

/-- What a file with these contents is loaded as. -/
def loadedAs (x : X509) (fingerprint : String) (content : Option Bytes) :
    Option ThirdPartyCertificateInfo :=
  content.bind (loadCertificate x (certificateFileName fingerprint))

theorem get?_loadEntry (certs : SortedMap String ThirdPartyCertificateInfo)
    (entry : String × Bytes) : (loadEntry x certs entry).get? fingerprint =
      if certificateFileName fingerprint = entry.1 then
        (loadedAs x fingerprint (some entry.2)).or (certs.get? fingerprint)
      else certs.get? fingerprint := by
  obtain ⟨n, content⟩ := entry
  unfold loadEntry
  by_cases hn : certificateFileName fingerprint = n
  · subst hn
    rw [if_pos endsWith_certificateFileName, if_pos rfl]
    show _ = (loadCertificate x (certificateFileName fingerprint) content).or _
    cases hload : loadCertificate x (certificateFileName fingerprint) content with
    | none => rfl
    | some cert =>
      have hfp := certificateFileName_inj.1 (loadCertificate_name hload)
      show (certs.insert cert.fingerprint cert).get? fingerprint = some cert
      rw [SortedMap.get?_insert, if_pos hfp]
  · rw [if_neg hn]
    split
    · split
      next cert hload =>
        rw [SortedMap.get?_insert, if_neg]
        rintro rfl
        exact hn (loadCertificate_name hload).symm
      next => rfl
    · rfl

/-- The listing has the certificate of each file that holds one, under its fingerprint. -/
theorem get?_loadCertificates (x : X509) (dir : Dir) (fingerprint : String) :
    (loadCertificates x dir).get? fingerprint =
      loadedAs x fingerprint (dir.get? (certificateFileName fingerprint)) := by
  have hfold : ∀ (l : List (String × Bytes)) (m : SortedMap String ThirdPartyCertificateInfo),
      l.Pairwise (fun a b => a.1 < b.1) → (l.foldl (loadEntry x) m).get? fingerprint =
        (loadedAs x fingerprint (l.lookup (certificateFileName fingerprint))).or
          (m.get? fingerprint) := by
    intro l
    induction l with
    | nil => exact fun m _ => rfl
    | cons e l ih =>
      intro m hsorted
      obtain ⟨hfirst, hrest⟩ := List.pairwise_cons.1 hsorted
      obtain ⟨n, content⟩ := e
      rw [List.foldl_cons, ih _ hrest, get?_loadEntry]
      by_cases hn : certificateFileName fingerprint = n
      · subst hn
        -- no later entry has the name
        have hlater : l.lookup (certificateFileName fingerprint) = none := by
          refine List.lookup_eq_none_iff.2 fun e he => ?_
          simpa using ne_of_lt (hfirst e he)
        rw [hlater, List.lookup_cons_self, if_pos rfl]
        rfl
      · rw [SortedMap.lookup_cons_of_ne hn, if_neg hn]
  rw [loadCertificates, hfold dir.entries .empty dir.sorted, SortedMap.get?_empty, Option.or_none]
  rfl

/-- The certificates in memory are those that the directory would be loaded as. -/
def Agrees (x : X509) (s : ThirdPartyCertificateStore) : Prop :=
  s.certs = loadCertificates x s.dir

theorem agrees_iff : Agrees x s ↔ ∀ fingerprint, s.certs.get? fingerprint =
    loadedAs x fingerprint (s.dir.get? (certificateFileName fingerprint)) := by
  constructor
  · intro h fingerprint
    rw [h, get?_loadCertificates]
  · intro h
    exact SortedMap.ext_get? fun fingerprint =>
      (h fingerprint).trans (get?_loadCertificates x s.dir fingerprint).symm

theorem Agrees.get? (h : Agrees x s) (fingerprint : String) : s.certs.get? fingerprint =
    loadedAs x fingerprint (s.dir.get? (certificateFileName fingerprint)) :=
  agrees_iff.1 h fingerprint

/-- Where one certificate and its file have changed, they decide. -/
theorem agrees_at {s' : ThirdPartyCertificateStore} (h : Agrees x s)
    (hdir : ∀ name, name ≠ certificateFileName fingerprint → s'.dir.get? name = s.dir.get? name)
    (hcerts : ∀ other, other ≠ fingerprint → s'.certs.get? other = s.certs.get? other) :
    Agrees x s' ↔ s'.certs.get? fingerprint =
      loadedAs x fingerprint (s'.dir.get? (certificateFileName fingerprint)) := by
  refine ⟨fun h' => h'.get? fingerprint, fun hat => agrees_iff.2 fun other => ?_⟩
  by_cases heq : other = fingerprint
  · rw [heq, hat]
  · rw [hcerts other heq, hdir _ fun hname => heq (certificateFileName_inj.1 hname), h.get? other]

/-! ## 2. What is written -/

namespace WriteFates

def succeeds (fates : WriteFates) : Bool :=
  fates.opens && fates.failsAfter.isNone && fates.truncates

/-- The contents that the steps leave in a file. -/
def leftBehind (fates : WriteFates) (old : Option Bytes) (data : Bytes) : Option Bytes :=
  if fates.opens then
    match fates.failsAfter with
    | some n => some (data.take n ++ (old.getD []).drop (data.take n).length)
    | none =>
      if fates.truncates then some data else some (data ++ (old.getD []).drop data.length)
  else old

theorem leftBehind_succeeds {fates : WriteFates} {old : Option Bytes} {data : Bytes}
    (h : fates.succeeds = true) : fates.leftBehind old data = some data := by
  obtain ⟨opens, failsAfter, truncates⟩ := fates
  simp only [succeeds, Bool.and_eq_true, Option.isNone_iff_eq_none] at h
  obtain ⟨⟨rfl, rfl⟩, rfl⟩ := h
  rfl

end WriteFates

open WriteFates (leftBehind)

theorem get?_writeFile {ε : Type} (unmodified modified : ε) (fates : WriteFates) (dir : Dir)
    (name other : String) (data : Bytes) :
    (writeFile unmodified modified fates dir name data).2.get? other =
      if other = name then fates.leftBehind (dir.get? name) data else dir.get? other := by
  obtain ⟨opens, failsAfter, truncates⟩ := fates
  cases opens with
  | false =>
    by_cases heq : other = name
    · rw [if_pos heq, heq]
      rfl
    · rw [if_neg heq]
      rfl
  | true =>
    by_cases heq : other = name
    · subst heq
      cases failsAfter with
      | some n =>
        simp [writeFile, overwriteFile, createFile, leftBehind, SortedMap.get?_insert]
      | none =>
        cases truncates with
        | true =>
          simp [writeFile, overwriteFile, createFile, truncateFile, leftBehind,
            SortedMap.get?_insert]
        | false =>
          simp [writeFile, overwriteFile, createFile, leftBehind, SortedMap.get?_insert]
    · rw [if_neg heq]
      cases failsAfter with
      | some n => simp [writeFile, overwriteFile, createFile, SortedMap.get?_insert, heq]
      | none =>
        cases truncates with
        | true =>
          simp [writeFile, overwriteFile, createFile, truncateFile, SortedMap.get?_insert, heq]
        | false => simp [writeFile, overwriteFile, createFile, SortedMap.get?_insert, heq]

theorem writeFile_result {ε : Type} (unmodified modified : ε) (fates : WriteFates) (dir : Dir)
    (name : String) (data : Bytes) :
    (writeFile unmodified modified fates dir name data).1 =
      if fates.succeeds then .ok () else .error (if fates.opens then modified else unmodified) := by
  obtain ⟨opens, failsAfter, truncates⟩ := fates
  cases opens <;> cases failsAfter <;> cases truncates <;> rfl

/-! ## 3. Recovery -/

/-- The previous certificate is written again. -/
def ImportFates.restores (fates : ImportFates) : Bool :=
  fates.restore.succeeds && fates.restoreFlushes

/-- What a recovery leaves in the file, which the failed attempt has left with `content`. -/
def recovered (fates : ImportFates) (content previous : Option Bytes) : Option Bytes :=
  if fates.removes then previous.bind (fates.restore.leftBehind none) else content

/-- Whether a recovery loses the previous certificate. -/
def loses (fates : ImportFates) (previous : Option Bytes) (had : Bool) : Bool :=
  fates.removes && if previous.isSome then !fates.restores else had

theorem recoverFailedCertificateWrite_fst (fates : ImportFates) (dir : Dir) (name : String)
    (previous : Option Bytes) (had : Bool) :
    (recoverFailedCertificateWrite fates dir name previous had).1 = loses fates previous had := by
  unfold recoverFailedCertificateWrite loses
  cases fates.removes with
  | false => rfl
  | true =>
    cases previous with
    | none => rfl
    | some previous =>
      have hresult := writeFile_result () () fates.restore (dir.erase name) name previous
      simp only [writeCertificate, ImportFates.restores, if_true, Option.isSome_some,
        Bool.true_and]
      cases hsucceeds : fates.restore.succeeds with
      | true =>
        rw [hsucceeds, if_pos rfl] at hresult
        split
        next herr => exact absurd (hresult.symm.trans (congrArg Prod.fst herr)) nofun
        next => rfl
      | false =>
        rw [hsucceeds, if_neg Bool.false_ne_true] at hresult
        split
        next => rfl
        next hok => exact absurd (hresult.symm.trans (congrArg Prod.fst hok)) nofun

theorem get?_recoverFailedCertificateWrite (fates : ImportFates) (dir : Dir) (name other : String)
    (previous : Option Bytes) (had : Bool) :
    (recoverFailedCertificateWrite fates dir name previous had).2.get? other =
      if other = name then recovered fates (dir.get? name) previous else dir.get? other := by
  unfold recoverFailedCertificateWrite recovered
  cases fates.removes with
  | false =>
    by_cases heq : other = name
    · rw [if_pos heq, heq]
      rfl
    · rw [if_neg heq]
      rfl
  | true =>
    have hwrite := fun data => get?_writeFile () () fates.restore (dir.erase name) name other data
    simp only [SortedMap.get?_erase, if_true] at hwrite
    cases previous with
    | none => simp only [if_true, SortedMap.get?_erase, Option.bind_none]
    | some previous =>
      have hdir : (writeCertificate fates.restore (dir.erase name) name previous).2.get? other =
          if other = name then fates.restore.leftBehind none previous else dir.get? other := by
        rw [writeCertificate, hwrite]
        split <;> rfl
      simp only [if_true, Option.bind_some]
      rw [← hdir]
      split
      next dir' herr => rw [herr]
      next dir' hok => rw [hok]

/-! ## 4. Storing -/

/-- The contents of the file after the candidate is written, or not. -/
def candidateLeft (fates : ImportFates) (dir : Dir) (fingerprint : String) (der : Bytes) :
    Option Bytes :=
  fates.candidate.leftBehind (dir.get? (certificateFileName fingerprint)) der

/-- The file of the fingerprint has changed, and no other. -/
def FileBecomes (dir dir' : Dir) (fingerprint : String) (content : Option Bytes) : Prop :=
  ∀ other, dir'.get? other =
    if other = certificateFileName fingerprint then content else dir.get? other

/-- A candidate is kept when it is written and flushed. -/
def ImportFates.stores (fates : ImportFates) : Bool :=
  fates.candidate.succeeds && fates.flushes

theorem storeCertificate_cases {der : Bytes} (hder : certificateDer x bytes = some der)
    (fates : ImportFates) (dir : Dir) (fingerprint : String) (previous : Option Bytes)
    (had : Bool) :
    (fates.candidate.opens = false ∧
      storeCertificate x fates dir fingerprint bytes previous had = (.error false, dir)) ∨
    (fates.stores = true ∧ ∃ dir', FileBecomes dir dir' fingerprint (some der) ∧
      storeCertificate x fates dir fingerprint bytes previous had = (.ok (), dir')) ∨
    (fates.candidate.opens = true ∧ fates.stores = false ∧ ∃ dir',
      FileBecomes dir dir' fingerprint
        (recovered fates (candidateLeft fates dir fingerprint der) previous) ∧
      storeCertificate x fates dir fingerprint bytes previous had =
        (.error (loses fates previous had), dir')) := by
  unfold storeCertificate
  rw [hder]
  dsimp only
  have hresult := writeFile_result CandidateWriteError.unmodified .modified fates.candidate dir
    (certificateFileName fingerprint) der
  have hdir : FileBecomes dir _ fingerprint (candidateLeft fates dir fingerprint der) := fun other =>
    get?_writeFile CandidateWriteError.unmodified .modified fates.candidate dir
      (certificateFileName fingerprint) other der
  have hundo : ∀ written, FileBecomes dir written fingerprint
      (candidateLeft fates dir fingerprint der) → FileBecomes dir
        (recoverFailedCertificateWrite fates written (certificateFileName fingerprint) previous
          had).2 fingerprint
        (recovered fates (candidateLeft fates dir fingerprint der) previous) := by
    intro written hwritten other
    rw [get?_recoverFailedCertificateWrite, hwritten, if_pos rfl, hwritten]
    split <;> rfl
  cases hopens : fates.candidate.opens with
  | false =>
    refine .inl ⟨rfl, ?_⟩
    rw [writeCandidateCertificate, writeFile, hopens]
    rfl
  | true =>
    refine .inr ?_
    rw [hopens, if_pos rfl] at hresult
    rw [writeCandidateCertificate]
    generalize writeFile CandidateWriteError.unmodified .modified fates.candidate dir
      (certificateFileName fingerprint) der = written at hresult hdir ⊢
    obtain ⟨result, dir'⟩ := written
    unfold ImportFates.stores
    cases hsucceeds : fates.candidate.succeeds with
    | false =>
      rw [hsucceeds, if_neg Bool.false_ne_true] at hresult
      cases hresult
      refine .inr ⟨rfl, rfl, _, hundo dir' hdir, ?_⟩
      rw [← recoverFailedCertificateWrite_fst fates dir' (certificateFileName fingerprint)]
    | true =>
      rw [hsucceeds, if_pos rfl] at hresult
      cases hresult
      cases hflushes : fates.flushes with
      | true =>
        refine .inl ⟨rfl, dir', ?_, rfl⟩
        have hleft := @WriteFates.leftBehind_succeeds _
          (dir.get? (certificateFileName fingerprint)) der hsucceeds
        rw [candidateLeft, hleft] at hdir
        exact hdir
      | false =>
        refine .inr ⟨rfl, rfl, _, hundo dir' hdir, ?_⟩
        rw [← recoverFailedCertificateWrite_fst fates dir' (certificateFileName fingerprint)]
        rfl

/-! ## 5. Imports -/

/-- What a recovery must leave in the file: when the candidate cannot be removed, contents that are
loaded as what is listed; when the previous certificate cannot be restored, contents that are not
loaded. -/
def Undone (x : X509) (s : ThirdPartyCertificateStore) (fates : ImportFates) (fingerprint : String)
    (der : Bytes) : Prop :=
  if fates.removes then
    ∀ previous, s.readPrevious fates fingerprint = some previous → fates.restores = false →
      loadedAs x fingerprint (fates.restore.leftBehind none previous) = none
  else
    loadedAs x fingerprint (candidateLeft fates s.dir fingerprint der) = s.certs.get? fingerprint

/-- The condition on a call. -/
def Careful (x : X509) (s : ThirdPartyCertificateStore) : Call → Prop
  | .importCertificate now fates bytes expected =>
    ∀ cert der, preview x now bytes = .ok cert → cert.fingerprint = expected →
      certificateDer x bytes = some der → fates.candidate.opens = true → fates.stores = false →
        Undone x s fates cert.fingerprint der
  | .remove _ _ => True

theorem parse_of_preview {now : Nat} (h : preview x now bytes = .ok cert) :
    parseThirdPartyCertificate x bytes = some cert := by
  unfold preview at h
  split at h
  · cases h
  next parsed hparse =>
    split at h
    · cases h
    · split at h
      · cases h
      · cases h
        exact hparse

/-- The certificate that is stored is loaded as the one that was shown. -/
theorem loadedAs_stored (hx : x.Lawful) {der : Bytes}
    (hparse : parseThirdPartyCertificate x bytes = some cert)
    (hder : certificateDer x bytes = some der) :
    loadedAs x cert.fingerprint (some der) = some cert := by
  unfold parseThirdPartyCertificate at hparse
  split at hparse
  · cases hparse
  next hlen =>
    obtain ⟨c, hdecode, hinfo⟩ := Option.bind_eq_some_iff.1 hparse
    unfold certificateDer at hder
    rw [hdecode] at hder
    obtain ⟨hsame, hshort⟩ := hx bytes c der hdecode hder
    have hfits : ¬ maxCertificateBytes < der.length := fun hlong =>
      hlen (Nat.lt_of_lt_of_le hlong hshort)
    show loadCertificate x (certificateFileName cert.fingerprint) der = some cert
    unfold loadCertificate parseThirdPartyCertificate
    rw [if_neg hfits, if_neg hfits, hsame, Option.bind_some, hinfo]
    exact if_neg (not_not.2 rfl)

theorem readPrevious_some {fates : ImportFates} {previous : Bytes}
    (h : s.readPrevious fates fingerprint = some previous) :
    (s.certs.get? fingerprint).isSome = true ∧
      s.dir.get? (certificateFileName fingerprint) = some previous := by
  unfold readPrevious at h
  split at h
  next hread => exact ⟨(Bool.and_eq_true_iff.1 hread).1, h⟩
  next => cases h

/-- Only a certificate that was listed is lost. -/
theorem listed_of_loses {fates : ImportFates}
    (h : loses fates (s.readPrevious fates fingerprint) (s.certs.get? fingerprint).isSome = true) :
    (s.certs.get? fingerprint).isSome = true := by
  unfold loses at h
  cases hprevious : s.readPrevious fates fingerprint with
  | none =>
    rw [hprevious] at h
    exact (Bool.and_eq_true_iff.1 h).2
  | some previous => exact (readPrevious_some hprevious).1

/-- The listing after an import that was undone. -/
theorem agrees_undone (h : Agrees x s) (fates : ImportFates) {dir' : Dir} {der : Bytes}
    (hdir : FileBecomes s.dir dir' fingerprint (recovered fates
      (candidateLeft fates s.dir fingerprint der) (s.readPrevious fates fingerprint))) :
    Agrees x ⟨dir',
      if loses fates (s.readPrevious fates fingerprint) (s.certs.get? fingerprint).isSome
      then s.certs.erase fingerprint else s.certs⟩ ↔ Undone x s fates fingerprint der := by
  rw [@agrees_at _ fingerprint _ _ h (fun other hne => ?_) (fun other hne => ?_)]
  · show (if _ then _ else _ : SortedMap _ _).get? fingerprint = loadedAs x fingerprint (dir'.get? _) ↔ _
    rw [hdir, if_pos rfl]
    unfold recovered loses Undone
    cases fates.removes with
    | false =>
      simp only [Bool.false_and, Bool.false_eq_true, if_false]
      exact eq_comm
    | true =>
      cases hprevious : s.readPrevious fates fingerprint with
      | none =>
        cases hget : s.certs.get? fingerprint with
        | none => simp [hget, loadedAs]
        | some cert => simp [SortedMap.get?_erase, loadedAs]
      | some previous =>
        obtain ⟨-, hfile⟩ := readPrevious_some hprevious
        cases hrestores : fates.restores with
        | false => simp [SortedMap.get?_erase, eq_comm]
        | true =>
          have hsucceeds : fates.restore.succeeds = true := (Bool.and_eq_true_iff.1 hrestores).1
          simp [WriteFates.leftBehind_succeeds hsucceeds, h.get? fingerprint, hfile]
  · rw [hdir, if_neg hne]
  · show (if _ then _ else _ : SortedMap _ _).get? other = _
    split
    · rw [SortedMap.get?_erase, if_neg hne]
    · rfl

theorem agrees_import (hx : x.Lawful) (h : Agrees x s) (now : Nat) (fates : ImportFates)
    (bytes : Bytes) (expected : String) :
    Agrees x (s.importCertificate x now fates bytes expected).2 ↔
      Careful x s (.importCertificate now fates bytes expected) := by
  unfold importCertificate Careful
  cases hpreview : preview x now bytes with
  | error e => exact iff_of_true h fun cert der hok => nomatch hpreview.symm.trans hok
  | ok cert =>
    dsimp only
    by_cases hfp : cert.fingerprint = expected
    · subst hfp
      rw [if_neg (not_not.2 rfl)]
      cases hder : certificateDer x bytes with
      | none =>
        rw [storeCertificate, hder]
        exact iff_of_true h fun _ _ _ _ hsome => nomatch hsome
      | some der =>
        rcases storeCertificate_cases hder fates s.dir cert.fingerprint
          (s.readPrevious fates cert.fingerprint) (s.certs.get? cert.fingerprint).isSome with
          ⟨hopens, hstore⟩ | ⟨hstores, dir', hdir, hstore⟩ | ⟨hopens, hstores, dir', hdir, hstore⟩
        · rw [hstore]
          refine iff_of_true h fun _ _ _ _ _ hopened => ?_
          exact absurd (hopens.symm.trans hopened) Bool.false_ne_true
        · rw [hstore]
          refine iff_of_true ?_ fun _ _ _ _ _ _ hfails => ?_
          · refine (@agrees_at _ cert.fingerprint _ _ h (fun other hne => ?_)
              fun other hne => ?_).2 ?_
            · rw [hdir, if_neg hne]
            · rw [SortedMap.get?_insert, if_neg hne]
            · rw [SortedMap.get?_insert, if_pos rfl, hdir, if_pos rfl,
                loadedAs_stored hx (parse_of_preview hpreview) hder]
          · exact absurd (hstores.symm.trans hfails) nofun
        · rw [hstore]
          refine (agrees_undone h fates hdir).trans ⟨fun hundone cert' der' hcert _ hder' _ _ => ?_,
            fun hcareful => hcareful cert der hpreview rfl rfl hopens hstores⟩
          obtain rfl := Except.ok.inj (hpreview.symm.trans hcert)
          obtain rfl := Option.some.inj hder'
          exact hundone
    · rw [if_pos hfp]
      refine iff_of_true h fun cert' der hcert hsame => ?_
      obtain rfl := Except.ok.inj (hpreview.symm.trans hcert)
      exact absurd hsame hfp

theorem agrees_remove (h : Agrees x s) (removes : Bool) (fingerprint : String) :
    Agrees x (s.remove removes fingerprint).2 := by
  unfold remove
  split
  · exact h
  · split
    · refine (@agrees_at _ fingerprint _ _ h (fun other hne => ?_)
        fun other hne => ?_).2 ?_
      · rw [SortedMap.get?_erase, if_neg hne]
      · rw [SortedMap.get?_erase, if_neg hne]
      · rw [SortedMap.get?_erase, if_pos rfl, SortedMap.get?_erase, if_pos rfl]
        rfl
    · exact h

/-! ## 6. Runs -/

/-- What a call says about the listing when it fails. -/
def Honest (x : X509) (s : ThirdPartyCertificateStore) : Call → Prop
  | .importCertificate now fates bytes expected =>
    ∀ e, (s.importCertificate x now fates bytes expected).1 = .error e →
      if e.publisherSetChanged then
        (s.certs.get? expected).isSome = true ∧
          (s.importCertificate x now fates bytes expected).2.certs = s.certs.erase expected
      else (s.importCertificate x now fates bytes expected).2.certs = s.certs
  | .remove removes fingerprint =>
    ∀ e, (s.remove removes fingerprint).1 = .error e →
      (s.remove removes fingerprint).2 = s ∧ ∃ cert, s.certs.get? fingerprint = some cert ∧
        (loadCertificates x s.dir).get? fingerprint = some cert

theorem honest_import (now : Nat) (fates : ImportFates) (bytes : Bytes) (expected : String) :
    Honest x s (.importCertificate now fates bytes expected) := by
  unfold Honest importCertificate
  intro e
  split
  · intro herr
    cases herr
    rfl
  next cert hpreview =>
    split
    · intro herr
      cases herr
      rfl
    next hfp =>
      obtain rfl : cert.fingerprint = expected := Decidable.not_not.1 hfp
      split
      next lost dir' hstore =>
        intro herr
        cases herr
        have hlisted : lost = true → (s.certs.get? cert.fingerprint).isSome = true := by
          intro hlost
          subst hlost
          cases hder : certificateDer x bytes with
          | none =>
            rw [storeCertificate, hder] at hstore
            cases hstore
          | some der =>
            rcases storeCertificate_cases hder fates s.dir cert.fingerprint
              (s.readPrevious fates cert.fingerprint) (s.certs.get? cert.fingerprint).isSome with
              ⟨-, heq⟩ | ⟨-, _, -, heq⟩ | ⟨-, -, _, -, heq⟩
            · cases hstore.symm.trans heq
            · cases hstore.symm.trans heq
            · have hloses := Except.error.inj (congrArg Prod.fst (hstore.symm.trans heq))
              exact listed_of_loses hloses.symm
        cases lost with
        | false => rfl
        | true => simp [hlisted rfl]
      next => intro h; cases h

theorem honest_remove (h : Agrees x s) (removes : Bool) (fingerprint : String) :
    Honest x s (.remove removes fingerprint) := by
  unfold Honest remove
  intro e
  split
  · intro h
    cases h
  next hlisted =>
    split
    · intro h
      cases h
    · intro _
      cases hget : s.certs.get? fingerprint with
      | none => exact absurd (by rw [hget]; rfl) hlisted
      | some cert => exact ⟨rfl, cert, rfl, h ▸ hget⟩

/-- Every call is careful in the state that it finds. -/
def CarefulRun (x : X509) (s : ThirdPartyCertificateStore) : List Call → Prop
  | [] => True
  | call :: calls => Careful x s call ∧ CarefulRun x (s.step x call) calls

theorem agrees_step (hx : x.Lawful) (h : Agrees x s) (call : Call) :
    Agrees x (s.step x call) ↔ Careful x s call := by
  cases call with
  | importCertificate now fates bytes expected => exact agrees_import hx h now fates bytes expected
  | remove removes fingerprint => exact iff_of_true (agrees_remove h removes fingerprint) trivial

theorem agrees_run (hx : x.Lawful) (h : Agrees x s) (calls : List Call)
    (hcareful : CarefulRun x s calls) : Agrees x (s.run x calls) := by
  induction calls generalizing s with
  | nil => exact h
  | cons call calls ih => exact ih ((agrees_step hx h call).2 hcareful.1) hcareful.2

/-- After careful calls the listing is what a start would load, and the next call keeps it so
exactly when it is careful. A call that fails says what has become of the listing. -/
theorem publisher_store_agrees (hx : x.Lawful) (dir : Dir) (calls : List Call)
    (hcareful : CarefulRun x (load x dir) calls) :
    Agrees x ((load x dir).run x calls) ∧
      ∀ call, Honest x ((load x dir).run x calls) call ∧
        (Agrees x (((load x dir).run x calls).step x call) ↔
          Careful x ((load x dir).run x calls) call) := by
  have hagrees := agrees_run hx (s := load x dir) rfl calls hcareful
  refine ⟨hagrees, fun call => ⟨?_, agrees_step hx hagrees call⟩⟩
  cases call with
  | importCertificate now fates bytes expected => exact honest_import now fates bytes expected
  | remove removes fingerprint => exact honest_remove hagrees removes fingerprint

def exampleCertificate (serialNumber : String) : Certificate where
  version := .v3
  serialNumber := serialNumber
  issuer := "CN=Publisher,O=Company"
  notBefore := 0
  notAfter := 100
  subject := "CN=Publisher,O=Company"
  subjectAttributes := [(commonName, some "Publisher"), (organizationName, some "Company")]
  algorithm := idEcPublicKey
  curve := some secp256k1
  subjectPublicKey := some [2, 7]
  extensions := []
  subjectAltName := some none
  basicConstraints := some (some false)
  keyUsage := some (some ["Digital Signature"])
  extendedKeyUsage := some (some [idKpCodeSigning])

/-- A certificate and its renewal. -/
def exampleX509 : X509 where
  decode bytes :=
    if bytes = [48, 1] then some (exampleCertificate "1")
    else if bytes = [48, 2, 2] then some (exampleCertificate "2")
    else none
  toDer c := if c.serialNumber = "1" then some [48, 1] else some [48, 2, 2]
  compressedPublicKey key := some key
  publisherFingerprints _ := some ("0f715baf", "0f71…5baf")

theorem exampleX509_lawful : exampleX509.Lawful := by
  intro bytes c der hdecode hder
  simp only [exampleX509] at hdecode
  split at hdecode
  next heq =>
    subst heq
    cases hdecode
    cases hder
    exact ⟨rfl, Nat.le_refl _⟩
  next =>
    split at hdecode
    next heq =>
      subst heq
      cases hdecode
      cases hder
      exact ⟨rfl, Nat.le_refl _⟩
    next => cases hdecode

def allDone : WriteFates := ⟨true, none, true⟩

/-- A write that fails after the first byte. -/
def tornWrite : WriteFates := ⟨true, some 1, true⟩

/-- A certificate is imported, and a renewal that fails is undone. -/
def renewalUndone : List Call :=
  [.importCertificate 50 ⟨true, allDone, true, true, allDone, true⟩ [48, 1] "0f715baf",
    .importCertificate 50 ⟨true, tornWrite, true, true, allDone, true⟩ [48, 2, 2] "0f715baf"]

theorem publisher_store_agrees_undone :
    Agrees exampleX509 ((load exampleX509 .empty).run exampleX509 renewalUndone) := by
  refine (publisher_store_agrees exampleX509_lawful .empty renewalUndone ⟨?_, ?_, trivial⟩).1
  · intro _ _ _ _ _ _ hfails
    cases hfails
  · intro _ _ _ _ _ _ _ previous _ hfails
    cases hfails

/-- The removal fails after the candidate is written and its flush has failed; and the previous
certificate is written again, but its flush fails. -/
theorem listing_differs :
    ¬ Agrees exampleX509 ((load exampleX509 .empty).run exampleX509
      [.importCertificate 50 ⟨true, allDone, false, false, allDone, true⟩ [48, 1] "0f715baf"]) ∧
    ¬ Agrees exampleX509 ((load exampleX509 .empty).run exampleX509
      [.importCertificate 50 ⟨true, allDone, true, true, allDone, true⟩ [48, 1] "0f715baf",
        .importCertificate 50 ⟨true, tornWrite, true, true, allDone, false⟩ [48, 2, 2]
          "0f715baf"]) := by
  constructor
  · intro h
    have hget := h.get? "0f715baf"
    exact absurd hget (by decide)
  · intro h
    have hget := h.get? "0f715baf"
    exact absurd hget (by decide)

end AppManager
