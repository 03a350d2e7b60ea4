import KeyOS.QuantumLink.Persist

/-!
# The link identity is kept

Of the two partitions at most one holds the value, and it is the one that a start reads first,
unless a file that holds the value is cut short in place, the copy in the system partition is not
wiped, or AppData is not there when it is asked for.
-/

namespace QuantumLink.Persist

variable {T : Type} {P : Persister T}

/-! ## 1. The condition -/

/-- The value that a file holds. -/
def held (P : Persister T) (file : Option Bytes) : Option T := file.bind P.fromBytes

/-- Nothing is left of what the file held. -/
def Scrubbed (file : Option Bytes) : Prop := ∀ content, file = some content → ∀ b ∈ content, b = 0

def WriteFates.Completes (fates : WriteFates) : Prop :=
  fates.writes = none ∧ fates.truncates = none

def WipeFates.Scrubs (fates : WipeFates) : Prop :=
  fates.metadata = none ∧ fates.opens = none ∧ fates.writes = none

/-- What a write that is cut short leaves: a prefix of the new bytes over the old ones. -/
def WriteFates.torn (fates : WriteFates) (file : Option Bytes) (data : Bytes) : Bytes :=
  let written := match fates.writes with
    | some (n, _) => data.take n
    | none => data
  written ++ (file.getD []).drop written.length

/-- A write that is cut short leaves a file that held no value, and holds none, or the new value
where no other copy is left. -/
def CutSafely (P : Persister T) (fates : WriteFates) (file other : Option Bytes) (value : T) :
    Prop :=
  held P file = none ∧ ∀ v, P.fromBytes (fates.torn file (P.toBytes value)) = some v →
    v = value ∧ Scrubbed other

def CarefulToAppData (P : Persister T) (fates : SaveFates) (value : T) (disk : Disk) : Prop :=
  (fates.app.Completes → Scrubbed disk.system ∨ fates.wipe.Scrubs) ∧
    (¬fates.app.Completes → CutSafely P fates.app disk.appData disk.system value)

def CarefulToSystem (P : Persister T) (fates : SaveFates) (value : T) (disk : Disk) : Prop :=
  (fates.systemParent.or fates.system.opens).isSome ∨
    held P disk.appData = none ∧
      (¬fates.system.Completes → CutSafely P fates.system disk.system none value)

def CarefulSave (P : Persister T) (fates : SaveFates) (f : FileBacked T) (disk : Disk) : Prop :=
  match disk.opensAppData fates with
  | some .powerLoss => True
  | none => f.state ≠ .savedToAppdata → CarefulToAppData P fates f.value disk
  | some .fails => f.state = .dirty → CarefulToSystem P fates f.value disk

/-- What a start finds when it can read both partitions. -/
def found (P : Persister T) (generated : T) (disk : Disk) : FileBacked T :=
  match held P disk.appData with
  | some value => ⟨value, .savedToAppdata⟩
  | none =>
    match held P disk.system with
    | some value => ⟨value, .savedToSystem⟩
    | none => ⟨generated, .dirty⟩

/-- A start after which no value is missing: AppData is mounted and read when it holds the value,
the system partition is read when it does, and AppData was not wiped without a save since. -/
structure CarefulStart (P : Persister T) (mounted : Bool) (reads : ReadFates) (w : World T) :
    Prop where
  saved : w.wiped = false
  app : (held P w.disk.appData).isSome → mounted = true ∧ reads.app = true
  system : held P w.disk.appData = none → (held P w.disk.system).isSome → reads.system = true

def CarefulRequest (w : World T) (C : FileBacked T → Prop) : Prop :=
  ∀ f, w.server = some f → C f

def Careful (P : Persister T) (w : World T) : Act T → Prop
  | .start mounted reads generated fates =>
    CarefulStart P mounted reads w ∧
      CarefulSave P fates (found P generated w.disk) { w.disk with mounted := mounted }
  | .guard value fates => CarefulRequest w fun f =>
    CarefulSave P fates (match value with
      | some value => { f with value := value, state := .dirty }
      | none => f) w.disk
  | .markDirty => True
  | .save fates => CarefulRequest w fun f => CarefulSave P fates f w.disk
  | .mount fates => CarefulRequest w fun f =>
    CarefulSave P fates f { w.disk with mounted := true }
  | .onboardingComplete fates => CarefulRequest w fun f =>
    CarefulSave P fates { f with state := .dirty } w.disk
  | .restoreBackup => True

def CarefulRun (P : Persister T) (w : World T) : List (Act T) → Prop
  | [] => True
  | act :: acts => Careful P w act ∧ CarefulRun P (w.step P act) acts

/-! ## 2. The invariant -/

/-- What a start reads, when it can. -/
def stored (P : Persister T) (disk : Disk) : Option T :=
  (held P disk.appData).or (held P disk.system)

/-- The value is that of the last save that returned `Ok`, or of one that came later; a new one
is generated only when there is none. -/
structure Started.Faithful (r : Started T) : Prop where
  kept : ∀ u, r.lastOk = some u → r.value = u ∨ r.value ∈ r.later
  fresh : r.generated = true → r.lastOk = none
  old : r.lastOk = none → r.generated = true ∨ r.value ∈ r.later

/-- What the server believes of its file. -/
def Believed (P : Persister T) (w : World T) (f : FileBacked T) : Prop :=
  match f.state with
  | .dirty => True
  | .savedToSystem => held P w.disk.appData = none ∧ held P w.disk.system = some f.value
  | .savedToAppdata => w.wiped = true ∨ held P w.disk.appData = some f.value

structure Inv (P : Persister T) (w : World T) : Prop where
  single : (held P w.disk.appData).isSome → Scrubbed w.disk.system
  kept : ∀ u, w.lastOk = some u → w.wiped = false →
    ∃ v, stored P w.disk = some v ∧ (v = u ∨ v ∈ w.later)
  fresh : w.lastOk = none → ∀ v, stored P w.disk = some v → v ∈ w.later
  server : ∀ f, w.server = some f → Believed P w f
  starts : ∀ r ∈ w.starts, r.Faithful

theorem Scrubbed.held (hP : P.Lawful) {file : Option Bytes} (h : Scrubbed file) :
    held P file = none := by
  cases file with
  | none => rfl
  | some content =>
    have hzero : content = List.replicate content.length 0 :=
      List.eq_replicate_iff.2 ⟨rfl, h content rfl⟩
    show P.fromBytes content = none
    rw [hzero]
    exact hP.zeroes _

theorem scrubbed_none : Scrubbed none := nofun

/-- What is left of a file in the system partition after it was wiped. -/
theorem wipeFileInSystem_scrubbed {fates : WipeFates} {system : Option Bytes}
    (h : Scrubbed system ∨ fates.Scrubs) : Scrubbed (wipeFileInSystem fates system).2 := by
  have hzeroes : ∀ n, ∀ b ∈ List.replicate n (0 : UInt8), b = 0 :=
    fun n b hb => List.eq_of_mem_replicate hb
  cases system with
  | none =>
    unfold wipeFileInSystem
    dsimp only
    split <;> exact scrubbed_none
  | some content =>
    unfold wipeFileInSystem
    dsimp only
    rcases h with hold | ⟨hmetadata, hopens, hwrites⟩
    · split
      · exact hold
      · exact hold
      · split
        · exact hold
        · split
          · rintro _ ⟨⟩ b hb
            rcases List.mem_append.1 hb with hzero | hrest
            · exact hzeroes _ b (List.mem_of_mem_take hzero)
            · exact hold content rfl b (List.mem_of_mem_drop hrest)
          · split
            · rintro _ ⟨⟩
              exact hzeroes _
            · rintro _ ⟨⟩
              exact hzeroes _
            · exact scrubbed_none
    · rw [hmetadata, hopens, hwrites]
      dsimp only
      split
      · rintro _ ⟨⟩
        exact hzeroes _
      · rintro _ ⟨⟩
        exact hzeroes _
      · exact scrubbed_none

theorem writeValueToFile_ok {fates : WriteFates} {file : Option Bytes} {data : Bytes} :
    (writeValueToFile fates file data).1 = .ok ↔ fates.Completes := by
  obtain ⟨opens, writes, truncates⟩ := fates
  cases writes with
  | some cut =>
    obtain ⟨n, cut⟩ := cut
    exact iff_of_false (by cases cut <;> nofun) fun h => nomatch h.1
  | none =>
    cases truncates with
    | some cut => exact iff_of_false (by cases cut <;> nofun) fun h => nomatch h.2
    | none => exact iff_of_true rfl ⟨rfl, rfl⟩

theorem writeValueToFile_torn {fates : WriteFates} (file : Option Bytes) (data : Bytes)
    (h : ¬fates.Completes) :
    (writeValueToFile fates file data).1 ≠ .ok ∧
      (writeValueToFile fates file data).2 = some (fates.torn file data) := by
  refine ⟨fun heq => h (writeValueToFile_ok.1 heq), ?_⟩
  obtain ⟨opens, writes, truncates⟩ := fates
  cases writes with
  | some cut => rfl
  | none =>
    cases truncates with
    | some cut => rfl
    | none => exact absurd ⟨rfl, rfl⟩ h

theorem writeValueToFile_completes {fates : WriteFates} {file : Option Bytes} {data : Bytes}
    (h : fates.Completes) : writeValueToFile fates file data = (.ok, some data) := by
  obtain ⟨opens, writes, truncates⟩ := fates
  obtain ⟨rfl, rfl⟩ := h
  rfl

/-! ## 3. One save -/

/-- What a careful save does: the value is stored, or what was stored still is; and the server
believes what is true. -/
structure Saved (P : Persister T) (w : World T) (f : FileBacked T)
    (r : Outcome × FileBacked T × Disk) : Prop where
  single : (held P r.2.2.appData).isSome → Scrubbed r.2.2.system
  kept : stored P r.2.2 = some f.value ∨ stored P r.2.2 = stored P w.disk
  ok : r.1 = .ok → stored P r.2.2 = some f.value ∨ w.wiped = true ∧ f.state = .savedToAppdata
  value : r.2.1.value = f.value
  believed : match r.2.1.state with
    | .dirty => True
    | .savedToSystem => held P r.2.2.appData = none ∧ held P r.2.2.system = some f.value
    | .savedToAppdata => w.wiped = true ∧ f.state = .savedToAppdata ∧ r.1 = .ok ∨
      held P r.2.2.appData = some f.value

theorem stored_of_appData {disk : Disk} {value : T} (h : held P disk.appData = some value) :
    stored P disk = some value := by
  rw [stored, h]
  rfl

theorem stored_of_system {disk : Disk} {value : T} (happ : held P disk.appData = none)
    (h : held P disk.system = some value) : stored P disk = some value := by
  rw [stored, happ, h]
  rfl

section Save

variable {w : World T} {f : FileBacked T} {fates : SaveFates}

/-- Nothing was written, and the value is stored already when the save says `Ok`. -/
theorem Saved.unchanged (h : Inv P w) (hb : Believed P w f) {outcome : Outcome}
    (hok : outcome = .ok → f.state ≠ .dirty)
    (hcut : outcome ≠ .ok → f.state ≠ .savedToAppdata) : Saved P w f (outcome, f, w.disk) := by
  unfold Believed at hb
  refine ⟨h.single, .inr rfl, fun heq => ?_, rfl, ?_⟩
  · have hclean := hok heq
    cases hstate : f.state with
    | dirty => exact absurd hstate hclean
    | savedToSystem =>
      rw [hstate] at hb
      exact .inl (stored_of_system hb.1 hb.2)
    | savedToAppdata =>
      rw [hstate] at hb
      exact hb.symm.imp stored_of_appData fun hw => ⟨hw, rfl⟩
  · dsimp only
    cases hstate : f.state with
    | dirty => trivial
    | savedToSystem =>
      rw [hstate] at hb
      exact hb
    | savedToAppdata =>
      rw [hstate] at hb
      refine hb.imp (fun hw => ⟨hw, rfl, ?_⟩) id
      exact Decidable.byContradiction fun hne => hcut hne hstate

theorem Saved.toAppData (hP : P.Lawful) (hb : Believed P w f)
    (hstate : f.state ≠ .savedToAppdata) (hc : CarefulToAppData P fates f.value w.disk) :
    Saved P w f (saveToAppData P fates f w.disk) := by
  unfold saveToAppData
  by_cases hcompletes : fates.app.Completes
  · rw [writeValueToFile_completes hcompletes]
    have hheld : held P (some (P.toBytes f.value)) = some f.value := hP.roundTrip f.value
    have hstored : stored P { w.disk with
        appData := some (P.toBytes f.value)
        system := (wipeFileInSystem fates.wipe w.disk.system).2 } = some f.value :=
      stored_of_appData hheld
    exact ⟨fun _ => wipeFileInSystem_scrubbed (hc.1 hcompletes), .inl hstored, fun _ => .inl hstored,
      rfl, .inr hheld⟩
  · obtain ⟨hnone, hleft⟩ := hc.2 hcompletes
    obtain ⟨hcut, hfile⟩ := writeValueToFile_torn w.disk.appData (P.toBytes f.value)
      hcompletes
    generalize fates.app.torn w.disk.appData (P.toBytes f.value) = torn at hleft hfile
    have hresult : ∀ outcome : Outcome, outcome ≠ .ok →
        Saved P w f (outcome, f, { w.disk with appData := some torn }) := by
      intro outcome hcut
      unfold Believed at hb
      cases htorn : P.fromBytes torn with
      | some v =>
        obtain ⟨rfl, hscrubbed⟩ := hleft v htorn
        have hstored : stored P { w.disk with appData := some torn } = some f.value :=
          stored_of_appData htorn
        refine ⟨fun _ => hscrubbed, .inl hstored, fun heq => absurd heq hcut, rfl, ?_⟩
        cases hf : f.state with
        | dirty => trivial
        | savedToSystem =>
          rw [hf] at hb
          exact absurd (hscrubbed.held hP) (by rw [hb.2]; nofun)
        | savedToAppdata => exact absurd hf hstate
      | none =>
        have htorn : held P (some torn) = none := htorn
        have hstored : stored P { w.disk with appData := some torn } = stored P w.disk := by
          show (held P (some torn)).or _ = (held P w.disk.appData).or _
          rw [htorn, hnone]
        refine ⟨fun hsome => ?_, .inr hstored, fun heq => absurd heq hcut, rfl, ?_⟩
        · have hsome : (held P (some torn)).isSome := hsome
          rw [htorn] at hsome
          cases hsome
        · cases hf : f.state with
          | dirty => trivial
          | savedToSystem =>
            rw [hf] at hb
            exact ⟨htorn, hb.2⟩
          | savedToAppdata => exact absurd hf hstate
    generalize writeValueToFile fates.app w.disk.appData (P.toBytes f.value) = written at hcut hfile ⊢
    obtain ⟨outcome, file⟩ := written
    cases hfile
    cases outcome with
    | ok => exact absurd rfl hcut
    | failed => exact hresult .failed hcut
    | powerLost => exact hresult .powerLost hcut

theorem Saved.toSystem (hP : P.Lawful) (h : Inv P w) (hb : Believed P w f)
    (hstate : f.state = .dirty) (hc : CarefulToSystem P fates f.value w.disk) :
    Saved P w f (saveToSystem P fates f w.disk) := by
  unfold saveToSystem
  cases hopens : fates.systemParent.or fates.system.opens with
  | some cut =>
    have hcut : cut.outcome ≠ .ok := by cases cut <;> nofun
    exact Saved.unchanged h hb (fun heq => absurd heq hcut) fun _ heq => by
      rw [hstate] at heq
      cases heq
  | none =>
    obtain ⟨hnone, hwrite⟩ : held P w.disk.appData = none ∧ _ :=
      hc.resolve_left fun hsome => by rw [hopens] at hsome; cases hsome
    have hsingle : ∀ file, (held P w.disk.appData).isSome → Scrubbed file := by
      intro file hsome
      rw [hnone] at hsome
      cases hsome
    by_cases hcompletes : fates.system.Completes
    · rw [writeValueToFile_completes hcompletes]
      have hheld : held P (some (P.toBytes f.value)) = some f.value := hP.roundTrip f.value
      have hstored : stored P { w.disk with system := some (P.toBytes f.value) } = some f.value :=
        stored_of_system hnone hheld
      exact ⟨hsingle _, .inl hstored, fun _ => .inl hstored, rfl, hnone, hheld⟩
    · obtain ⟨hempty, hleft⟩ := hwrite hcompletes
      obtain ⟨hcut, hfile⟩ := writeValueToFile_torn w.disk.system (P.toBytes f.value)
        hcompletes
      generalize fates.system.torn w.disk.system (P.toBytes f.value) = torn at hleft hfile
      have hresult : ∀ outcome : Outcome, outcome ≠ .ok →
          Saved P w f (outcome, f, { w.disk with system := some torn }) := by
        intro outcome hcut
        refine ⟨hsingle _, ?_, fun heq => absurd heq hcut, rfl, ?_⟩
        · have htorn : stored P { w.disk with system := some torn } = P.fromBytes torn := by
            show (held P w.disk.appData).or (P.fromBytes torn) = _
            rw [hnone]
            rfl
          have hold : stored P w.disk = none := by
            rw [stored, hnone, hempty]
            rfl
          cases hvalue : P.fromBytes torn with
          | none => exact .inr ((htorn.trans hvalue).trans hold.symm)
          | some v =>
            obtain ⟨rfl, -⟩ := hleft v hvalue
            exact .inl (htorn.trans hvalue)
        · dsimp only
          rw [hstate]
          trivial
      generalize writeValueToFile fates.system w.disk.system (P.toBytes f.value) = written
        at hcut hfile ⊢
      obtain ⟨outcome, file⟩ := written
      cases hfile
      cases outcome with
      | ok => exact absurd rfl hcut
      | failed => exact hresult .failed hcut
      | powerLost => exact hresult .powerLost hcut

theorem Saved.save (hP : P.Lawful) (h : Inv P w) (hb : Believed P w f)
    (hc : CarefulSave P fates f w.disk) : Saved P w f (save P fates f w.disk) := by
  unfold Persist.save
  unfold CarefulSave at hc
  by_cases happ : f.state = .savedToAppdata
  · rw [if_pos happ]
    exact Saved.unchanged h hb (fun _ hdirty => by rw [happ] at hdirty; cases hdirty)
      fun hne => absurd rfl hne
  · rw [if_neg happ]
    cases hopens : w.disk.opensAppData fates with
    | none =>
      rw [hopens] at hc
      exact Saved.toAppData hP hb happ (hc happ)
    | some cut =>
      rw [hopens] at hc
      cases cut with
      | powerLoss => exact Saved.unchanged h hb nofun fun _ => happ
      | fails =>
        dsimp only
        by_cases hsystem : f.state = .savedToSystem
        · rw [if_pos hsystem]
          exact Saved.unchanged h hb (fun _ hdirty => by rw [hsystem] at hdirty; cases hdirty)
            fun _ => happ
        · rw [if_neg hsystem]
          have hdirty : f.state = .dirty := by
            cases hf : f.state with
            | dirty => rfl
            | savedToSystem => exact absurd hf hsystem
            | savedToAppdata => exact absurd hf happ
          exact Saved.toSystem hP h hb hdirty (hc hdirty)

/-- The server's copy was saved, or is still the one that a later start finds. -/
theorem Inv.saveServer (hP : P.Lawful) (h : Inv P w) (hb : Believed P w f)
    (hc : CarefulSave P fates f w.disk) : Inv P (w.saveServer P fates f) := by
  have hsaved : Saved P w f (Persist.save P fates f w.disk) := Saved.save hP h hb hc
  unfold World.saveServer
  generalize Persist.save P fates f w.disk = result at hsaved ⊢
  obtain ⟨outcome, f', disk⟩ := result
  have hkept : ∀ u, w.lastOk = some u → w.wiped = false →
      ∃ v, stored P disk = some v ∧ (v = u ∨ v ∈ w.later ++ [f.value]) := by
    intro u hlast hwiped
    rcases hsaved.kept with hnew | hold
    · exact ⟨f.value, hnew, .inr (List.mem_append_right _ (List.mem_singleton.2 rfl))⟩
    · obtain ⟨v, hv, hcase⟩ := h.kept u hlast hwiped
      exact ⟨v, hold.trans hv, hcase.imp_right (List.mem_append_left _)⟩
  have hfresh : w.lastOk = none → ∀ v, stored P disk = some v → v ∈ w.later ++ [f.value] := by
    intro hlast v hv
    rcases hsaved.kept with hnew | hold
    · cases hnew.symm.trans hv
      exact List.mem_append_right _ (List.mem_singleton.2 rfl)
    · exact List.mem_append_left _ (h.fresh hlast v (hold.symm.trans hv))
  cases outcome with
  | powerLost => exact ⟨hsaved.single, hkept, hfresh, nofun, h.starts⟩
  | failed =>
    refine ⟨hsaved.single, hkept, hfresh, ?_, h.starts⟩
    rintro _ ⟨⟩
    have hbelieved := hsaved.believed
    have hvalue : f'.value = f.value := hsaved.value
    unfold Believed
    dsimp only at hbelieved ⊢
    cases hstate : f'.state with
    | dirty => trivial
    | savedToSystem =>
      rw [hstate] at hbelieved
      rw [hvalue]
      exact hbelieved
    | savedToAppdata =>
      rw [hstate] at hbelieved
      rw [hvalue]
      exact hbelieved.imp_left fun hw => hw.1
  | ok =>
    refine ⟨hsaved.single, ?_, nofun, ?_, h.starts⟩
    · rintro _ ⟨⟩ hwiped
      rcases hsaved.ok rfl with hstored | ⟨hold, happ⟩
      · exact ⟨f.value, hstored, .inl rfl⟩
      · have hwiped : (w.wiped && decide (f.state = .savedToAppdata)) = false := hwiped
        rw [hold, happ] at hwiped
        cases hwiped
    · rintro _ ⟨⟩
      have hbelieved := hsaved.believed
      have hvalue : f'.value = f.value := hsaved.value
      unfold Believed
      dsimp only at hbelieved ⊢
      cases hstate : f'.state with
      | dirty => trivial
      | savedToSystem =>
        rw [hstate] at hbelieved
        rw [hvalue]
        exact hbelieved
      | savedToAppdata =>
        rw [hstate] at hbelieved
        rw [hvalue]
        refine hbelieved.imp_left fun hw => ?_
        rw [hw.1, hw.2.1]
        rfl

end Save

/-! ## 4. Runs -/

theorem blank_inv : Inv P (World.blank : World T) := ⟨nofun, nofun, nofun, nofun, nofun⟩

theorem load_of_careful {w : World T} {mounted : Bool} {reads : ReadFates} {generated : T}
    (hc : CarefulStart P mounted reads w) :
    load P reads generated { w.disk with mounted := mounted } =
      (found P generated w.disk, (stored P w.disk).isNone) := by
  unfold load found stored
  cases happ : held P w.disk.appData with
  | some value =>
    obtain ⟨rfl, hread⟩ := hc.app (by rw [happ]; rfl)
    have happ : w.disk.appData.bind P.fromBytes = some value := happ
    dsimp only
    rw [hread, happ]
    rfl
  | none =>
    have hnone : (if mounted && reads.app then w.disk.appData.bind P.fromBytes else none) = none := by
      split
      · exact happ
      · rfl
    dsimp only
    rw [hnone]
    cases hsystem : held P w.disk.system with
    | some value =>
      have hread := hc.system happ (by rw [hsystem]; rfl)
      have hsystem : w.disk.system.bind P.fromBytes = some value := hsystem
      rw [hread, hsystem]
      rfl
    | none =>
      have hnone : (if reads.system then w.disk.system.bind P.fromBytes else none) = none := by
        split
        · exact hsystem
        · rfl
      rw [hnone]
      rfl

theorem found_value {generated : T} {disk : Disk} :
    (found P generated disk).value = (stored P disk).getD generated := by
  unfold found stored
  cases held P disk.appData with
  | some value => rfl
  | none => cases held P disk.system <;> rfl

theorem found_believed {w : World T} {generated : T} : Believed P w (found P generated w.disk) := by
  unfold Believed found
  rcases happ : held P w.disk.appData with _ | value
  · rcases hsystem : held P w.disk.system with _ | value
    · exact trivial
    · exact ⟨rfl, rfl⟩
  · exact .inr rfl

theorem Inv.faithful {w : World T} {mounted : Bool} {reads : ReadFates} {generated : T}
    (h : Inv P w) (hc : CarefulStart P mounted reads w) :
    (Started.mk (found P generated w.disk).value (stored P w.disk).isNone w.lastOk
      w.later).Faithful := by
  rw [found_value]
  refine ⟨?_, ?_, ?_⟩
  · intro u hlast
    obtain ⟨v, hv, hcase⟩ := h.kept u hlast hc.saved
    dsimp only
    rw [hv]
    exact hcase
  · intro hgenerated
    cases hlast : w.lastOk with
    | none => rfl
    | some u =>
      obtain ⟨v, hv, -⟩ := h.kept u hlast hc.saved
      have hgenerated : (stored P w.disk).isNone = true := hgenerated
      rw [hv] at hgenerated
      cases hgenerated
  · intro hlast
    cases hstored : stored P w.disk with
    | none => exact .inl rfl
    | some v => exact .inr (h.fresh hlast v hstored)

theorem Inv.start (hP : P.Lawful) {w : World T} {mounted : Bool} {reads : ReadFates}
    {generated : T} {fates : SaveFates} (h : Inv P w)
    (hc : Careful P w (.start mounted reads generated fates)) :
    Inv P (w.step P (.start mounted reads generated fates)) := by
  obtain ⟨hstart, hsave⟩ := hc
  let started : World T := { w with
    disk := { w.disk with mounted := mounted }
    server := none
    starts := w.starts ++ [Started.mk (found P generated w.disk).value (stored P w.disk).isNone
      w.lastOk w.later] }
  have hstarted : Inv P started := by
    refine ⟨h.single, h.kept, h.fresh, nofun, fun r hr => ?_⟩
    rcases List.mem_append.1 hr with hold | hnew
    · exact h.starts r hold
    · cases List.mem_singleton.1 hnew
      exact h.faithful hstart
  have hbelieved : Believed P started (found P generated w.disk) := found_believed (w := w)
  have hsaved : Inv P (started.saveServer P fates (found P generated w.disk)) :=
    hstarted.saveServer hP hbelieved hsave
  show Inv P (World.startServer P reads generated fates _)
  unfold World.startServer
  rw [load_of_careful hstart]
  dsimp only
  split
  · exact hsaved
  · exact ⟨hsaved.single, hsaved.kept, hsaved.fresh, nofun, hsaved.starts⟩

/-- A request is served by a server that believes what is true. -/
theorem Inv.request {w : World T} (h : Inv P w) {f : FileBacked T → World T}
    (hf : ∀ fileBacked, w.server = some fileBacked → Believed P w fileBacked → Inv P (f fileBacked)) :
    Inv P (w.request f) := by
  unfold World.request
  cases hserver : w.server with
  | none => exact h
  | some fileBacked => exact hf fileBacked hserver (h.server fileBacked hserver)

theorem Inv.restoreBackup {w : World T} (hP : P.Lawful) (h : Inv P w) :
    Inv P (w.step P .restoreBackup) := by
  have hwiped : ∀ {b : Bool}, (w.wiped || b) = false → w.wiped = false ∧ b = false :=
    fun h => Bool.or_eq_false_iff.1 h
  refine ⟨nofun, fun u hlast hw => ?_, fun hlast v hv => ?_, fun f hf => ?_, h.starts⟩
  · obtain ⟨hold, hnone⟩ := hwiped hw
    have hnone : held P w.disk.appData = none := Option.isSome_eq_false_iff.1 hnone |> Option.isNone_iff_eq_none.1
    obtain ⟨v, hv, hcase⟩ := h.kept u hlast hold
    refine ⟨v, ?_, hcase⟩
    rw [stored, hnone] at hv
    exact hv
  · cases hold : held P w.disk.appData with
    | none =>
      refine h.fresh hlast v ?_
      rw [stored, hold]
      exact hv
    | some value =>
      have hscrubbed := (h.single (by rw [hold]; rfl)).held hP
      have hv : held P w.disk.system = some v := hv
      rw [hscrubbed] at hv
      cases hv
  · have hb := h.server f hf
    unfold Believed at hb ⊢
    cases hstate : f.state with
    | dirty => trivial
    | savedToSystem =>
      rw [hstate] at hb
      exact ⟨rfl, hb.2⟩
    | savedToAppdata =>
      rw [hstate] at hb
      refine .inl (Bool.or_eq_true_iff.2 (hb.imp_right fun hold => ?_))
      show (held P w.disk.appData).isSome = true
      rw [hold]
      rfl

theorem Inv.step (hP : P.Lawful) {w : World T} {act : Act T} (h : Inv P w) (hc : Careful P w act) :
    Inv P (w.step P act) := by
  cases act with
  | start mounted reads generated fates => exact h.start hP hc
  | guard value fates =>
    refine h.request fun f hf hb => ?_
    have hc := hc f hf
    cases value with
    | some value => exact h.saveServer hP trivial hc
    | none => exact h.saveServer hP hb hc
  | markDirty =>
    refine h.request fun f hf hb => ⟨h.single, h.kept, h.fresh, ?_, h.starts⟩
    rintro _ ⟨⟩
    trivial
  | save fates => exact h.request fun f hf hb => h.saveServer hP hb (hc f hf)
  | mount fates =>
    have hmounted : Inv P { w with disk := { w.disk with mounted := true } } :=
      ⟨h.single, h.kept, h.fresh, h.server, h.starts⟩
    exact hmounted.request fun f hf hb => hmounted.saveServer hP hb (hc f hf)
  | onboardingComplete fates =>
    exact h.request fun f hf hb => h.saveServer hP trivial (hc f hf)
  | restoreBackup => exact h.restoreBackup hP

theorem Inv.run (hP : P.Lawful) {w : World T} {acts : List (Act T)} (h : Inv P w)
    (hc : CarefulRun P w acts) : Inv P (w.run P acts) := by
  induction acts generalizing w with
  | nil => exact h
  | cons act acts ih => exact ih (h.step hP hc.1) hc.2

/-! ## 5. The identity and the pairing -/

/-- Every start has loaded what was last saved, and no copy is left in the system partition once
AppData holds the value. -/
structure Kept (P : Persister T) (w : World T) : Prop where
  starts : ∀ r ∈ w.starts, r.Faithful
  scrubbed : (held P w.disk.appData).isSome → Scrubbed w.disk.system

/-- The identity and the pairing are kept in every run whose steps are careful. -/
theorem identity_kept (hP : P.Lawful) {acts : List (Act T)} (hc : CarefulRun P World.blank acts) :
    Kept P (World.blank.run P acts) :=
  have hinv : Inv P (World.blank.run P acts) := blank_inv.run hP hc
  ⟨hinv.starts, hinv.single⟩

/-- A byte, written twice after a marker. -/
def twice : Persister UInt8 where
  fromBytes
    | [1, a, b] => if a = b then some a else none
    | _ => none
  toBytes value := [1, value, value]

theorem twice_lawful : twice.Lawful where
  roundTrip _ := if_pos rfl
  zeroes
    | 0 | 1 | 2 | 3 => rfl
    | _ + 4 => rfl

/-- No primitive fails. -/
def uncut : SaveFates := ⟨⟨none, none, none⟩, ⟨none, none, none, none⟩, none, ⟨none, none, none⟩⟩

/-- A write to AppData is cut short after some bytes. -/
def tornAfter (n : Nat) : SaveFates := { uncut with app := ⟨none, some (n, .powerLoss), none⟩ }

def reads : ReadFates := ⟨true, true⟩

/-- A pairing that is saved while AppData is mounted, and is there after a restart. -/
theorem identity_kept_after_restart :
    Kept twice (World.blank.run twice
      [.start true reads 7 uncut, .guard (some 8) uncut, .start true reads 9 uncut]) := by
  have huncut : ∀ value : UInt8, ∀ disk : Disk, Scrubbed disk.system →
      CarefulToAppData twice uncut value disk :=
    fun value disk hsystem => ⟨fun _ => .inl hsystem, fun h => absurd ⟨rfl, rfl⟩ h⟩
  refine identity_kept twice_lawful ⟨⟨⟨rfl, nofun, nofun⟩, fun _ => huncut _ _ nofun⟩, ?_,
    ⟨⟨rfl, fun _ => ⟨rfl, rfl⟩, fun _ _ => rfl⟩, fun _ => huncut _ _ nofun⟩, trivial⟩
  rintro _ ⟨⟩ _
  exact huncut _ _ nofun

/-- The value is written over the only copy of the old one; a start that does not find AppData, or
follows a restore, generates a new identity. -/
theorem identity_lost :
    (¬Kept twice (World.blank.run twice
      [.start true reads 7 uncut, .guard (some 8) (tornAfter 2), .start true reads 9 uncut])) ∧
    (¬Kept twice (World.blank.run twice
      [.start true reads 7 uncut, .start false reads 9 uncut])) ∧
    ¬Kept twice (World.blank.run twice
      [.start true reads 7 uncut, .restoreBackup, .start true reads 9 uncut]) := by
  refine ⟨fun h => ?_, fun h => ?_, fun h => ?_⟩
  · have hfaithful : (Started.mk (9 : UInt8) true (some 7) [8]).Faithful :=
      h.starts _ (List.mem_cons_of_mem _ (List.mem_singleton.2 rfl))
    exact nomatch hfaithful.fresh rfl
  · have hfaithful : (Started.mk (9 : UInt8) true (some 7) []).Faithful :=
      h.starts _ (List.mem_cons_of_mem _ (List.mem_singleton.2 rfl))
    exact nomatch hfaithful.fresh rfl
  · have hfaithful : (Started.mk (9 : UInt8) true (some 7) []).Faithful :=
      h.starts _ (List.mem_cons_of_mem _ (List.mem_singleton.2 rfl))
    exact nomatch hfaithful.fresh rfl

end QuantumLink.Persist
