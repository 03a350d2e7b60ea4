import KeyOS.Fs.FatFile

/-!
# Changing the length of an open file

The handler finds the open file of the caller, refuses to shorten it under another handle, and then
extends it with zeros from its end, or cuts it at the new length, by way of the one cursor the file
has, which it puts back at the end. The number of zeros is a `usize`, of 32 bits on the device.

`setLen_exact_iff` says for which lengths this is right: not for those that are a multiple of 2^32
too long, as far as what is left over still fits into a file.
-/

namespace Fs

open Exec

/-! ## 1. The open files -/

inductive Location where
  | commonAssets
  | appData
  | system
  | encryptedRoot
  | boot
  | usb
  | user
  | airlock
  | systemAppData
  | appResources
  deriving DecidableEq, Repr

def Location.all : List Location :=
  [.commonAssets, .appData, .system, .encryptedRoot, .boot, .usb, .user, .airlock, .systemAppData,
    .appResources]

/-- `Location::from_usize`, which counts from 1 -/
def Location.fromUsize (x : Nat) : Option Location := if x = 0 then none else all[x - 1]?

abbrev Pid := Nat

/-- Of 32 bits, the uppermost eight of which are the location -/
abbrev FileHandle := Nat

inductive Error where
  | io
  | fileNotOpen
  | invalidOperation
  | fileInUse
  | noMedia
  deriving DecidableEq, Repr

/-- Every error of a file is one of the kinds that become `Io`. -/
def Error.ofFile (_ : FileError) : Error := .io

def FileHandle.location (handle : FileHandle) : Except Error Location :=
  match Location.fromUsize (handle / 2 ^ 24) with
  | some location => .ok location
  | none => .error .fileNotOpen

structure OpenFlags where
  write : Bool

structure OpenFile where
  file : File
  /-- The last of the positions of its directory entries -/
  fileId : Nat
  flags : OpenFlags

structure Mount where
  files : List ((Pid × FileHandle) × OpenFile)

namespace Mount

def file (m : Mount) (pid : Pid) (handle : FileHandle) : Option OpenFile :=
  m.files.lookup (pid, handle)

def hasOtherHandle (m : Mount) (fileId : Nat) (exceptPid : Pid) (except : FileHandle) : Bool :=
  m.files.any fun p => p.2.fileId = fileId ∧ ¬ (p.1.1 = exceptPid ∧ p.1.2 = except)

/-- What is written through the reference to an open file -/
def setFile (m : Mount) (pid : Pid) (handle : FileHandle) (f : File) : Mount :=
  { files := m.files.map fun p => if p.1 = (pid, handle) then (p.1, { p.2 with file := f }) else p }

theorem setFile_file (m : Mount) (pid : Pid) (handle : FileHandle) (f : File) :
    (m.setFile pid handle f).file pid handle =
      (m.file pid handle).map fun o => { o with file := f } := by
  unfold setFile file
  induction m.files with
  | nil => rfl
  | cons p files ih =>
    rw [List.map_cons, List.lookup_cons, List.lookup_cons]
    by_cases hp : p.1 = (pid, handle)
    · simp [hp]
    · have hne : ((pid, handle) == p.1) = false := by simpa using fun h => hp h.symm
      rw [if_neg hp, hne]
      exact ih

end Mount

inductive Drive where
  | fsBoot
  | fsInternal
  | fsUser
  | airlock
  | fsUsb
  deriving DecidableEq, Repr

/-- The server, with what the devices will do -/
structure Server where
  recoveryOs : Bool
  /-- The drives that are mounted. Of the airlock this is the state `Mounted`. -/
  mounts : Drive → Option Mount
  replies : List Reply

def Server.drive (recoveryOs : Bool) (location : Location) : Option Drive :=
  if recoveryOs then
    match location with
    | .boot | .commonAssets => some .fsBoot
    | .system | .systemAppData | .appResources => some .fsInternal
    | .appData | .user | .encryptedRoot | .airlock => none
    | .usb => some .fsUsb
  else
    match location with
    | .boot => none
    | .system | .systemAppData | .commonAssets | .appResources => some .fsInternal
    | .appData | .user | .encryptedRoot => some .fsUser
    | .airlock => some .airlock
    | .usb => some .fsUsb

/-- The open file of a handle -/
def Server.openFile (s : Server) (pid : Pid) (handle : FileHandle) : Option OpenFile :=
  match handle.location with
  | .error _ => none
  | .ok location => do
    let drive ← Server.drive s.recoveryOs location
    let mount ← s.mounts drive
    mount.file pid handle

/-! ## 2. The handler -/

namespace File

def ZERO_BUF_SIZE : Nat := 2048

/-- A `u64` as a `usize` of the device -/
def asUsize (x : Nat) : Nat := x % 2 ^ 32

/-- The loop over the zeros that remain, with room for as many rounds as there are zeros -/
def writeZerosIn : Nat → Nat → FileM Unit
  | _, 0 => pure ()
  | 0, _ + 1 => pure ()
  | fuel + 1, remaining + 1 => do
    let writeSize := min (remaining + 1) ZERO_BUF_SIZE
    writeAll (List.replicate writeSize 0)
    writeZerosIn fuel (remaining + 1 - writeSize)

def writeZeros (remaining : Nat) : FileM Unit := writeZerosIn remaining remaining

def resize (len currentSize : Nat) : FileM Unit :=
  if currentSize < len then do
    let _ ← seek (.fromEnd 0)
    writeZeros (asUsize (len - currentSize))
  else if len < currentSize then do
    let _ ← seek (.start len)
    truncate
  else pure ()

/-- What the handler does with the file -/
def setLen (len currentSize : Nat) : FileM Unit := do
  let currentPos ← streamPosition
  resize len currentSize
  let _ ← seek (.start currentPos)
  pure ()

end File

structure SetLen where
  handle : FileHandle
  len : Nat

abbrev ServerM := Prog Server FilePanic Error

namespace Server

/-- Work on an open file, which is edited in its place -/
def onFile (drive : Drive) (pid : Pid) (handle : FileHandle) (f : File) (x : FileM Unit) :
    ServerM Unit :=
  Prog.zoom (fun s : Server => { file := f, replies := s.replies : Volume })
    (fun v s =>
      { s with
        mounts := Function.update s.mounts drive
          ((s.mounts drive).map fun m => m.setFile pid handle v.file)
        replies := v.replies })
    (Prog.mapErr Error.ofFile x)

def handleSetLen (msg : SetLen) (sender : Pid) : ServerM Unit := do
  let location ← Prog.ofExcept msg.handle.location
  let s ← Prog.get
  let drive ← Prog.okOr .noMedia (drive s.recoveryOs location)
  let mount ← Prog.okOr .noMedia (s.mounts drive)
  let «open» ← Prog.okOr .fileNotOpen (mount.file sender msg.handle)
  Prog.onlyIf («open».flags.write = false) (Prog.throw .invalidOperation)
  let currentSize ← Prog.okOr .invalidOperation «open».file.size
  Prog.onlyIf (msg.len < currentSize ∧ mount.hasOtherHandle «open».fileId sender msg.handle = true)
    (Prog.throw .fileInUse)
  onFile drive sender msg.handle «open».file (File.setLen msg.len currentSize)

end Server

/-! ## 3. What becomes of the file -/

open Prog (Triple)

namespace File

variable {f f' : File} {n len : Nat} {plain : Prop}

/-- The zeros are written behind the end, or some of them before an error. -/
theorem writeZerosIn_spec (fuel remaining : Nat) (hf : f.Sized n) (hend : f.offset = n)
    (hfuel : remaining ≤ fuel) :
    Triple (Ready plain f) (writeZerosIn fuel remaining)
      (fun _ v => Wrote f n (List.replicate remaining 0) v.file ∧ (plain → v.replies = []))
      (fun _ v => (plain → MAX_FILE_SIZE < n + remaining) ∧
        ∃ k, Wrote f n (List.replicate k 0) v.file) fun _ => False := by
  induction fuel generalizing remaining f n with
  | zero =>
    obtain rfl : remaining = 0 := Nat.le_zero.1 hfuel
    exact Triple.pure fun v hv => ⟨Wrote.nothing hf hv.file_eq, hv.replies_eq⟩
  | succ fuel ih =>
    cases remaining with
    | zero => exact Triple.pure fun v hv => ⟨Wrote.nothing hf hv.file_eq, hv.replies_eq⟩
    | succ remaining =>
      unfold writeZerosIn
      have hpos : 0 < min (remaining + 1) ZERO_BUF_SIZE := by
        unfold ZERO_BUF_SIZE
        omega
      have hle : min (remaining + 1) ZERO_BUF_SIZE ≤ remaining + 1 := Nat.min_le_left _ _
      generalize min (remaining + 1) ZERO_BUF_SIZE = w at hpos hle
      refine Triple.bind ((writeAllIn_spec _ hf (List.replicate w 0) (Nat.le_refl _)).conseq
        (fun _ => id) (fun _ _ => id) ?_ fun _ => id) fun _ => ?_
      · rintro e v ⟨hmax, k, -, hv⟩
        rw [List.length_replicate, hend] at hmax
        rw [List.take_replicate] at hv
        exact ⟨fun hp => Nat.lt_of_lt_of_le (hmax hp) (by omega), _, hv⟩
      · rintro v ⟨hv, hplain⟩
        have hsize : max n (f.offset + (List.replicate w (0 : UInt8)).length) = n + w := by
          rw [List.length_replicate, hend]
          omega
        have hoffset : v.file.offset = n + w := by
          rw [hv.offset_eq, List.length_replicate, hend]
        have hjoin {f' : File} (k : Nat) (h : Wrote v.file (n + w) (List.replicate k 0) f') :
            Wrote f n (List.replicate (w + k) 0) f' := by
          rw [← List.replicate_append_replicate]
          exact hv.trans (hsize ▸ h)
        refine (ih (remaining + 1 - w) (hsize ▸ hv.sized) hoffset (by omega)).conseq (fun _ => id)
          ?_ ?_ (fun _ => id) v ⟨rfl, hplain⟩
        · rintro _ v' ⟨hv', hplain'⟩
          exact ⟨Nat.add_sub_cancel' hle ▸ hjoin _ hv', hplain'⟩
        · rintro e v' ⟨hmax, k, hv'⟩
          refine ⟨fun hp => ?_, w + k, hjoin k hv'⟩
          have := hmax hp
          omega

/-- The length that comes out -/
def newLen (n len : Nat) : Nat := if n < len then n + asUsize (len - n) else len

/-- The file once it has a length, without a word on the cursor -/
structure Resized (f : File) (n len : Nat) (f' : File) : Prop where
  sized : f'.Sized len
  content_eq : f'.content len = (f.content n).take len ++ List.replicate (len - n) 0

/-- What a failure leaves: a file that is not shortened is not damaged. -/
def Kept (f : File) (n : Nat) (f' : File) : Prop :=
  ∃ m, n ≤ m ∧ f'.Sized m ∧ f'.content n = f.content n

theorem Resized.kept (h : Resized f n len f') (hle : n ≤ len) : Kept f n f' := by
  refine ⟨len, hle, h.sized, ?_⟩
  have := congrArg (List.take n) h.content_eq
  rw [List.take_of_length_le (l := f.content n) (by simpa [File.content] using hle),
    List.take_left' (by simp [File.content])] at this
  simpa [File.content, ← List.map_take, List.take_range, Nat.min_eq_left hle] using this

theorem Resized.moved (h : Resized f n len f') {p : Nat} (hp : p ≤ len) :
    Resized f n len (f'.moved p) :=
  ⟨h.sized.moved hp, h.content_eq⟩

theorem Sized.resized (hf : f.Sized n) : Resized f n n f :=
  ⟨hf, by rw [List.take_of_length_le (Nat.le_of_eq hf.content_length)]; simp⟩

theorem Wrote.resized {k : Nat} (hf : f.Sized n)
    (h : Wrote (f.moved n) n (List.replicate k 0) f') : Resized f n (n + k) f' := by
  have hsized := h.sized
  have hcontent := h.content (moved_at n)
  simp only [moved_at, moved_content, List.length_replicate] at hsized hcontent
  rw [Nat.max_eq_right (Nat.le_add_right n k)] at hsized
  refine ⟨hsized, ?_⟩
  rw [hcontent, Nat.add_sub_cancel_left, List.take_of_length_le]
  rw [hf.content_length]
  exact Nat.le_add_right n k

theorem asSigned_small {x : Nat} (h : x ≤ MAX_FILE_SIZE) : asSigned x = x := by
  unfold MAX_FILE_SIZE at h
  exact if_pos (by omega)

theorem resize_spec (hf : f.Sized n) :
    Triple (Ready plain f) (resize len n)
      (fun _ v => Resized f n (newLen n len) v.file ∧ (plain → v.replies = []))
      (fun _ v => (plain → MAX_FILE_SIZE < newLen n len) ∧ (n ≤ len → Kept f n v.file))
      fun _ => False := by
  have hsame {v : Volume} (h : v.file = f) : Kept f n v.file :=
    ⟨n, Nat.le_refl n, h ▸ hf, by rw [h]⟩
  refine Triple.ite (fun hlt => ?_) fun hge => ?_
  · -- the end is where the zeros go
    rw [newLen, if_pos hlt]
    have hend : (SeekFrom.fromEnd 0).target f n = (n : Nat) := Int.add_zero _
    refine Triple.bind ((seek_spec hf _ hend).conseq (fun _ => id) (fun _ _ => id)
      (fun _ v hv => ⟨fun hp => absurd hp hv.1, fun _ => hsame hv.2⟩) fun _ => id) fun q => ?_
    rw [Nat.min_self]
    refine Triple.assume fun _ => ?_
    refine (writeZerosIn_spec _ _ (hf.moved (Nat.le_refl n)) (moved_at n) (Nat.le_refl _)).conseq
      (fun _ => id) ?_ ?_ fun _ => id
    · exact fun _ v ⟨hv, hplain⟩ => ⟨hv.resized hf, hplain⟩
    · exact fun _ v ⟨hmax, k, hv⟩ => ⟨hmax, fun _ => (hv.resized hf).kept (Nat.le_add_right n k)⟩
  · rw [newLen, if_neg hge]
    refine Triple.ite (fun hlt => ?_) fun hge' => ?_
    · have hsmall : len ≤ MAX_FILE_SIZE := Nat.le_trans (Nat.le_of_lt hlt) hf.size_le
      refine Triple.bind ((seek_spec (p := len) hf (.start len) (asSigned_small hsmall)).conseq
        (fun _ => id) (fun _ _ => id)
        (fun _ v hv => ⟨fun hp => absurd hp hv.1, fun _ => hsame hv.2⟩) fun _ => id) fun q => ?_
      rw [Nat.min_eq_left (Nat.le_of_lt hlt)]
      refine Triple.assume fun _ => ?_
      refine (truncate_spec (hf.moved (Nat.le_of_lt hlt))).conseq (fun _ => id) ?_
        (fun _ v hp => ⟨fun h => absurd h hp, fun hle => absurd hlt (Nat.not_lt.2 hle)⟩)
        fun _ => id
      rintro _ v ⟨hv, hplain⟩
      refine ⟨⟨by simpa using hv.sized, ?_⟩, hplain⟩
      have hcontent : v.file.content len = f.content len := hv.content_before (Nat.le_refl len)
      rw [hcontent, Nat.sub_eq_zero_of_le (Nat.le_of_lt hlt), List.replicate_zero, List.append_nil]
      simp [File.content, ← List.map_take, List.take_range, Nat.min_eq_left (Nat.le_of_lt hlt)]
    · obtain rfl : len = n := Nat.le_antisymm (Nat.not_lt.1 hge) (Nat.not_lt.1 hge')
      exact Triple.pure fun v hv => ⟨hv.file_eq ▸ hf.resized, hv.replies_eq⟩

/-- What is meant by setting the length: the file has it, and keeps its cursor where it can; or the
length is refused, and nothing of the file is lost. -/
structure LenSet (f : File) (n len : Nat) (outcome : Outcome FilePanic Error Unit) (f' : File) :
    Prop where
  exact : outcome = .ok () → Resized f n len f' ∧ f'.offset = min f.offset len
  refused : MAX_FILE_SIZE < len → (∃ e, outcome = .err e) ∧ Kept f n f'

theorem setLen_spec (plain : Prop) (len : Nat) (hf : f.Sized n) :
    Triple (Ready plain f) (setLen len n)
      (fun _ v => Resized f n (newLen n len) v.file ∧ v.file.offset = min f.offset (newLen n len))
      (fun _ v => (plain → MAX_FILE_SIZE < newLen n len) ∧ (n ≤ len → Kept f n v.file))
      fun _ => False := by
  have hpos : (SeekFrom.current 0).target f n = (f.offset : Nat) := Int.add_zero _
  refine Triple.bind ((seek_spec hf _ hpos).conseq (fun _ => id) (fun _ _ => id) ?_ fun _ => id)
    fun currentPos => ?_
  · rintro _ v ⟨hplain, hv⟩
    exact ⟨fun hp => absurd hp hplain, fun _ => ⟨n, Nat.le_refl n, hv ▸ hf, by rw [hv]⟩⟩
  rw [Nat.min_eq_left hf.offset_le, hf.moved_offset]
  refine Triple.assume fun hcurrent => ?_
  refine Triple.bind (resize_spec hf) fun _ => ?_
  rintro v ⟨hv, hplain⟩
  have hback : (SeekFrom.start currentPos).target v.file (newLen n len) = (f.offset : Nat) := by
    rw [hcurrent]
    exact asSigned_small (Nat.le_trans hf.offset_le hf.size_le)
  refine Triple.bind ((seek_spec hv.sized _ hback).conseq (fun _ => id) (fun _ _ => id) ?_
    fun _ => id) (fun q => Triple.assume fun _ => ?_) v ⟨rfl, hplain⟩
  · rintro _ v' ⟨hplain, hv'⟩
    refine ⟨fun hp => absurd hp hplain, fun hle => hv' ▸ hv.kept ?_⟩
    unfold newLen
    split <;> omega
  · refine Triple.pure fun v' hv' => ?_
    rw [hv'.file_eq]
    exact ⟨hv.moved (Nat.min_le_right _ _), rfl⟩

/-- The lengths for which the number of zeros is right, or too large for a file -/
def Fits (n len : Nat) : Prop := len < n + 2 ^ 32 ∨ MAX_FILE_SIZE < n + asUsize (len - n)

theorem newLen_eq (h : Fits n len) (hmax : newLen n len ≤ MAX_FILE_SIZE) : newLen n len = len := by
  unfold newLen at hmax ⊢
  split
  · next hlt =>
    rw [if_pos hlt] at hmax
    have hsmall : len < n + 2 ^ 32 := h.resolve_right (Nat.not_lt.2 hmax)
    rw [asUsize, Nat.mod_eq_of_lt (by omega)]
    omega
  · rfl

/-- What the handler does with the file, seen from outside of it -/
theorem setLen_lenSet (hf : f.Sized n) (h : Fits n len) {v : Volume} (hv : v.file = f) :
    LenSet f n len ((setLen len n).mapErr Error.ofFile v).1
      ((setLen len n).mapErr Error.ofFile v).2.file := by
  have hspec : Triple (Ready False f) ((setLen len n).mapErr Error.ofFile) _
      (fun _ v => n ≤ len → Kept f n v.file) fun _ => False :=
    Triple.mapErr ((setLen_spec False len hf).conseq (fun _ => id) (fun _ _ => id)
      (fun _ _ he => he.2) fun _ => id)
  replace hspec := hspec v ⟨hv, False.elim⟩
  revert hspec
  rcases (setLen len n).mapErr Error.ofFile v with ⟨o, v'⟩
  cases o with
  | ok u =>
    rintro ⟨hresized, hoffset⟩
    have heq := newLen_eq h hresized.sized.size_le
    rw [heq] at hresized hoffset
    exact ⟨fun _ => ⟨hresized, hoffset⟩, fun hmax =>
      absurd hresized.sized.size_le (Nat.not_le.2 hmax)⟩
  | err e =>
    exact fun hkept => ⟨nofun, fun hmax => ⟨⟨e, rfl⟩, hkept (Nat.le_of_lt
      (Nat.lt_of_le_of_lt hf.size_le hmax))⟩⟩
  | panic p => exact False.elim

/-- On a device that does not fail the other lengths come out wrong. -/
theorem not_setLen_lenSet (hf : f.Sized n) (h : ¬ Fits n len) {v : Volume} (hv : v.file = f)
    (hplain : v.replies = []) :
    ¬ LenSet f n len ((setLen len n).mapErr Error.ofFile v).1
      ((setLen len n).mapErr Error.ofFile v).2.file := by
  obtain ⟨hlarge, hroom⟩ := not_or.1 h
  have hlt : n < len := by omega
  have hnew : newLen n len = n + asUsize (len - n) := if_pos hlt
  have hne : newLen n len ≠ len := by
    have := Nat.mod_lt (len - n) (Nat.two_pow_pos 32)
    rw [hnew, asUsize]
    omega
  have hspec : Triple (Ready True f) ((setLen len n).mapErr Error.ofFile) _
      (fun _ _ => False) fun _ => False :=
    Triple.mapErr ((setLen_spec True len hf).conseq (fun _ => id) (fun _ _ => id)
      (fun _ _ he => hroom (hnew ▸ he.1 trivial)) fun _ => id)
  replace hspec := hspec v ⟨hv, fun _ => hplain⟩
  revert hspec
  rcases (setLen len n).mapErr Error.ofFile v with ⟨o, v'⟩
  cases o with
  | ok u =>
    rintro ⟨hresized, -⟩ hset
    have hsize := hresized.sized.size_eq.symm.trans (hset.exact rfl).1.sized.size_eq
    exact hne (Option.some.inj hsize)
  | err e => exact False.elim
  | panic p => exact False.elim

end File

/-! ## 4. What becomes of the server -/

namespace Server

variable {s : Server} {msg : SetLen} {sender : Pid} {o : OpenFile} {n : Nat}

theorem openFile_eq {handle : FileHandle} (h : s.openFile sender handle = some o) :
    ∃ location drive mount, handle.location = .ok location ∧
      Server.drive s.recoveryOs location = some drive ∧ s.mounts drive = some mount ∧
      mount.file sender handle = some o := by
  unfold openFile at h
  split at h
  · cases h
  · next location hlocation =>
    obtain ⟨drive, hdrive, h⟩ := Option.bind_eq_some_iff.1 h
    obtain ⟨mount, hmount, h⟩ := Option.bind_eq_some_iff.1 h
    exact ⟨location, drive, mount, hlocation, hdrive, hmount, h⟩

/-- The handler refuses at once, or sets the length of the file of the handle. -/
theorem handleSetLen_run (hopen : s.openFile sender msg.handle = some o)
    (hwrite : o.flags.write = true) (hsize : o.file.size = some n) :
    (msg.len < n ∧ handleSetLen msg sender s = (.err .fileInUse, s)) ∨
    ∃ s', handleSetLen msg sender s = (((File.setLen msg.len n).mapErr Error.ofFile
        { file := o.file, replies := s.replies }).1, s') ∧
      s'.openFile sender msg.handle = some { o with
        file := ((File.setLen msg.len n).mapErr Error.ofFile
          { file := o.file, replies := s.replies }).2.file } := by
  obtain ⟨location, drive, mount, hlocation, hdrive, hmount, hfile⟩ := openFile_eq hopen
  unfold handleSetLen
  rw [Prog.bind_ok _ (Prog.ofExcept_run hlocation s), Prog.bind_ok _ (Prog.get_run s), hdrive,
    Prog.bind_ok _ (Prog.okOr_some_run _ _ s), hmount, Prog.bind_ok _ (Prog.okOr_some_run _ _ s),
    hfile, Prog.bind_ok _ (Prog.okOr_some_run _ _ s),
    Prog.bind_ok _ (Prog.onlyIf_false_run (by simp [hwrite]) _ s), hsize,
    Prog.bind_ok _ (Prog.okOr_some_run _ _ s)]
  by_cases huse : msg.len < n ∧ mount.hasOtherHandle o.fileId sender msg.handle = true
  · exact .inl ⟨huse.1, Prog.bind_err _ (Prog.onlyIf_true_run huse (Prog.throw Error.fileInUse) s)⟩
  · refine .inr ?_
    rw [Prog.bind_ok _ (Prog.onlyIf_false_run huse _ s)]
    unfold onFile Prog.zoom
    rcases (File.setLen msg.len n).mapErr Error.ofFile
      { file := o.file, replies := s.replies } with ⟨outcome, v⟩
    refine ⟨_, rfl, ?_⟩
    simp [openFile, hlocation, hdrive, hmount, Mount.setFile_file, hfile]

/-- For every open file that can be written, wherever its cursor is: whatever the device does, the
length is set or refused as it should be, if and only if it is less than 2^32 beyond the end, or what
is left of the difference in a `usize` is still too much for a file. -/
theorem setLen_exact_iff (s : Server) (msg : SetLen) (sender : Pid)
    (hopen : s.openFile sender msg.handle = some o)
    (hwrite : o.flags.write = true) (hsized : o.file.Sized n) :
    (∀ replies, ∃ o',
      (handleSetLen msg sender { s with replies }).2.openFile sender msg.handle = some o' ∧
      File.LenSet o.file n msg.len (handleSetLen msg sender { s with replies }).1 o'.file) ↔
    (msg.len < n + 2 ^ 32 ∨ MAX_FILE_SIZE < n + (msg.len - n) % 2 ^ 32) := by
  constructor
  · intro h
    refine Classical.byContradiction fun hno => ?_
    obtain ⟨o', hopen', hset⟩ := h []
    rcases handleSetLen_run (s := { s with replies := [] }) hopen hwrite hsized.size_eq with
      ⟨hlt, -⟩ | ⟨s', hrun, hs'⟩
    · exact hno (.inl (by omega))
    · rw [hrun] at hopen' hset
      obtain rfl : _ = o' := Option.some.inj (hs'.symm.trans hopen')
      exact File.not_setLen_lenSet hsized hno rfl rfl hset
  · intro h replies
    rcases handleSetLen_run (s := { s with replies }) hopen hwrite hsized.size_eq with
      ⟨hlt, hrun⟩ | ⟨s', hrun, hs'⟩
    · refine ⟨o, by rw [hrun]; exact hopen, by rw [hrun]; exact nofun, fun hmax => ?_⟩
      have := hsized.size_le
      omega
    · rw [hrun]
      exact ⟨_, hs', File.setLen_lenSet hsized h rfl⟩

/-- An empty file of the user, open for writing -/
def emptyUserFile : OpenFile where
  file :=
    { clusterSize := 512, clusters := 0, currentCluster := none, offset := 0, size := some 0,
      data := fun _ => 0 }
  fileId := 1
  flags := { write := true }

def userServer : Server where
  recoveryOs := false
  mounts
    | .fsUser => some { files := [((2, 7 * 2 ^ 24), emptyUserFile)] }
    | _ => none
  replies := []

theorem emptyUserFile_sized : emptyUserFile.file.Sized 0 where
  cluster_pos := by decide
  size_eq := rfl
  size_le := Nat.zero_le _
  chain := Nat.zero_le _
  offset_le := Nat.le_refl 0
  current := rfl

theorem setLen_exact_iff_kilobyte : emptyUserFile.file.Sized 0 ∧ ∀ replies, ∃ o',
    (handleSetLen { handle := 7 * 2 ^ 24, len := 1024 } 2 { userServer with replies }).2.openFile 2
      (7 * 2 ^ 24) = some o' ∧
    File.LenSet emptyUserFile.file 0 1024
      (handleSetLen { handle := 7 * 2 ^ 24, len := 1024 } 2 { userServer with replies }).1 o'.file :=
  ⟨emptyUserFile_sized, (setLen_exact_iff userServer { handle := 7 * 2 ^ 24, len := 1024 } 2 rfl rfl
    emptyUserFile_sized).2 (.inl (by decide))⟩

/-- Four gigabytes are one byte more than a file can have. Of the difference nothing is left in 32
bits, so nothing is written, and the handler is content. -/
theorem four_gigabytes_accepted :
    (handleSetLen { handle := 7 * 2 ^ 24, len := 2 ^ 32 } 2 userServer).1 = .ok () ∧
    ((handleSetLen { handle := 7 * 2 ^ 24, len := 2 ^ 32 } 2 userServer).2.openFile 2
      (7 * 2 ^ 24)).map (·.file.size) = some (some 0) ∧
    ¬ ∃ o', (handleSetLen { handle := 7 * 2 ^ 24, len := 2 ^ 32 } 2 userServer).2.openFile 2
        (7 * 2 ^ 24) = some o' ∧
      File.LenSet emptyUserFile.file 0 (2 ^ 32)
        (handleSetLen { handle := 7 * 2 ^ 24, len := 2 ^ 32 } 2 userServer).1 o'.file := by
  have hok : (handleSetLen { handle := 7 * 2 ^ 24, len := 2 ^ 32 } 2 userServer).1 = .ok () := rfl
  refine ⟨hok, rfl, ?_⟩
  rintro ⟨o', -, hset⟩
  -- a length of more than the maximum is not refused
  obtain ⟨⟨e, he⟩, -⟩ := hset.refused (by decide)
  rw [hok] at he
  cases he

end Server

end Fs
