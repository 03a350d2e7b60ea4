import KeyOS.Qbsdiff.ForwardPlan
import KeyOS.Qbsdiff.ForwardReads

/-!
# A forward-only patch makes the new file

Piece by piece the encoder's streams make a longer beginning of the new file, and the records that
it writes never seek back.
-/

namespace Qbsdiff.Forward

open Slices

/-! ## 1. Records -/

section Records

variable {add copy seek : Nat} {ctrls more : Bytes}

theorem length_record : (record add copy seek).length = 24 := by
  simp [record]

theorem decodeInt_le {x : Nat} (h : x < 2 ^ 63) (rest : Bytes) :
    decodeInt (ByteStream.le 8 x ++ rest) = x := by
  have hvalue : ByteStream.ofLe (ByteStream.le 8 x) = x := ByteStream.ofLe_le (by omega)
  unfold decodeInt
  rw [List.take_left' (ByteStream.length_le 8 x), hvalue]
  dsimp only
  rw [if_pos (.inl h), asI64, if_pos h]

theorem asU64_natCast {x : Nat} (h : x < 2 ^ 63) : asU64 x = x := by
  unfold asU64
  omega

theorem decode_record (hadd : add < 2 ^ 63) (hcopy : copy < 2 ^ 63) (hseek : seek < 2 ^ 63) :
    Control.decode (record add copy seek) = ⟨add, copy, seek⟩ := by
  have hsecond : (record add copy seek).drop 8 = ByteStream.le 8 copy ++ ByteStream.le 8 seek := by
    rw [record, List.append_assoc, List.drop_left' (ByteStream.length_le 8 add)]
  have hthird : (record add copy seek).drop 16 = ByteStream.le 8 seek ++ [] := by
    rw [record, List.drop_left' (by simp), List.append_nil]
  unfold Control.decode
  rw [hsecond, hthird, record, List.append_assoc, decodeInt_le hadd, decodeInt_le hcopy,
    decodeInt_le hseek, asU64_natCast hadd, asU64_natCast hcopy]

theorem controls_record (hadd : add < 2 ^ 63) (hcopy : copy < 2 ^ 63) (hseek : seek < 2 ^ 63) :
    controls (record add copy seek ++ more) = ⟨add, copy, seek⟩ :: controls more := by
  have hlength : 24 ≤ (record add copy seek ++ more).length := by
    rw [List.length_append, length_record]
    exact Nat.le_add_right 24 _
  rw [controls_cons hlength, List.take_left' length_record, List.drop_left' length_record,
    decode_record hadd hcopy hseek]

/-- Whole records, and more. -/
theorem controls_append (h : ctrls.length % 24 = 0) :
    controls (ctrls ++ more) = controls ctrls ++ controls more := by
  induction hn : ctrls.length / 24 generalizing ctrls with
  | zero =>
    have hnil : ctrls = [] := List.eq_nil_of_length_eq_zero (by omega)
    rw [hnil]
    rfl
  | succ n ih =>
    have hlength : 24 ≤ ctrls.length := by omega
    have hmore : 24 ≤ (ctrls ++ more).length := by
      rw [List.length_append]
      omega
    have hdrop : (ctrls.drop 24).length = ctrls.length - 24 := List.length_drop
    rw [controls_cons hmore, controls_cons hlength, List.take_append_of_le_length hlength,
      List.drop_append_of_le_length hlength, ih (by omega) (by omega), List.cons_append]

end Records

theorem addBytes_subBytes {xs ys : Bytes} (h : xs.length = ys.length) :
    addBytes xs (subBytes ys xs) = ys := by
  induction xs generalizing ys with
  | nil =>
    rw [List.eq_nil_of_length_eq_zero h.symm]
    rfl
  | cons x xs ih =>
    cases ys with
    | nil => cases h
    | cons y ys =>
      have hbyte : x + (y - x) = y := by
        rw [UInt8.add_comm, UInt8.sub_add_cancel]
      show (x + (y - x)) :: addBytes xs (subBytes ys xs) = y :: ys
      rw [hbyte, ih (Nat.succ.inj h)]

/-! ## 2. The encoder -/

/-- The streams so far make the first `target` bytes of the new file, whatever follows in them, and
have come as far as `source` in the old one. -/
structure Encodes (files : Files) (s : Encoder) : Prop where
  source_le : s.source ≤ files.old.length
  target_le : s.target ≤ files.new.length
  aligned : s.streams.ctrl.length % 24 = 0
  ahead : Ahead files.old.length (controls s.streams.ctrl) 0
  pos : posAfter (controls s.streams.ctrl) 0 = s.source
  patch : ∀ delta extra, patchControls files.old (controls s.streams.ctrl)
    ⟨s.streams.delta ++ delta, s.streams.extra ++ extra, 0⟩ =
      (files.new.take s.target, some ⟨delta, extra, s.source⟩)

section Encode

variable {files : Files} {s s' : Encoder} {r : Match} {kept pieces : List Match}

theorem encodes_start (files : Files) : Encodes files ⟨⟨[], [], []⟩, 0, 0⟩ where
  source_le := Nat.zero_le _
  target_le := Nat.zero_le _
  aligned := rfl
  ahead := trivial
  pos := rfl
  patch _ _ := rfl

theorem take_slice {xs : Bytes} {n k : Nat} (h : n ≤ k) :
    xs.take n ++ slice xs n (k - n) = xs.take k := by
  rw [slice, ← List.take_add, Nat.add_sub_cancel' h]

/-- A record that only copies. -/
theorem patch_literal {source : Bytes} {literal delta extra : Bytes} {pos : Int} {seek : Nat} :
    patchControls source [⟨0, literal.length, seek⟩] ⟨delta, literal ++ extra, pos⟩ =
      (literal, some ⟨delta, extra, pos + seek⟩) := by
  have hsupplied : Supplied source ⟨0, literal.length, seek⟩ ⟨delta, literal ++ extra, pos⟩ :=
    ⟨fun h => absurd h (Nat.lt_irrefl 0), Nat.zero_le _, by
      rw [List.length_append]
      exact Nat.le_add_right _ _⟩
  rw [patchControls_supplied hsupplied]
  simp [patchControls, Control.next, addBytes]

/-- A record that only adds the difference of two slices. -/
theorem patch_piece {source bytes delta extra : Bytes} {pos : Nat}
    (h : pos + bytes.length ≤ source.length) :
    patchControls source [⟨bytes.length, 0, 0⟩]
        ⟨subBytes bytes (slice source pos bytes.length) ++ delta, extra, pos⟩ =
      (bytes, some ⟨delta, extra, pos + bytes.length⟩) := by
  have hslice := length_slice h
  have hdiff : (subBytes bytes (slice source pos bytes.length)).length = bytes.length := by
    rw [subBytes, List.length_zipWith, hslice, Nat.min_self]
  have hsupplied : Supplied source ⟨bytes.length, 0, 0⟩
      ⟨subBytes bytes (slice source pos bytes.length) ++ delta, extra, pos⟩ :=
    ⟨fun _ => ⟨Int.natCast_nonneg pos, (by omega : (pos : Int) + bytes.length ≤ _)⟩, by
      rw [List.length_append, hdiff]
      exact Nat.le_add_right _ _, Nat.zero_le _⟩
  rw [patchControls_supplied hsupplied]
  dsimp only
  rw [Int.toNat_natCast, List.take_left' hdiff, addBytes_subBytes hslice]
  simp [patchControls, Control.next, List.drop_left' hdiff]

/-- The two records of a piece, behind what there is. -/
theorem emit_ok (h : Encodes files s) (hsource : s.source ≤ r.source)
    (htarget : s.target ≤ r.target) (hold : r.source + r.len ≤ files.old.length)
    (hnew : r.target + r.len ≤ files.new.length) :
    ∃ s', emit files.old files.new s r = .ok s' ∧ s'.source = r.source + r.len ∧
      s'.target = r.target + r.len ∧ Encodes files s' := by
  obtain ⟨hsle, htle, haligned, hahead, hpos, hpatch⟩ := h
  have hshort := files.old_short
  have hshort' := files.new_short
  have hcontrols : controls (s.streams.ctrl ++
      (record 0 (r.target - s.target) (r.source - s.source) ++ record r.len 0 0)) =
      controls s.streams.ctrl ++ ([⟨0, r.target - s.target, (r.source - s.source : Nat)⟩] ++
        [⟨r.len, 0, 0⟩]) := by
    rw [controls_append haligned, controls_record (by omega) (by omega) (by omega),
      ← List.append_nil (record r.len 0 0), controls_record (by omega) (by omega) (by omega)]
    rfl
  have hgap : (slice files.new s.target (r.target - s.target)).length = r.target - s.target :=
    length_slice (by omega)
  have hpiece : (slice files.new r.target r.len).length = r.len := length_slice hnew
  have hmoved : (s.source : Int) + (r.source - s.source : Nat) = r.source := by omega
  let streams : Streams := {
    ctrl := s.streams.ctrl ++
      (record 0 (r.target - s.target) (r.source - s.source) ++ record r.len 0 0)
    extra := s.streams.extra ++ slice files.new s.target (r.target - s.target)
    delta := s.streams.delta ++
      subBytes (slice files.new r.target r.len) (slice files.old r.source r.len) }
  refine ⟨⟨streams, r.source + r.len, r.target + r.len⟩, ?_, rfl, rfl, hold, hnew, ?_, ?_, ?_,
    fun delta extra => ?_⟩
  · unfold emit
    rw [require_ok ⟨hsource, htarget⟩]
    show (do require .slice (r.target ≤ _); _) = _
    rw [require_ok (by omega)]
    show (do require .slice (_ ∧ _); _) = _
    rw [require_ok ⟨hnew, hold⟩]
    rfl
  · dsimp only
    rw [List.length_append, List.length_append, length_record, length_record]
    omega
  · dsimp only
    rw [hcontrols, ahead_append, hpos]
    refine ⟨hahead, ?_⟩
    simp only [List.singleton_append, Ahead, and_true]
    omega
  · dsimp only
    rw [hcontrols, posAfter_append, hpos]
    simp only [List.singleton_append, posAfter]
    omega
  · dsimp only
    rw [hcontrols, List.append_assoc, List.append_assoc, patchControls_append, hpatch]
    dsimp only
    have hliteral := @patch_literal files.old (slice files.new s.target (r.target - s.target))
      (subBytes (slice files.new r.target r.len) (slice files.old r.source r.len) ++ delta) extra
      s.source (r.source - s.source)
    have hadded := @patch_piece files.old (slice files.new r.target r.len) delta extra r.source
      (by rw [hpiece]; exact hold)
    rw [hgap, hmoved] at hliteral
    rw [hpiece] at hadded
    rw [patchControls_append, hliteral]
    dsimp only
    rw [hadded]
    dsimp only
    rw [← List.append_assoc, take_slice htarget, slice, ← List.take_add]
    rfl

/-- A piece lies behind what has been encoded. -/
def Behind (s : Encoder) (r : Match) : Prop := s.source ≤ r.source ∧ s.target ≤ r.target

theorem emitAll_ok (h : Encodes files s)
    (hwithin : ∀ r ∈ kept, r.Within files.old.length files.new.length)
    (hbehind : ∀ r ∈ kept, Behind s r)
    (hforward : kept.Pairwise fun r r' => r.source + r.len ≤ r'.source)
    (hbefore : kept.Pairwise Match.Before) :
    ∃ s', kept.foldlM (emit files.old files.new) s = .ok s' ∧ Encodes files s' := by
  induction kept generalizing s with
  | nil => exact ⟨s, rfl, h⟩
  | cons r kept ih =>
    obtain ⟨hsource, htarget⟩ := hbehind r List.mem_cons_self
    obtain ⟨hold, hnew⟩ := hwithin r List.mem_cons_self
    obtain ⟨hnext, hforward⟩ := List.pairwise_cons.1 hforward
    obtain ⟨hafter, hbefore⟩ := List.pairwise_cons.1 hbefore
    obtain ⟨s', hemit, hs', ht', hencodes⟩ := emit_ok h hsource htarget hold hnew
    obtain ⟨s'', hall, hlast⟩ := ih hencodes
      (fun r' hr' => hwithin r' (List.mem_cons_of_mem _ hr'))
      (fun r' hr' => ⟨hs' ▸ hnext r' hr', ht' ▸ hafter r' hr'⟩) hforward hbefore
    refine ⟨s'', ?_, hlast⟩
    rw [List.foldlM_cons, hemit]
    exact hall

theorem foldlM_index {selected : List Nat}
    (h : selected.map (fun i => pieces[i]?) = kept.map some) :
    selected.foldlM (fun s i => do emit files.old files.new s (← index pieces i)) s =
      kept.foldlM (emit files.old files.new) s := by
  induction selected generalizing kept s with
  | nil =>
    obtain rfl : kept = [] := List.map_eq_nil_iff.1 h.symm
    rfl
  | cons i selected ih =>
    cases kept with
    | nil => cases h
    | cons r kept =>
      rw [List.map_cons, List.map_cons] at h
      obtain ⟨hr, hrest⟩ := List.cons.inj h
      rw [List.foldlM_cons, List.foldlM_cons, index_ok hr]
      show (emit files.old files.new s r >>= _) = _
      cases emit files.old files.new s r with
      | error e => rfl
      | ok s' => exact ih hrest

theorem finish_ok (h : Encodes files s) : ∃ streams, finish files.new s = .ok streams ∧
    Ahead files.old.length (controls streams.ctrl) 0 ∧ streams.ctrl.length % 24 = 0 ∧
    ∃ place, patchControls files.old (controls streams.ctrl) ⟨streams.delta, streams.extra, 0⟩ =
      (files.new, some place) := by
  obtain ⟨hsle, htle, haligned, hahead, hpos, hpatch⟩ := h
  have hshort := files.new_short
  have hcontrols : controls (s.streams.ctrl ++ record 0 (files.new.length - s.target) 0) =
      controls s.streams.ctrl ++ [⟨0, files.new.length - s.target, (0 : Nat)⟩] := by
    rw [controls_append haligned, ← List.append_nil (record _ _ _),
      controls_record (by omega) (by omega) (by omega)]
    rfl
  have hliteral := @patch_literal files.old (files.new.drop s.target) [] [] s.source 0
  rw [List.length_drop, List.append_nil] at hliteral
  let streams : Streams := {
    ctrl := s.streams.ctrl ++ record 0 (files.new.length - s.target) 0
    extra := s.streams.extra ++ files.new.drop s.target
    delta := s.streams.delta }
  refine ⟨streams, ?_, ?_, ?_, ⟨[], [], s.source + (0 : Nat)⟩, ?_⟩
  · unfold finish
    rw [require_ok htle]
    rfl
  · show Ahead _ (controls (_ ++ _)) 0
    rw [hcontrols, ahead_append, hpos]
    refine ⟨hahead, ?_⟩
    simp only [Ahead, and_true]
    omega
  · show (_ ++ _ : Bytes).length % 24 = 0
    rw [List.length_append, length_record]
    omega
  · have hdone := hpatch [] (files.new.drop s.target)
    rw [List.append_nil] at hdone
    show patchControls _ (controls (_ ++ _)) _ = _
    rw [hcontrols, patchControls_append, hdone]
    dsimp only
    rw [hliteral, List.take_append_drop]

/-- The encoder's records go forward, and its streams make the new file. -/
theorem encode_ok {selected : List Nat} (hkept : Longest pieces kept)
    (hpieces : Arranged files.old.length files.new.length pieces)
    (hselected : selected.reverse.map (fun i => pieces[i]?) = kept.map some) :
    ∃ streams, encode files.old files.new pieces selected = .ok streams ∧
      Ahead files.old.length (controls streams.ctrl) 0 ∧ streams.ctrl.length % 24 = 0 ∧
      ∃ place, patchControls files.old (controls streams.ctrl)
        ⟨streams.delta, streams.extra, 0⟩ = (files.new, some place) := by
  obtain ⟨emitted, hemit, hencodes⟩ := emitAll_ok (encodes_start files)
    (fun r hr => hpieces.within r (hkept.sublist.subset hr))
    (fun r _ => ⟨Nat.zero_le _, Nat.zero_le _⟩) hkept.forward
    (hpieces.before.sublist hkept.sublist)
  obtain ⟨streams, hfinish, hstreams⟩ := finish_ok hencodes
  refine ⟨streams, ?_, hstreams⟩
  unfold encode
  rw [foldlM_index hselected, hemit]
  exact hfinish

end Encode

/-! ## 3. The whole patch -/

section Build

variable {B : Build} {files : Files} {s : Streams} {place : Place}

/-- The records make as many bytes as they say. -/
theorem length_made {source out : Bytes} {cs : List Control} {s s' : Place}
    (h : patchControls source cs s = (out, some s')) : out.length = total cs := by
  induction cs generalizing s out with
  | nil =>
    cases h
    rfl
  | cons ctrl cs ih =>
    by_cases hsupplied : Supplied source ctrl s
    · rw [patchControls_supplied hsupplied] at h
      obtain ⟨rfl, hnext⟩ := Prod.mk.inj h
      obtain ⟨hadd, hcopy⟩ := length_supplied hsupplied
      have hrest := ih (s := ctrl.next s) (Prod.ext rfl hnext)
      rw [List.length_append, List.length_append, hadd, hcopy, hrest, total_cons]
    · have hnone := @patchControls_none _ cs _ _ hsupplied
      rw [h] at hnone
      cases hnone

/-- A patch that only goes forward and is complete is applied to its end. -/
theorem apply_of_ahead {input : Input} {out : Bytes}
    (hahead : Ahead input.source.length (controls input.ctrls) 0)
    (htotal : total (controls input.ctrls) < 2 ^ 64) (hreference : reference input = (out, true)) :
    ∃ count m, apply B input = (.ok count, m) ∧ m.target = out := by
  have hideal := ideal_of_fits (B := B) (fits_of_ahead hahead htotal)
  unfold Ideal at hideal
  rw [hreference] at hideal
  revert hideal
  rcases apply B input with ⟨outcome, m⟩
  cases outcome with
  | ok count => exact fun hmade => ⟨count, m, rfl, hmade.2.1⟩
  | err e => exact fun hincomplete => absurd hincomplete.1 nofun
  | panic p => exact False.elim

/-- What the check finds of streams that go forward and make the new file. -/
theorem verify_ok (hahead : Ahead files.old.length (controls s.ctrl) 0)
    (haligned : s.ctrl.length % 24 = 0)
    (hpatch : patchControls files.old (controls s.ctrl) ⟨s.delta, s.extra, 0⟩ =
      (files.new, some place)) :
    reference (s.input files) = (files.new, true) ∧ ∃ reads, verify B files s = .ok reads := by
  have hzero : InSource files.old.length 0 := ⟨Int.le_refl 0, Int.natCast_nonneg _⟩
  have hreference : reference (s.input files) = (files.new, true) := by
    unfold reference Streams.input
    dsimp only
    rw [hpatch, haligned]
    rfl
  obtain ⟨source, hseeks⟩ := @applySeeks_forward B _
    (atLeast128 (s.input files).bufferSize) (s.input files).scratch.length _ _ ⟨0, 0⟩
    files.old_short hzero hahead (Int.le_refl 0)
  have htotal : total (controls s.ctrl) < 2 ^ 64 := by
    have hshort := files.new_short
    rw [← length_made hpatch]
    omega
  have hfits : Fits B (s.input files) := by
    refine fits_of_ahead ?_ ?_
    · exact hahead
    · exact htotal
  obtain ⟨count, m, happly, htarget⟩ :=
    @apply_of_ahead B (s.input files) _ hahead htotal hreference
  refine ⟨hreference, source.reads, ?_⟩
  unfold verify
  dsimp only
  rw [show (s.input files).ctrls = s.ctrl from rfl, hseeks, happly]
  exact if_pos htarget

/-- From whatever the matcher hands over, the build makes streams whose plain reading is the new
file and whose records only go forward in the old one. The check of them neither finds a backward
read nor anything else, and no other choice of pieces that goes forward is longer. -/
theorem build_forward (B : Build) (files : Files) (cs : List Control)
    (h : Handed B.overflowChecks files cs) :
    ∃ built, build B.overflowChecks files.old files.new cs = .ok built ∧
      reference (built.streams.input files) = (files.new, true) ∧
      Ahead files.old.length (controls built.streams.ctrl) 0 ∧
      (∃ reads, verify B files built.streams = .ok reads) ∧
      ∃ kept, built.selected.reverse.map (fun i => built.pieces[i]?) = kept.map some ∧
        Longest built.pieces kept := by
  obtain ⟨collected, hcollect, htarget, harranged⟩ :=
    collectAll_ok (s := ⟨[], 0, 0⟩) (by decide : FitsI64 0) h.inside h.fits
      (by rw [Nat.zero_add, h.total_eq]) ⟨nofun, .nil⟩
  obtain ⟨selected, kept, hselect, hmap, hlongest⟩ := select_ok collected.pieces
  obtain ⟨streams, hencode, hahead, haligned, place, hpatch⟩ :=
    encode_ok hlongest harranged hmap
  obtain ⟨hreference, hverify⟩ := verify_ok (B := B) hahead haligned hpatch
  refine ⟨⟨collected.pieces, selected, streams⟩, ?_, hreference, hahead, hverify, kept, hmap,
    hlongest⟩
  unfold build
  rw [hcollect]
  show (do require .wrongControlTargetSize (_ = _); _) = _
  rw [require_ok htarget]
  show (do let _ ← select _; _) = _
  rw [hselect]
  show (do let _ ← encode _ _ _ _; _) = _
  rw [hencode]
  rfl

/-- Two blocks that change places, and a seek back between them. -/
theorem build_forward_swapped :
    Handed true ⟨[1, 2, 3, 4], [3, 4, 9, 1, 2], by decide, by decide⟩
        [⟨0, 0, 2⟩, ⟨2, 1, -4⟩, ⟨2, 0, 0⟩] ∧
      ∃ built, build true [1, 2, 3, 4] [3, 4, 9, 1, 2] [⟨0, 0, 2⟩, ⟨2, 1, -4⟩, ⟨2, 0, 0⟩] =
        .ok built :=
  have hhanded : Handed true ⟨[1, 2, 3, 4], [3, 4, 9, 1, 2], by decide, by decide⟩
      [⟨0, 0, 2⟩, ⟨2, 1, -4⟩, ⟨2, 0, 0⟩] :=
    { inside := ⟨nofun, fun _ => by decide, fun _ => by decide, trivial⟩
      total_eq := rfl
      fits := fun _ => ⟨by decide, by decide, by decide, by decide, by decide, by decide, trivial⟩ }
  ⟨hhanded, (build_forward (insertionBuild true) _ _ hhanded).imp fun _ hbuilt => hbuilt.1⟩

end Build

end Qbsdiff.Forward
