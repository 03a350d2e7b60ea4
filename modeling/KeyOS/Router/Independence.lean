import KeyOS.Lib.Exec
import KeyOS.Router.Query

/-!
# What a route makes of its query

A part reads the fields before the first one without a key, and takes the fields from there on for
missing, whether their keys are there or not (`Part.deserializeStruct_spec`). So the order in which
the pairs stand does not matter, but the one in which the fields are declared does:
`deRoute_independent_iff` says exactly when the fields are independent of each other.
-/

namespace Router

open Exec

variable {P V : Type} {pairs : List (Text × Text)} {params : Params} {given : Text → Option Text}

/-! ## 1. The pairs of a query -/

/-- The text of a query of given pairs, each key once -/
structure IsQuery (pairs : List (Text × Text)) (query : Text) : Prop where
  text : query = '?' :: KeyValue.render '&' '=' pairs ∨ query = [] ∧ pairs = []
  keys_nodup : (pairs.map (·.1)).Nodup
  keys : ∀ p ∈ pairs, '&' ∉ p.1 ∧ '=' ∉ p.1 ∧ '?' ∉ p.1
  values : ∀ p ∈ pairs, '&' ∉ p.2

/-- What is given for a key -/
def lookup (pairs : List (Text × Text)) (key : Text) : Option Text := pairs.lookup key

/-- Under each key there is the value that is given for it. -/
def Holds (params : Params) (given : Text → Option Text) : Prop :=
  ∀ key, (params key).map (·.value) = given key

theorem insertParts_spec (pos : Nat) (params : Params) (hnodup : (pairs.map (·.1)).Nodup)
    (hkeys : ∀ p ∈ pairs, '=' ∉ p.1) :
    ∃ params', insertParts pos (pairs.map (KeyValue.pair '=')) params = .ok params' ∧
      ∀ key, (params' key).map (·.value) =
        (pairs.lookup key).or ((params key).map (·.value)) := by
  induction pairs generalizing pos params with
  | nil => exact ⟨params, rfl, fun key => rfl⟩
  | cons p pairs ih =>
    obtain ⟨key, value⟩ := p
    rw [List.map_cons, List.nodup_cons] at hnodup
    rw [List.map_cons, insertParts, KeyValue.splitOnce_pair (hkeys _ List.mem_cons_self)]
    obtain ⟨params', hrun, hparams⟩ := ih
      (pos + len (KeyValue.pair '=' (key, value)) + 1)
      (Function.update params key (some { value, position := pos + len key + 1 })) hnodup.2 fun p hp => hkeys p (List.mem_cons_of_mem _ hp)
    refine ⟨params', hrun, fun k => ?_⟩
    rw [hparams, List.lookup_cons]
    by_cases hk : k = key
    · -- the key does not come again
      have hnone : pairs.lookup k = none := by
        rw [List.lookup_eq_none_iff]
        intro p hp
        rw [bne_iff_ne]
        intro he
        exact hnodup.1 (List.mem_map.2 ⟨p, hp, he.symm.trans hk⟩)
      rw [hnone, hk]
      simp
    · rw [Function.update_of_ne hk, beq_eq_false_iff_ne.2 hk]

theorem readParams_spec {query : Text} (h : IsQuery pairs query) :
    ∃ params, readParams query = .ok params ∧ Holds params (lookup pairs) := by
  cases pairs with
  | nil =>
    have hquery : query = [] ∨ query = ['?'] := h.text.elim .inr fun hnil => .inl hnil.1
    exact ⟨_, if_pos hquery, fun key => rfl⟩
  | cons p rest =>
    obtain ⟨key, value⟩ := p
    have htext := h.text.resolve_right fun hnil => by cases hnil.2
    have hhead := KeyValue.head_render '&' '=' key value rest
    have hmark : key.headD '=' ≠ '?' := by
      have hkey := (h.keys _ List.mem_cons_self).2.2
      cases key with
      | nil => decide
      | cons c key => exact fun hc => hkey (hc ▸ List.mem_cons_self)
    have htrim : query.dropWhile (· = '?') = KeyValue.render '&' '=' ((key, value) :: rest) := by
      rw [htext]
      cases hr : KeyValue.render '&' '=' ((key, value) :: rest) with
      | nil => rfl
      | cons c text =>
        rw [hr, List.head?_cons] at hhead
        have hc : c ≠ '?' := by rwa [Option.some.inj hhead]
        simp [hc]
    have hne : ¬ (query = [] ∨ query = ['?']) := by
      rintro (hq | hq)
      · cases htext.symm.trans hq
      · have hnil := (List.cons.inj (htext.symm.trans hq)).2
        rw [hnil] at hhead
        cases hhead
    unfold readParams
    rw [if_neg hne, htrim, KeyValue.splitOn_render (by decide) (List.cons_ne_nil _ _)
      fun p hp => ⟨(h.keys p hp).1, h.values p hp⟩]
    obtain ⟨params, hrun, hparams⟩ := insertParts_spec _ (fun _ => none) h.keys_nodup
      fun p hp => (h.keys p hp).2.1
    exact ⟨params, hrun, fun k => (hparams k).trans (by simp [lookup])⟩

/-! ## 2. The fields of a part -/

namespace QueryField

/-- The value of a field: that of its key, or the default. -/
def value (given : Text → Option Text) (f : QueryField V) : V :=
  match given f.key with
  | none => f.default
  | some text =>
    match f.parse text with
    | .ok v => v
    | .error _ => f.default

/-- A value that is given for the field can be read. -/
def Parses (given : Text → Option Text) (f : QueryField V) : Prop :=
  ∀ text, given f.key = some text → ∃ v, f.parse text = .ok v

theorem parseAt_ok {f : QueryField V} {entry : QueryEntry} (hgiven : given f.key = some entry.value)
    (h : f.Parses given) : f.parseAt entry = .ok (f.value given) := by
  obtain ⟨v, hv⟩ := h entry.value hgiven
  simp only [parseAt, value, hgiven, hv]

theorem parseAt_error {f : QueryField V} {entry : QueryEntry}
    (hgiven : given f.key = some entry.value) (h : ¬ f.Parses given) :
    ∃ e, f.parseAt entry = .error e := by
  cases hp : f.parse entry.value with
  | error e => exact ⟨e entry.position, by simp only [parseAt, hp]⟩
  | ok v =>
    refine absurd (fun text htext => ?_) h
    obtain rfl := Option.some.inj (hgiven.symm.trans htext)
    exact ⟨v, hp⟩

end QueryField

/-- The fields before the first one without a key -/
def kept (given : Text → Option Text) (fields : List (QueryField V)) : List (QueryField V) :=
  fields.takeWhile fun f => (given f.key).isSome

/-- The fields from the first one without a key on -/
def dropped (given : Text → Option Text) (fields : List (QueryField V)) : List (QueryField V) :=
  fields.dropWhile fun f => (given f.key).isSome

theorem kept_append_dropped (given : Text → Option Text) (fields : List (QueryField V)) :
    kept given fields ++ dropped given fields = fields :=
  List.takeWhile_append_dropWhile

theorem kept_cons_of_some {f : QueryField V} {fields : List (QueryField V)} {text : Text}
    (h : given f.key = some text) : kept given (f :: fields) = f :: kept given fields := by
  simp [kept, h]

theorem kept_cons_of_none {f : QueryField V} {fields : List (QueryField V)}
    (h : given f.key = none) : kept given (f :: fields) = [] := by
  simp [kept, h]

/-- The loop fills the slots of the fields that it keeps, or fails at one of them. -/
theorem visitMap_spec (hparams : Holds params given) (fields : List (QueryField V))
    (slots : Slots V) (hnodup : (fields.map (·.key)).Nodup)
    (hslots : ∀ f ∈ fields, slots f.key = none) :
    (∀ f ∈ kept given fields, f.Parses given) ∧
      (∃ slots', visitMap params fields slots = .ok slots' ∧
        (∀ f ∈ kept given fields, slots' f.key = some (f.value given)) ∧
        ∀ key, (∀ f ∈ kept given fields, f.key ≠ key) → slots' key = slots key) ∨
    (¬ ∀ f ∈ kept given fields, f.Parses given) ∧
      ∃ e, visitMap params fields slots = .error e := by
  induction fields generalizing slots with
  | nil => exact .inl ⟨nofun, slots, rfl, nofun, fun _ _ => rfl⟩
  | cons f fields ih =>
    rw [List.map_cons, List.nodup_cons] at hnodup
    have hf := hparams f.key
    cases hentry : params f.key with
    | none =>
      rw [hentry] at hf
      rw [kept_cons_of_none hf.symm]
      exact .inl ⟨nofun, slots, by simp only [visitMap, hentry], nofun, fun _ _ => rfl⟩
    | some entry =>
      rw [hentry] at hf
      have hgiven : given f.key = some entry.value := hf.symm
      have hempty : (slots f.key).isSome = false := by simp [hslots f List.mem_cons_self]
      rw [kept_cons_of_some hgiven]
      by_cases hparse : f.Parses given
      · have hrun : visitMap params (f :: fields) slots =
            visitMap params fields (Function.update slots f.key (some (f.value given))) := by
          simp only [visitMap, hentry, hempty, QueryField.parseAt_ok hgiven hparse]
          rfl
        have hfresh : ∀ g ∈ fields, g.key ≠ f.key := fun g hg he =>
          hnodup.1 (List.mem_map.2 ⟨g, hg, he⟩)
        rw [hrun]
        rcases ih (Function.update slots f.key (some (f.value given))) hnodup.2 fun g hg => by
            rw [Function.update_of_ne (hfresh g hg)]
            exact hslots g (List.mem_cons_of_mem _ hg) with
          ⟨hall, slots', hok, hkept, hrest⟩ | ⟨hno, herr⟩
        · refine .inl ⟨List.forall_mem_cons.2 ⟨hparse, hall⟩, slots', hok,
            List.forall_mem_cons.2 ⟨?_, hkept⟩, fun key hkey => ?_⟩
          · rw [hrest f.key fun g hg => hfresh g ((List.takeWhile_sublist _).subset hg),
              Function.update_self]
          · rw [List.forall_mem_cons] at hkey
            rw [hrest key hkey.2, Function.update_of_ne (Ne.symm hkey.1)]
        · exact .inr ⟨fun hall => hno (List.forall_mem_cons.1 hall).2, herr⟩
      · obtain ⟨e, he⟩ := QueryField.parseAt_error hgiven hparse
        refine .inr ⟨fun hall => hparse (List.forall_mem_cons.1 hall).1, e, ?_⟩
        simp only [visitMap, hentry, hempty, he]
        rfl

theorem keys_disjoint (part : Part P V) {f g : QueryField V} (hf : f ∈ dropped given part.query)
    (hg : g ∈ kept given part.query) : g.key ≠ f.key := by
  have hnodup := part.keys_nodup
  rw [← kept_append_dropped given part.query, List.map_append, List.nodup_append] at hnodup
  exact hnodup.2.2 g.key (List.mem_map_of_mem hg) f.key (List.mem_map_of_mem hf)

namespace Part

/-- The values that are read parse, and a required part has all that it needs. -/
def Reads (given : Text → Option Text) (part : Part P V) : Prop :=
  (∀ f ∈ kept given part.query, f.Parses given) ∧
    (part.required = true → ∀ f ∈ dropped given part.query, f.ofMissing ≠ none)

/-- The struct of the query, of a part that can be read -/
def struct (given : Text → Option Text) (part : Part P V) : List (Option V) :=
  (kept given part.query).map (fun f => some (f.value given)) ++
    (dropped given part.query).map fun f => if part.required then f.ofMissing else none

theorem deserializeStruct_spec (hparams : Holds params given) (part : Part P V) :
    part.Reads given ∧ part.deserializeStruct params = .ok (part.struct given) ∨
      ¬ part.Reads given ∧ ∃ e, part.deserializeStruct params = .error e := by
  unfold deserializeStruct
  rcases visitMap_spec hparams part.query (fun _ => none) part.keys_nodup fun _ _ => rfl with
    ⟨hparse, slots, hrun, hkept, hrest⟩ | ⟨hparse, e, hrun⟩
  · rw [hrun]
    have hslotKept : ∀ f ∈ kept given part.query,
        part.slot slots f = .ok (some (f.value given)) := fun f hf => by
      simp only [slot, hkept f hf]
    have hnone : ∀ f ∈ dropped given part.query, slots f.key = none := fun f hf =>
      hrest f.key fun g hg => keys_disjoint part hf hg
    by_cases hmissing : part.required = true → ∀ f ∈ dropped given part.query, f.ofMissing ≠ none
    · refine .inl ⟨⟨hparse, hmissing⟩, ?_⟩
      have hslotDropped : ∀ f ∈ dropped given part.query,
          part.slot slots f = .ok (if part.required then f.ofMissing else none) := fun f hf => by
        simp only [slot, hnone f hf]
        split
        · next hreq =>
          obtain ⟨v, hv⟩ := Option.ne_none_iff_exists'.1 (hmissing hreq f hf)
          simp only [hv]
        · rfl
      show part.query.mapM (part.slot slots) = _
      have hsplit := kept_append_dropped given part.query
      unfold struct
      generalize kept given part.query = ks at hsplit hslotKept
      generalize dropped given part.query = ds at hsplit hslotDropped
      rw [← hsplit, List.mapM_append, mapM_ok hslotKept, mapM_ok hslotDropped]
      rfl
    · refine .inr ⟨fun h => hmissing h.2, ?_⟩
      obtain ⟨hreq, hf⟩ := Classical.not_imp.1 hmissing
      obtain ⟨f, hf⟩ := Classical.not_forall.1 hf
      obtain ⟨hf, hnot⟩ := Classical.not_imp.1 hf
      have hmem : f ∈ part.query := (List.dropWhile_sublist _).subset hf
      exact mapM_error hmem ⟨.message (.missingField f.key), by
        simp only [slot, hnone f hf, hreq, Classical.not_not.1 hnot, if_true]⟩
  · rw [hrun]
    exact .inr ⟨fun h => hparse h.1, e, rfl⟩

/-- The values of a part, as they come out where no field is required -/
def values (given : Text → Option Text) (part : Part P V) : List V :=
  (kept given part.query).map (·.value given) ++ (dropped given part.query).map (·.default)

theorem fromParts_struct (part : Part P V) (hreq : part.required = false) (p : P) :
    part.fromParts p (part.struct given) = (p, part.values given) := by
  have hsplit := kept_append_dropped given part.query
  unfold fromParts struct values
  congr 1
  generalize kept given part.query = ks at hsplit
  generalize dropped given part.query = ds at hsplit
  rw [← hsplit, List.zipWith_append (by simp)]
  simp only [List.zipWith_map_right, Option.getD_some, List.zipWith_self, hreq, Bool.false_eq_true,
    ↓reduceIte, Option.getD_none]

theorem values_eq_iff (part : Part P V) :
    part.values given = part.query.map (·.value given) ↔
      ∀ f ∈ dropped given part.query, f.value given = f.default := by
  have hsplit := kept_append_dropped given part.query
  unfold values
  generalize kept given part.query = ks at hsplit
  generalize dropped given part.query = ds at hsplit
  rw [← hsplit, List.map_append, List.append_right_inj, List.map_inj_left]
  exact ⟨fun h f hf => (h f hf).symm, fun h f hf => (h f hf).symm⟩

end Part

/-! ## 3. The parts of a route -/

theorem composedPath_length {size : Nat} {parts : List (Part P V)} {i : Nat} {de de' : Deserializer}
    {path : List P} (h : composedPath size i parts de = .ok (path, de')) :
    path.length = parts.length := by
  induction parts generalizing i de path with
  | nil =>
    cases h
    rfl
  | cons part parts ih =>
    unfold composedPath at h
    split at h
    · cases h
    · split at h
      · obtain ⟨⟨value, de₁⟩, -, h⟩ := bind_eq_ok.1 h
        obtain ⟨⟨values, de₂⟩, hrest, h⟩ := bind_eq_ok.1 h
        cases h
        rw [List.length_cons, List.length_cons, ih hrest]
      · cases h

theorem deserializePath_length {type : RouteType P V} {route rest : Text} {path : List P}
    (h : deserializePath type route = .ok (path, rest)) : path.length = type.parts.length := by
  unfold deserializePath at h
  cases type with
  | single part =>
    obtain ⟨⟨value, de⟩, -, h⟩ := bind_eq_ok.1 h
    cases h
    rfl
  | tuple parts =>
    obtain ⟨⟨values, de⟩, hvalues, h⟩ := bind_eq_ok.1 h
    cases h
    exact composedPath_length hvalues

theorem fromParts_map (parts : List (Part P V)) (path : List P)
    (g : Part P V → List (Option V)) :
    List.zipWith (fun part (pq : P × List (Option V)) => part.fromParts pq.1 pq.2) parts
        (path.zip (parts.map g)) =
      List.zipWith (fun part p => part.fromParts p (g part)) parts path := by
  induction parts generalizing path with
  | nil => rfl
  | cons part parts ih =>
    cases path with
    | nil => rfl
    | cons p path => simp [ih]

theorem zipWith_eq_iff {α β γ : Type} {f g : α → β → γ} {C : α → Prop} {as : List α} {bs : List β}
    (hlen : bs.length = as.length) (hfg : ∀ a ∈ as, ∀ b, f a b = g a b ↔ C a) :
    List.zipWith f as bs = List.zipWith g as bs ↔ ∀ a ∈ as, C a := by
  induction as generalizing bs with
  | nil => simp
  | cons a as ih =>
    cases bs with
    | nil => cases hlen
    | cons b bs =>
      rw [List.zipWith_cons_cons, List.zipWith_cons_cons, List.cons.injEq,
        ih (Nat.succ.inj hlen) (fun a ha => hfg a (List.mem_cons_of_mem _ ha)),
        List.forall_mem_cons, hfg a List.mem_cons_self]

theorem deserializeQuery_spec (type : RouteType P V) {query : Text} (h : IsQuery pairs query) :
    (∀ part ∈ type.parts, part.Reads (lookup pairs)) ∧
      deserializeQuery type query =
        .ok (type.parts.map fun part => part.struct (lookup pairs)) ∨
    (∃ part ∈ type.parts, ¬ part.Reads (lookup pairs)) ∧
      ∃ e, deserializeQuery type query = .error e := by
  obtain ⟨params, hrun, hparams⟩ := readParams_spec h
  unfold deserializeQuery
  rw [hrun]
  by_cases hall : ∀ part ∈ type.parts, part.Reads (lookup pairs)
  · refine .inl ⟨hall, mapM_ok fun part hpart => ?_⟩
    exact ((part.deserializeStruct_spec hparams).resolve_right fun hno =>
      hno.1 (hall part hpart)).2
  · obtain ⟨part, hno⟩ := Classical.not_forall.1 hall
    obtain ⟨hpart, hno⟩ := Classical.not_imp.1 hno
    refine .inr ⟨⟨part, hpart, hno⟩, mapM_error hpart ?_⟩
    exact ((part.deserializeStruct_spec hparams).resolve_left fun h => hno h.1).2

theorem deRoute_spec {type : RouteType P V} {route query : Text} {path : List P}
    (hpath : deserializePath type route = .ok (path, query)) (hquery : IsQuery pairs query) :
    (∀ part ∈ type.parts, part.Reads (lookup pairs)) ∧
      deRoute type route = .ok (List.zipWith
        (fun part p => part.fromParts p (part.struct (lookup pairs))) type.parts path) ∨
    (∃ part ∈ type.parts, ¬ part.Reads (lookup pairs)) ∧
      ∃ e, deRoute type route = .error e := by
  unfold deRoute
  rw [hpath]
  rcases deserializeQuery_spec type hquery with ⟨hall, hrun⟩ | ⟨hno, e, hrun⟩
  · refine .inl ⟨hall, ?_⟩
    rw [← fromParts_map]
    show (Except.mapError _ (deserializeQuery type query) >>= _) = _
    rw [hrun]
    rfl
  · refine .inr ⟨hno, e.shift (len route - len query), ?_⟩
    show (Except.mapError _ (deserializeQuery type query) >>= _) = _
    rw [hrun]
    rfl

/-! ## 4. Independence -/

/-- The fields do not depend on each other: where none is required, each has the value of its key or
its default; and a required one is not left out. -/
structure Independent (type : RouteType P V) (route : Text) (path : List P)
    (given : Text → Option Text) : Prop where
  optional : (∀ part ∈ type.parts, part.required = false) →
    (∀ part ∈ type.parts, ∀ f ∈ part.query, f.Parses given) →
    deRoute type route =
      .ok (List.zipWith (fun part p => (p, part.query.map (·.value given))) type.parts path)
  required : ∀ part ∈ type.parts, part.required = true → ∀ f ∈ part.query, given f.key = none →
    ∃ e, deRoute type route = .error e

/-- The fields of a route are independent if and only if no value of a field that is declared after
one without a key differs from the default, and the fields of a required part from the first one
without a key on do not all have a type with a value for that. -/
theorem deRoute_independent_iff {type : RouteType P V} {route query : Text} {path : List P}
    (hpath : deserializePath type route = .ok (path, query)) (hquery : IsQuery pairs query) :
    Independent type route path (lookup pairs) ↔
      ((∀ part ∈ type.parts, part.required = false) →
        (∀ part ∈ type.parts, ∀ f ∈ part.query, f.Parses (lookup pairs)) →
        ∀ part ∈ type.parts, ∀ f ∈ dropped (lookup pairs) part.query,
          f.value (lookup pairs) = f.default) ∧
      ((∃ part ∈ type.parts, part.required = true ∧ ∃ f ∈ part.query, lookup pairs f.key = none) →
        ∃ part ∈ type.parts, ¬ part.Reads (lookup pairs)) := by
  have hspec := deRoute_spec hpath hquery
  generalize lookup pairs = given at hspec ⊢
  -- what is read of a part without required fields, and what should be
  have hvalues (hreq : ∀ part ∈ type.parts, part.required = false) :
      List.zipWith (fun part p => part.fromParts p (part.struct given)) type.parts path =
        List.zipWith (fun part p => (p, part.query.map (·.value given))) type.parts path ↔
      ∀ part ∈ type.parts, ∀ f ∈ dropped given part.query, f.value given = f.default :=
    zipWith_eq_iff (deserializePath_length hpath) fun part hpart p => by
      rw [part.fromParts_struct (hreq part hpart), Prod.mk.injEq, part.values_eq_iff]
      exact and_iff_right rfl
  have hreads (hreq : ∀ part ∈ type.parts, part.required = false)
      (hparse : ∀ part ∈ type.parts, ∀ f ∈ part.query, f.Parses given) :
      ∀ part ∈ type.parts, part.Reads given := fun part hpart =>
    ⟨fun f hf => hparse part hpart f ((List.takeWhile_sublist _).subset hf), fun h => by
      rw [hreq part hpart] at h
      cases h⟩
  constructor
  · refine fun h => ⟨fun hreq hparse => ?_, ?_⟩
    · rcases hspec with ⟨-, hrun⟩ | ⟨⟨part, hpart, hno⟩, -⟩
      · exact (hvalues hreq).1 (Except.ok.inj (hrun.symm.trans (h.optional hreq hparse)))
      · exact absurd (hreads hreq hparse part hpart) hno
    · rintro ⟨part, hpart, hreq, f, hf, hnone⟩
      obtain ⟨e, he⟩ := h.required part hpart hreq f hf hnone
      rcases hspec with ⟨-, hrun⟩ | ⟨hno, -⟩
      · cases he.symm.trans hrun
      · exact hno
  · rintro ⟨hoptional, hrequired⟩
    refine ⟨fun hreq hparse => ?_, fun part hpart hreq f hf hnone => ?_⟩
    · rcases hspec with ⟨-, hrun⟩ | ⟨⟨part, hpart, hno⟩, -⟩
      · rw [hrun, (hvalues hreq).2 (hoptional hreq hparse)]
      · exact absurd (hreads hreq hparse part hpart) hno
    · rcases hspec with ⟨hall, -⟩ | ⟨-, herr⟩
      · obtain ⟨part', hpart', hno⟩ := hrequired ⟨part, hpart, hreq, f, hf, hnone⟩
        exact absurd (hall part' hpart') hno
      · exact herr

/-- A flag of a query, which is off without its key -/
def flag (key : String) : QueryField Bool where
  key := key.toList
  parse text :=
    if text = "true".toList then .ok true
    else if text = "false".toList then .ok false
    else .error fun position =>
      .parse position (.unexpectedStr text ["true".toList, "false".toList])
  default := false
  ofMissing := none

/-- A route `/home` with two flags -/
def home : RouteType Unit Bool := .single {
  path := fun de =>
    if de.input.take 5 = "/home".toList then
      .ok ((), { input := de.input.drop 5, position := de.position + 5, checkpoint := de.position + 1 })
    else .error (.message (.invalidValue de.input))
  query := [flag "developer", flag "dark"]
  required := false
  keys_nodup := by decide }

theorem home_query (key : Text) (hkey : '&' ∉ key ∧ '=' ∉ key ∧ '?' ∉ key) :
    IsQuery [(key, "true".toList)] ('?' :: KeyValue.pair '=' (key, "true".toList)) where
  text := .inl (by simp [KeyValue.render])
  keys_nodup := by simp
  keys := by simpa using hkey
  values := by simp

theorem deRoute_independent_iff_home :
    Independent home "/home?developer=true".toList [()]
      (lookup [("developer".toList, "true".toList)]) := by
  refine (deRoute_independent_iff (by rfl) (home_query "developer".toList (by decide))).2
    ⟨fun _ _ => by decide, ?_⟩
  rintro ⟨part, hpart, hreq, -⟩
  have hoptional : ∀ part ∈ home.parts, part.required = false := by decide
  rw [hoptional part hpart] at hreq
  cases hreq

/-- The key of the second flag is not seen, since there is none for the first. -/
theorem dark_dropped :
    deRoute home "/home?dark=true".toList = .ok [((), [false, false])] ∧
    ¬ Independent home "/home?dark=true".toList [()] (lookup [("dark".toList, "true".toList)]) := by
  have hrun : deRoute home "/home?dark=true".toList = .ok [((), [false, false])] := by rfl
  refine ⟨hrun, fun h => ?_⟩
  have hset := h.optional (by decide) fun part hpart f hf text htext => ?_
  · have hlists := Except.ok.inj (hrun.symm.trans hset)
    revert hlists
    decide
  · obtain rfl := List.mem_singleton.1 hpart
    have hflags : f = flag "developer" ∨ f = flag "dark" := by simpa using hf
    rcases hflags with rfl | rfl
    · cases htext
    · obtain rfl : "true".toList = text := Option.some.inj htext
      exact ⟨true, rfl⟩

end Router
