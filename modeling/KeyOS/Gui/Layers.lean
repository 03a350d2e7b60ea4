import Mathlib

/-!
# Composited layers

The display controller blends four layers, from the bottom up. Only the ones in slots 1 and 2 can
be scaled, and only one of them at a time. `push` puts a layer into the first slot that it may take;
when there is none, it drops the lowest layer of low priority.

The texts of the log are left out, as is the physical address that the hardware build keeps with a
DMA range.
-/

namespace Gui

def maxLayers : Nat := 4

structure MemoryRange where
  addr : UInt32
  size : UInt32
deriving DecidableEq

inductive SourceType where
  | dma (range : MemoryRange)
  | color (r g b : UInt8)
deriving DecidableEq

inductive LayerPixelFormat where
  | argb8888
  | rgb565
deriving DecidableEq

structure Layer where
  src : SourceType
  srcWidth : UInt32
  srcHeight : UInt32
  cropX : UInt32
  cropY : UInt32
  cropWidth : UInt32
  cropHeight : UInt32
  dstX : UInt32
  dstY : UInt32
  dstWidth : UInt32
  dstHeight : UInt32
  pixelFormat : LayerPixelFormat
  alpha : UInt8
  lowPriority : Bool
deriving DecidableEq

namespace Layer

def newSingleColor (r g b : UInt8) (width height : UInt32) : Layer where
  src := .color r g b
  srcWidth := width
  srcHeight := height
  cropX := 0
  cropY := 0
  cropWidth := width
  cropHeight := height
  dstX := 0
  dstY := 0
  dstWidth := width
  dstHeight := height
  pixelFormat := .argb8888
  alpha := 255
  lowPriority := false

def withDstSize (layer : Layer) (width height : UInt32) : Layer :=
  { layer with dstWidth := width, dstHeight := height }

def isScaled (layer : Layer) : Bool :=
  layer.cropWidth ≠ layer.dstWidth ∨ layer.cropHeight ≠ layer.dstHeight

def isEmpty (layer : Layer) : Bool :=
  layer.cropWidth = 0 ∨ layer.cropHeight = 0 ∨ layer.dstWidth = 0 ∨ layer.dstHeight = 0

end Layer

/-! ## 1. Pushing a layer -/

/-- `[Option<Layer>; MAX_LAYERS]`, the bottom first. -/
structure LayerStack where
  layers : List (Option Layer)
  length_eq : layers.length = maxLayers
deriving DecidableEq

/-- What the loop over the slots comes to. -/
inductive Search where
  | placed (layers : List (Option Layer))
  /-- There is a scaled layer already. -/
  | skipped
  | noRoom
deriving DecidableEq

namespace Search

/-- The slots below the ones that were searched. -/
def above (below : List (Option Layer)) : Search → Search
  | placed layers => placed (below ++ layers)
  | skipped => skipped
  | noRoom => noRoom

end Search

/-- The loop of `push` from slot `i` on. A free slot that cannot scale is passed over. -/
def search (layer : Layer) : Nat → List (Option Layer) → Search
  | _, [] => .noRoom
  | i, some o :: rest =>
    if o.isScaled && layer.isScaled then .skipped else (search layer (i + 1) rest).above [some o]
  | i, none :: rest =>
    if i ≠ 1 ∧ i ≠ 2 ∧ layer.isScaled then (search layer (i + 1) rest).above [none]
    else .placed (some layer :: rest)

/-- `slice::copy_within(start.., dest)` -/
def copyWithin {α : Type} (xs : List α) (start dest : Nat) : List α :=
  xs.take dest ++ xs.drop start ++ xs.drop (dest + (xs.length - start))

/-- `lo.map_or(true, |l| l.low_priority)` -/
def isReplaceable (lo : Option Layer) : Bool := lo.all (·.lowPriority)

/-- The array after `push`. -/
def pushed (layers : List (Option Layer)) (layer : Layer) : List (Option Layer) :=
  if layer.isEmpty then layers
  else
    match search layer 0 layers with
    | .placed layers => layers
    | .skipped => layers
    | .noRoom =>
      match layers.findIdx? isReplaceable with
      | some lowPrioLayer =>
        (copyWithin layers (lowPrioLayer + 1) lowPrioLayer).set (layers.length - 1) (some layer)
      | none => layers

theorem length_search {layer : Layer} {i : Nat} {layers found : List (Option Layer)}
    (h : search layer i layers = .placed found) : found.length = layers.length := by
  induction layers generalizing i found with
  | nil => cases h
  | cons lo rest ih =>
    have above_length : ∀ below, (search layer (i + 1) rest).above [below] = .placed found →
        found.length = (lo :: rest).length := by
      intro below hplaced
      cases hsearch : search layer (i + 1) rest with
      | placed above =>
        rw [hsearch] at hplaced
        cases hplaced
        simp [ih hsearch]
      | skipped => simp [hsearch, Search.above] at hplaced
      | noRoom => simp [hsearch, Search.above] at hplaced
    cases lo with
    | some o =>
      simp only [search] at h
      split at h
      · cases h
      · exact above_length _ h
    | none =>
      simp only [search] at h
      split at h
      · exact above_length _ h
      · cases h
        rfl

/-- The layers above the dropped one move down, and the new one is on top. -/
theorem copyWithin_set {α : Type} {xs : List α} {p : Nat} (x : α) (hp : p < xs.length) :
    (copyWithin xs (p + 1) p).set (xs.length - 1) x = xs.eraseIdx p ++ [x] := by
  obtain ⟨below, top, rfl⟩ : ∃ below top, xs = below ++ [top] := by
    have hne : xs ≠ [] := by
      intro h
      simp [h] at hp
    exact ⟨xs.dropLast, xs.getLast hne, (List.dropLast_append_getLast hne).symm⟩
  have hlen : (below ++ [top]).length - 1 = below.length := by simp
  have hrest : p + ((below ++ [top]).length - (p + 1)) = below.length := by
    simp at hp ⊢
    omega
  have hkept : ((below ++ [top]).take p ++ (below ++ [top]).drop (p + 1)).length = below.length := by
    simp at hp ⊢
    omega
  rw [copyWithin, hrest, hlen, List.eraseIdx_eq_take_drop_succ, List.set_append_right _ _ (by omega),
    hkept]
  simp

theorem length_pushed (layers : List (Option Layer)) (layer : Layer) :
    (pushed layers layer).length = layers.length := by
  unfold pushed
  split
  · rfl
  · split
    next found hsearch => exact length_search hsearch
    next => rfl
    next =>
      split
      next p hp =>
        have hlt := (List.findIdx?_eq_some_iff_getElem.1 hp).1
        rw [copyWithin_set _ hlt, List.length_append, List.length_eraseIdx_of_lt hlt]
        simp
        omega
      next => rfl

namespace LayerStack

/-- `LayerStack::default()` -/
def default : LayerStack := ⟨List.replicate maxLayers none, rfl⟩

def push (stack : LayerStack) (layer : Layer) : LayerStack :=
  ⟨pushed stack.layers layer, (length_pushed stack.layers layer).trans stack.length_eq⟩

def pushAll (pushes : List Layer) : LayerStack := pushes.foldl push default

/-- The occupied slots from the bottom up. -/
def occupied (stack : LayerStack) : List Layer := stack.layers.filterMap id

/-- Every slot holds a layer that is not of low priority. -/
def Crowded (stack : LayerStack) : Prop :=
  ∀ lo ∈ stack.layers, ∃ layer, lo = some layer ∧ layer.lowPriority = false

/-- The scaling rule keeps the layer out: there is a scaled one already. -/
def Excludes (stack : LayerStack) (layer : Layer) : Prop :=
  layer.isScaled = true ∧ ∃ o ∈ stack.occupied, o.isScaled = true

end LayerStack

end Gui
