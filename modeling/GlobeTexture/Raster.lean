import GlobeTexture.Canvas
import GlobeTexture.Pixel

/-! # Rasters

A raster holds one pixel for each cell of its canvas, row by row. It exists only on a canvas whose pixels can
be stored. -/

namespace GlobeTexture

/-- Pixels on a canvas. -/
structure Raster (α : Type) [Pixel α] where
  canvas : Canvas
  pixels : Array α
  size_pixels : pixels.size = canvas.area
  storable : canvas.Storable (Pixel.bytes α)
deriving DecidableEq

namespace Raster

variable {α : Type} [Pixel α]

/-- The pixel of a cell, if the cell is on the canvas. -/
def get? (r : Raster α) (c : Cell) : Option α :=
  if c ∈ r.canvas then r.pixels[r.canvas.offset c]? else none

/-- The raster of one pixel everywhere. -/
def replicate (k : Canvas) (h : k.Storable (Pixel.bytes α)) (a : α) : Raster α where
  canvas := k
  pixels := .replicate k.area a
  size_pixels := Array.size_replicate
  storable := h

/-- The raster with a given pixel at each cell. -/
def ofFn (k : Canvas) (h : k.Storable (Pixel.bytes α)) (f : Cell → α) : Raster α where
  canvas := k
  pixels := .ofFn fun i : Fin k.area => f ⟨i % k.width, i / k.width⟩
  size_pixels := Array.size_ofFn
  storable := h

/-- Changes the pixel of a cell, and nothing if the cell is off the canvas. -/
def set (r : Raster α) (c : Cell) (a : α) : Raster α where
  canvas := r.canvas
  pixels := if c ∈ r.canvas then r.pixels.setIfInBounds (r.canvas.offset c) a else r.pixels
  size_pixels := by split <;> simp [r.size_pixels]
  storable := r.storable

/-- Changes pixels one after the other. -/
def paint (r : Raster α) (writes : List (Cell × α)) : Raster α :=
  writes.foldl (fun r w => r.set w.1 w.2) r

/-- Changes every pixel by a function, to pixels that can be stored. -/
def map {β : Type} [Pixel β] (f : α → β) (r : Raster α) (h : r.canvas.Storable (Pixel.bytes β)) : Raster β where
  canvas := r.canvas
  pixels := r.pixels.map f
  size_pixels := by simp [r.size_pixels]
  storable := h

@[simp] theorem canvas_set (r : Raster α) (c : Cell) (a : α) : (r.set c a).canvas = r.canvas :=
  rfl

@[simp] theorem canvas_paint (r : Raster α) (writes : List (Cell × α)) : (r.paint writes).canvas = r.canvas := by
  induction writes generalizing r with
  | nil => rfl
  | cons w ws ih => exact (ih (r.set w.1 w.2)).trans rfl

theorem get?_of_mem {r : Raster α} {c : Cell} (h : c ∈ r.canvas) : r.get? c = r.pixels[r.canvas.offset c]? := by
  simp [get?, h]

/-- Changing the pixel of a cell of the canvas changes that pixel only. -/
theorem get?_set {r : Raster α} {c : Cell} (hc : c ∈ r.canvas) (a : α) (d : Cell) :
    (r.set c a).get? d = if d = c then some a else r.get? d := by
  by_cases hd : d ∈ r.canvas
  · have hlt := Canvas.offset_lt_area hc
    simp only [get?, set, hc, hd, ↓reduceIte, Array.getElem?_setIfInBounds, Canvas.offset_inj hc hd,
      r.size_pixels, hlt]
    by_cases h : d = c
    · simp [h]
    · simp [h, Ne.symm h]
  · have hne : d ≠ c := fun h => hd (h ▸ hc)
    simp [get?, hd, hne]

theorem get?_replicate {k : Canvas} (hk : k.Storable (Pixel.bytes α)) {c : Cell} (h : c ∈ k) (a : α) :
    (replicate k hk a).get? c = some a := by
  simp [get?, replicate, h, Canvas.offset_lt_area h]

theorem get?_ofFn {k : Canvas} (hk : k.Storable (Pixel.bytes α)) {c : Cell} (h : c ∈ k) (f : Cell → α) :
    (ofFn k hk f).get? c = some (f c) := by
  simp [get?, ofFn, h, Canvas.offset_lt_area h, Canvas.offset_mod h, Canvas.offset_div h]

theorem get?_map {β : Type} [Pixel β] (f : α → β) (r : Raster α) (h : r.canvas.Storable (Pixel.bytes β)) (c : Cell) :
    (r.map f h).get? c = (r.get? c).map f := by
  by_cases hc : c ∈ r.canvas <;> simp [get?, map, hc]

/-- Rasters of one size with the same pixels are equal. -/
theorem ext_get? {r s : Raster α} (hk : r.canvas = s.canvas) (h : ∀ c ∈ r.canvas, r.get? c = s.get? c) : r = s := by
  obtain ⟨k, p, hp, _⟩ := r
  obtain ⟨k', q, hq, _⟩ := s
  obtain rfl : k = k' := hk
  suffices p = q by simp [this]
  refine Array.ext (hp.trans hq.symm) fun i hi _ => ?_
  obtain ⟨c, hc, rfl⟩ := Canvas.exists_offset (hp ▸ hi)
  have := h c hc
  simp only [get?, hc, ↓reduceIte] at this
  simpa [Array.getElem?_eq_getElem, hp, hq, Canvas.offset_lt_area hc] using this

theorem get?_eq_none_iff {r : Raster α} {c : Cell} : r.get? c = none ↔ c ∉ r.canvas := by
  simp only [get?]
  split
  · rename_i h
    simp [h, r.size_pixels, Canvas.offset_lt_area h]
  · simp_all

end Raster

/-- A raster seen as it is or with columns and rows exchanged; the pixels are not copied. -/
structure View (α : Type) [Pixel α] where
  raster : Raster α
  transposed : Bool

namespace View

variable {α : Type} [Pixel α]

/-- The canvas that is seen. -/
def canvas (v : View α) : Canvas :=
  if v.transposed then v.raster.canvas.transpose else v.raster.canvas

/-- The pixel that is seen at a cell. -/
def get? (v : View α) (c : Cell) : Option α :=
  if v.transposed then v.raster.get? c.swap else v.raster.get? c

end View

namespace Raster

variable {α : Type} [Pixel α]

/-- The raster as it is. -/
def view (r : Raster α) : View α :=
  ⟨r, false⟩

/-- The raster with columns and rows exchanged. -/
def transposedView (r : Raster α) : View α :=
  ⟨r, true⟩

end Raster

end GlobeTexture
