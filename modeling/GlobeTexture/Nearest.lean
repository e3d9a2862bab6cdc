import GlobeTexture.Plane
import GlobeTexture.Source
import GlobeTexture.Word.Floor

/-! # The nearest cell

A fractional position belongs to the cell it lies in, and a position off the canvas to the nearest cell at
its edge. There is no such cell on a canvas without cells, and none is found along a side whose length is
not a positive signed word. -/

namespace GlobeTexture

/-- The index along a side of length `len` that is nearest to the floor of `v`. -/
def nearestIndex? (v : Float) (len : Nat) : Option Nat := do
  let last ← Word.pred? (Word.signed len)
  if 0 ≤ last then some (max 0 (min (Word.floor v) last)).toNat else none

/-- The cell nearest to a position. -/
def Canvas.nearest? (k : Canvas) (p : Point) : Option Cell := do
  let col ← nearestIndex? p.x k.width
  let row ← nearestIndex? p.y k.height
  return ⟨col, row⟩

/-- The pixel of a cell, where the cell may be out of range. -/
def Source.fetch? {α : Type} (s : Source α) : Option Cell → Traced α
  | some c => s.fetch c
  | none => Traced.lift (.error .outOfRange)

/-- The pixel of the cell nearest to a position. -/
def Source.sample {α : Type} (s : Source α) (p : Point) : Traced α :=
  s.fetch? (s.canvas.nearest? p)

end GlobeTexture
