import GlobeTexture.Gather
import GlobeTexture.Nearest
import GlobeTexture.Projection.Hammer
import GlobeTexture.Tile.Plan
import GlobeTexture.Walk

/-! # Seamless Hammer textures

A Hammer texture has a picture only inside its disc. This pass keeps the cells inside and gives every other
cell the pixel that the picture continues with across the rim, so that copies of the texture join without a
seam. Such a pixel is looked for from where the fold sends the cell, and inward from there to a cell that
is itself kept, so a second pass changes nothing. A tile whose corners are all inside is copied unseen. -/

namespace GlobeTexture

/-- Sends each plane position whose picture lies elsewhere to where it lies. -/
abbrev Fold := Point → Option Point

namespace Seamless

/-- The fold at the upper left corner of a cell. -/
def foldCell (fold? : Fold) (k : Canvas) (c : Cell) : Option Point :=
  fold? ((Square.signedUnit.ofCanvas k).apply c.corner)

/-- Whether a cell holds its own picture. -/
def inside (fold? : Fold) (k : Canvas) (c : Cell) : Bool :=
  (foldCell fold? k c).isNone

/-- Whether all corners of a tile are inside. -/
def tileInside? (fold? : Fold) (k : Canvas) (t : Tile) : Option Bool :=
  t.corners?.map fun corners => corners.all (inside fold? k)

/-- The cell whose pixel a cell gets: itself if it is inside, and else the first cell inside on the way
    inward from where it is sent. -/
def origin? (fold? : Fold) (k : Canvas) (c : Cell) : Option Cell :=
  match foldCell fold? k c with
  | none => some c
  | some q => (k.nearest? ((Square.signedUnit.toCanvas k).apply q)).map (k.inward (inside fold? k))

/-- A tile with all corners inside is copied; in every other tile each cell gets its own origin. -/
def route (fold? : Fold) (k : Canvas) : Route Bool where
  mode? := tileInside? fold? k
  address? copied c := if copied then some c else origin? fold? k c

end Seamless

/-- Fills the cells whose picture lies elsewhere. -/
def seamless {α : Type} [Pixel α] (fold? : Fold) (src : Source α) (tileSize : Nat) : Traced (Raster α) := do
  let tiles ← Traced.lift (Tile.plan src.canvas (.square tileSize))
  let ⟨storable⟩ ← Traced.require (src.canvas.Storable (Pixel.bytes α))
  let found ← gather src tiles (Seamless.route fold? src.canvas)
  Traced.emit (.note (.filled src.canvas tiles.length (found.modes.count true)))
  return (Raster.replicate src.canvas storable default).paint found.pixels

end GlobeTexture
