import GlobeTexture.Gather
import GlobeTexture.Nearest
import GlobeTexture.Projection
import GlobeTexture.Tile.Plan

/-! # Resampling

Redraws a texture in another projection, on a canvas of the same size: the middle of each cell is taken to
the globe by the target projection and from there to the source, and the pixel nearest to that position is
copied. -/

namespace GlobeTexture

namespace Resample

/-- The position on the source that the pixel of a cell is taken from. Where the target projection has no
    answer, the cell stands for itself. -/
def position (source target : Projection) (k : Canvas) (c : Cell) : Point :=
  match target.inverse? ((target.square.ofCanvas k).apply c.middle) with
  | none => c.corner
  | some g => (source.square.toCanvas k).apply (source.forward g)

/-- Each cell reads the cell nearest to its position on the source; all tiles are treated alike. -/
def route (source target : Projection) (k : Canvas) : Route Unit where
  mode? _ := some ()
  address? _ c := k.nearest? (position source target k c)

end Resample

/-- Redraws the pixels of a source, from the projection `source` to the projection `target`. -/
def resample {α : Type} [Pixel α] (src : Source α) (source target : Projection) (tileSize : Nat) :
    Traced (Raster α) := do
  let tiles ← Traced.lift (Tile.plan src.canvas (.square tileSize))
  Traced.emit (.note (.resampling src.canvas tiles.length))
  let ⟨storable⟩ ← Traced.require (src.canvas.Storable (Pixel.bytes α))
  let found ← gather src tiles (Resample.route source target src.canvas)
  return (Raster.replicate src.canvas storable default).paint found.pixels

end GlobeTexture
