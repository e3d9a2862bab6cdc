import GlobeTexture.Fault
import GlobeTexture.Raster

/-! # Layers

A layer is a named raster of fixed size. -/

namespace GlobeTexture

/-- A named raster. -/
structure Layer (α : Type) [Pixel α] where
  name : String
  pixels : Raster α
deriving DecidableEq

/-- The layer with new pixels of the same size, and the pixels it had before. -/
def Layer.replace {α : Type} [Pixel α] (l : Layer α) (pixels : Raster α) : Except Fault (Layer α × Raster α) :=
  if pixels.canvas = l.pixels.canvas then
    .ok ({ l with pixels := pixels }, l.pixels)
  else
    .error (.sizeMismatch pixels.canvas l.pixels.canvas)

end GlobeTexture
