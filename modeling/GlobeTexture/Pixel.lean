/-! # Pixels -/

namespace GlobeTexture

/-- What can be the pixel of a raster: there is a blank one, the default, and each takes the same number of
    bytes. -/
class Pixel (α : Type) extends Inhabited α where
  bytes : Nat

/-- A pixel of 32 bits, whatever they mean. -/
instance : Pixel UInt32 where
  bytes := 4

end GlobeTexture
