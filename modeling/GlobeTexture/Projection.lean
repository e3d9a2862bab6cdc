import GlobeTexture.Plane

/-! # Projections

A projection maps the globe into a square and back. Where its inverse has no answer, the plane position
stands for itself. -/

namespace GlobeTexture

/-- A place on the globe, in radians. -/
structure GeoPoint where
  lat : Float
  lon : Float

/-- A way to draw the globe on a square. -/
structure Projection where
  square : Square
  forward : GeoPoint → Point
  /-- The place under a plane position; `none` where the position stands for itself. -/
  inverse? : Point → Option GeoPoint

namespace Angle

/-- Half a turn. -/
def pi : Float := 3.141592653589793

/-- A whole turn. -/
def turn : Float := 2.0 * pi

/-- A quarter of a turn. -/
def halfPi : Float := 1.5707963267948966

end Angle

end GlobeTexture
