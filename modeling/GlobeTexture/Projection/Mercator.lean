import GlobeTexture.Projection

/-! # Mercator projection

The spherical Mercator map on the unit square. The square ends at the latitudes where the map is as high
as it is wide, about 85 degrees; places nearer to the poles lie above or below it. -/

namespace GlobeTexture.Mercator

/-- `x = lon / 2π + 1/2` and `y = ln (tan ((lat + π/2) / 2)) / 2π + 1/2`. -/
def forward (g : GeoPoint) : Point :=
  ⟨g.lon / Angle.turn + 0.5, ((g.lat + Angle.halfPi) / 2.0).tan.log / Angle.turn + 0.5⟩

/-- `lon = 2π (x - 1/2)` and `lat = 2 atan (exp (2π (y - 1/2))) - π/2`. -/
def inverse (p : Point) : GeoPoint :=
  ⟨2.0 * ((p.y - 0.5) * 2.0 * Angle.pi).exp.atan - Angle.halfPi, Angle.turn * (p.x - 0.5)⟩

/-- The Mercator projection. -/
def projection : Projection where
  square := .unit
  forward := forward
  inverse? p := some (inverse p)

end GlobeTexture.Mercator
