import GlobeTexture.Projection

/-! # Equirectangular projection

Longitude and latitude are linear along the axes of the unit square, with the origin of the globe in the
middle. -/

namespace GlobeTexture.Equirectangular

/-- `x = lon / 2π + 1/2` and `y = lat / π + 1/2`. -/
def forward (g : GeoPoint) : Point :=
  ⟨g.lon / Angle.turn + 0.5, g.lat / Angle.pi + 0.5⟩

/-- `lon = 2π (x - 1/2)` and `lat = π (y - 1/2)`. -/
def inverse (p : Point) : GeoPoint :=
  ⟨Angle.pi * (p.y - 0.5), Angle.turn * (p.x - 0.5)⟩

/-- The equirectangular projection. -/
def projection : Projection where
  square := .unit
  forward := forward
  inverse? p := some (inverse p)

end GlobeTexture.Equirectangular
