import GlobeTexture.Projection
import GlobeTexture.Projection.Singular

/-! # Hammer projection

The equal-area map of the globe on the disc inscribed in the signed unit square. The parts of the square
outside the disc show nothing of their own: sent to the globe and back, a position there lands on the
place of the disc whose picture continues across the rim. -/

namespace GlobeTexture.Hammer

/-- The square root of two. -/
def sqrtTwo : Float := 1.4142135623730951

/-- With `z² = 1 + cos lat * cos (lon / 2)`: `x = cos lat * sin (lon / 2) / z` and `y = sin lat / z`. -/
def forward (g : GeoPoint) : Point :=
  let z := (Singular.offZero (1.0 + g.lat.cos * (g.lon / 2.0).cos)).sqrt
  ⟨g.lat.cos * (g.lon / 2.0).sin / z, g.lat.sin / z⟩

/-- With `z² = 1 - x² / 2 - y² / 2`: `lon = 2 atan (√2 x z / (2 z² - 1))` and `lat = asin (√2 y z)`. The
    corners of the square go to the origin of the globe, and where the denominator is zero, on the rim of
    the disc, there is no answer. -/
def inverse? (p : Point) : Option GeoPoint :=
  if p.x.abs == 1.0 && p.y.abs == 1.0 then
    some ⟨0.0, 0.0⟩
  else
    let z2 := 1.0 - p.x * p.x / 2.0 - p.y * p.y / 2.0
    let d := 2.0 * z2 - 1.0
    if d == 0.0 then
      none
    else
      let z := z2.sqrt
      some ⟨Singular.arcsin (sqrtTwo * p.y * z), 2.0 * (sqrtTwo * p.x * z / d).atan⟩

/-- Where the picture at a position really lies: `none` if the position holds it itself, and otherwise
    the position it is sent to through the globe. -/
def fold? (p : Point) : Option Point :=
  match inverse? p with
  | none => none
  | some g =>
    let q := forward g
    if Singular.coincide p q then none else some q

/-- The Hammer projection. -/
def projection : Projection where
  square := .signedUnit
  forward := forward
  inverse? := inverse?

end GlobeTexture.Hammer
