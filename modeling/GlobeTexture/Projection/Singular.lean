import GlobeTexture.Plane

/-! # Singular places

Near the poles, at the antimeridian and on the rim of the Hammer disc the formulas of a projection divide
by zero or leave their domain by a rounding error. The rules here give every such place a value. -/

namespace GlobeTexture.Singular

/-- Two plane positions are taken for one when their squared distance is below this. -/
def tolerance : Float := 1e-6

/-- What stands in for a denominator of exactly zero. -/
def nudge : Float := 1e-4

/-- The arc sine, with arguments beyond -1 and 1 moved to these ends. -/
def arcsin (t : Float) : Float :=
  (if t < -1.0 then -1.0 else if 1.0 < t then 1.0 else t).asin

/-- A denominator kept off zero. -/
def offZero (d : Float) : Float :=
  if d == 0.0 then nudge else d

/-- Whether two positions are near enough to be taken for one. -/
def coincide (p q : Point) : Bool :=
  let dx := q.x - p.x
  let dy := q.y - p.y
  dx * dx + dy * dy < tolerance

end GlobeTexture.Singular
