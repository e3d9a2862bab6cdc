import GlobeTexture.Canvas

/-! # Planes

The plane of a projection is a square, and an affine map ties it to the pixels of a canvas: a cell is
mapped by its upper left corner, so the first cell lies on the low edges of the square. The products and
sums are rounded one after the other, from left to right. -/

namespace GlobeTexture

/-- A point of a plane, or a fractional position on a canvas. -/
structure Point where
  x : Float
  y : Float

/-- The square that a projection fills. -/
inductive Square where
  /-- From -1 to 1 along each axis. -/
  | signedUnit
  /-- From 0 to 1 along each axis. -/
  | unit
deriving DecidableEq, Repr

/-- The map from `(x, y)` to `(a x + b y + c, d x + e y + f)`. -/
structure AffineMap where
  a : Float
  b : Float
  c : Float
  d : Float
  e : Float
  f : Float

/-- The image of a point. -/
def AffineMap.apply (m : AffineMap) (p : Point) : Point :=
  ⟨m.a * p.x + m.b * p.y + m.c, m.d * p.x + m.e * p.y + m.f⟩

/-- The upper left corner of a cell. -/
def Cell.corner (c : Cell) : Point :=
  ⟨.ofNat c.col, .ofNat c.row⟩

/-- The middle of a cell. -/
def Cell.middle (c : Cell) : Point :=
  ⟨.ofNat c.col + 0.5, .ofNat c.row + 0.5⟩

namespace Square

/-- The map from positions on a canvas to the square. -/
def ofCanvas (s : Square) (k : Canvas) : AffineMap :=
  let w := Float.ofNat k.width
  let h := Float.ofNat k.height
  match s with
  | signedUnit => ⟨2.0 / w, 0.0, -1.0, 0.0, 2.0 / h, -1.0⟩
  | unit => ⟨1.0 / w, 0.0, 0.0, 0.0, 1.0 / h, 0.0⟩

/-- The map from the square to positions on a canvas. -/
def toCanvas (s : Square) (k : Canvas) : AffineMap :=
  let w := Float.ofNat k.width
  let h := Float.ofNat k.height
  match s with
  | signedUnit => ⟨w / 2.0, 0.0, w / 2.0, 0.0, h / 2.0, h / 2.0⟩
  | unit => ⟨w, 0.0, 0.0, 0.0, h, 0.0⟩

end Square

end GlobeTexture
