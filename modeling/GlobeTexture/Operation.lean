import GlobeTexture.Name

/-! # Operations

What can be done to a texture as a whole, by name. -/

namespace GlobeTexture

/-- The operations on a texture. -/
inductive Operation where
  /-- Fill a Hammer texture beyond the rim of its disc, so that copies of it join without a seam. -/
  | hammerTile
  /-- Redraw an equirectangular texture in the Hammer projection. -/
  | polarToHammer
  /-- Redraw an equirectangular texture in the Mercator projection. -/
  | polarToMercator
deriving DecidableEq, Repr

namespace Operation

/-- The operations in the order in which they are listed. -/
def all : List Operation :=
  [hammerTile, polarToHammer, polarToMercator]

/-- The name of an operation. -/
def name : Operation → String
  | hammerTile => "hammer-tile"
  | polarToHammer => "polar-to-hammer"
  | polarToMercator => "polar-to-mercator"

/-- The operation of a name, without regard to case and with low lines read as hyphens. -/
def ofName? (s : String) : Option Operation :=
  all.find? fun op => op.name.toList == Name.hyphenated (Name.lower s)

end Operation

end GlobeTexture
