import GlobeTexture.Name
import GlobeTexture.Projection.Equirectangular
import GlobeTexture.Projection.Hammer
import GlobeTexture.Projection.Mercator

/-! # The catalog of projections -/

namespace GlobeTexture

/-- The projections that have a name. -/
inductive MapKind where
  | equirectangular
  | mercator
  | hammer
deriving DecidableEq, Repr

namespace MapKind

/-- The names, with the projection that each stands for. -/
def names : List (String × MapKind) :=
  [("hammer", hammer), ("hammer-aitoff", hammer), ("mercator", mercator),
   ("equirectangular", equirectangular), ("polar", equirectangular)]

/-- The projection of a name, without regard to case. -/
def ofName? (s : String) : Option MapKind :=
  (names.find? fun entry => entry.1.toList == Name.lower s).map Prod.snd

/-- The projection itself. -/
def projection : MapKind → Projection
  | equirectangular => Equirectangular.projection
  | mercator => Mercator.projection
  | hammer => Hammer.projection

end MapKind

end GlobeTexture
