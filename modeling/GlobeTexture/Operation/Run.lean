import GlobeTexture.Layer
import GlobeTexture.Projection.Catalog
import GlobeTexture.Resample
import GlobeTexture.Seamless

/-! # Running operations

An operation runs in a transaction of its host. If it succeeds the transaction is committed; if it meets a
fault, the fault is noted and reported before the transaction is given up. -/

namespace GlobeTexture

/-- The side of a tile unless another is asked for. -/
def defaultTileSize : Nat := 64

/-- How an operation is carried out. -/
structure Options where
  /-- The side of the tiles in which the canvas is worked through. -/
  tileSize : Nat := defaultTileSize
deriving DecidableEq, Repr

namespace Operation

variable {α : Type} [Pixel α]

/-- The raster that an operation makes of a source. -/
def draw (op : Operation) (src : Source α) (options : Options) : Traced (Raster α) :=
  match op with
  | hammerTile => seamless Hammer.fold? src options.tileSize
  | polarToHammer => resample src Equirectangular.projection Hammer.projection options.tileSize
  | polarToMercator => resample src Equirectangular.projection Mercator.projection options.tileSize

/-- What follows a fault in an operation. -/
def abandon (op : Operation) (f : Fault) : List Event :=
  [.note (.abandoned op f), .call (.remarked (.error f.message))]

/-- Carries out a step of an operation in a transaction. -/
def conclude {β : Type} (op : Operation) (work : Traced β) : Traced β :=
  (work.onFault op.abandon).guarded

/-- Runs an operation on a source. -/
def run (op : Operation) (src : Source α) (options : Options) : Traced (Raster α) := do
  Traced.emit (.note (.running op src.canvas))
  op.conclude (op.draw src options)

/-- The layer that an operation makes of a layer. -/
def applied (op : Operation) (l : Layer α) (options : Options) : Traced (Layer α) := do
  Traced.emit (.note (.applying op l.name))
  op.conclude do
    let pixels ← op.draw l.pixels.view.source options
    let (l, _) ← Traced.lift (Failure.ofExcept (l.replace pixels))
    return l

end Operation

namespace Layer

variable {α : Type} [Pixel α]

/-- The layer after some work on it: what the work made of it, or the layer as it was. -/
def after (l : Layer α) (work : Traced (Layer α)) : Layer α :=
  match work.result with
  | .ok l' => l'
  | .error _ => l

/-- The layer redrawn in another projection, without a transaction. -/
def resampled (l : Layer α) (source target : Projection) (tileSize : Nat) : Traced (Layer α) := do
  let pixels ← resample l.pixels.source source target tileSize
  let (l, _) ← Traced.lift (Failure.ofExcept (l.replace pixels))
  return l

end Layer

end GlobeTexture
