import GlobeTexture.Fault
import GlobeTexture.Tile

/-! # Planning tiles

A canvas is cut into tiles of one size, band after band from the top and from left to right in a band.
The tiles at the right and the lower edge are clipped. Every position that the cutting reaches, the one
past the edge of the canvas included, has to be a word, and the tiles have to fit one block of storage. -/

namespace GlobeTexture

/-- The height and the width of an unclipped tile. -/
structure TileSize where
  height : Nat
  width : Nat
deriving DecidableEq, Repr

/-- The size of a square tile. -/
def TileSize.square (side : Nat) : TileSize :=
  ⟨side, side⟩

namespace Span

/-- How many spans of length `size` it takes to cover `length` indices. -/
def count (length size : Nat) : Nat :=
  (length + size - 1) / size

/-- Goes through the next spans of length `size` between `start` and `stop`, at most `n` of them and the last
    one clipped, and stops where `f` has no answer. -/
def cutFrom? {σ : Type} (size stop : Nat) (f : σ → Span → Option σ) : (n start : Nat) → σ → Option σ
  | 0, _, s => some s
  | n + 1, start, s =>
    if start < stop then do
      let reached ← Word.add? start size
      let s ← f s ⟨start, min reached stop⟩
      cutFrom? size stop f n (min reached stop) s
    else
      some s

/-- Goes through the spans of length `size` that cover the indices below `stop`. A span is not empty, so
    there are at most `stop` of them. -/
def cut? {σ : Type} (size stop : Nat) (f : σ → Span → Option σ) (s : σ) : Option σ :=
  cutFrom? size stop f stop 0 s

end Span

namespace Tile

/-- The tiles of a canvas after some others, row by row. -/
def cut? (k : Canvas) (size : TileSize) (tiles : Array Tile) : Option (Array Tile) :=
  Span.cut? size.height k.height (fun tiles rows =>
    Span.cut? size.width k.width (fun tiles cols => some (tiles.push ⟨rows, cols⟩)) tiles) tiles

/-- The tiles of a canvas, row by row, where `room` tells for how many tiles there is room. Room for all of them has to
    be found before the first is cut. -/
def planIn (room : Nat → Prop) [DecidablePred room] (k : Canvas) (size : TileSize) : Except Failure (List Tile) :=
  if size.height = 0 ∨ size.width = 0 then
    .error (.fault .zeroTile)
  else
    Failure.ofOption do
      let total ← Word.mul? (Span.count k.height size.height) (Span.count k.width size.width)
      if room total then (cut? k size (.emptyWithCapacity total)).map Array.toList else none

/-- The tiles of a canvas, where the room is one block of storage. -/
def plan (k : Canvas) (size : TileSize) : Except Failure (List Tile) :=
  planIn (Word.Fits · bytes) k size

end Tile

end GlobeTexture
