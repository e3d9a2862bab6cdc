import GlobeTexture.Source
import GlobeTexture.Tile

/-! # Gathering pixels

A pass over the tiles of a canvas that fills each cell from one cell of a source. A route says which: it
settles for each tile how to treat it, and then for each cell of the tile where to read. Tiles and cells
are taken in order, the fraction of finished tiles is reported from zero on, and the first read that fails
ends the pass. -/

namespace GlobeTexture

/-- Where a pass reads the pixel of each cell. The answer is `none` where it leaves the range of words. -/
structure Route (μ : Type) where
  /-- How to treat a tile. -/
  mode? : Tile → Option μ
  /-- The cell to read for a cell of a tile that is treated in this way. -/
  address? : μ → Cell → Option Cell

/-- A pass under way: what it has done, how it treated the tiles it came to, and the pixels it has. -/
structure Pass (μ α : Type) where
  events : Array Event
  modes : Array μ
  pixels : Array (Cell × α)

/-- The end of a pass that failed: what it had done, and why it ended. -/
structure Stop where
  events : Array Event
  failure : Failure

namespace Pass

variable {μ α : Type}

/-- A pass that has not yet come to a tile. -/
def start : Pass μ α :=
  ⟨#[.progress 0.0], #[], #[]⟩

/-- The pass after one more event. -/
def emit (p : Pass μ α) (e : Event) : Pass μ α :=
  { p with events := p.events.push e }

/-- Fills a cell. -/
def fillCell (src : Source α) (address? : Cell → Option Cell) (p : Pass μ α) (c : Cell) :
    Except Stop (Pass μ α) :=
  match address? c with
  | none => .error ⟨p.events, .outOfRange⟩
  | some d =>
    match src.read d with
    | .error f => .error ⟨p.events.push (.read d), .fault f⟩
    | .ok a => .ok ⟨p.events.push (.read d), p.modes, p.pixels.push (c, a)⟩

/-- Fills the cells of a tile, one of `total`, and reports the fraction of tiles that are finished. -/
def fillTile (src : Source α) (route : Route μ) (total : Nat) (p : Pass μ α) (t : Tile) :
    Except Stop (Pass μ α) :=
  match route.mode? t with
  | none => .error ⟨p.events, .outOfRange⟩
  | some m => do
    let p ← t.foldCells (fillCell src (route.address? m)) { p with modes := p.modes.push m }
    return p.emit (.progress (.ofNat p.modes.size / .ofNat total))

end Pass

/-- What a finished pass has: the treatment of each tile, and the pixel of each cell, both in order. -/
structure Gathered (μ α : Type) where
  modes : List μ
  pixels : List (Cell × α)

/-- A pass over some tiles. Without any tile the work is done at once. -/
def gather {μ α : Type} (src : Source α) (tiles : List Tile) (route : Route μ) : Traced (Gathered μ α) :=
  match tiles.foldlM (Pass.fillTile src route tiles.length) Pass.start with
  | .error s => ⟨s.events.toList, .error s.failure⟩
  | .ok p =>
    let p := if tiles.isEmpty then p.emit (.progress 1.0) else p
    ⟨p.events.toList, .ok ⟨p.modes.toList, p.pixels.toList⟩⟩

end GlobeTexture
