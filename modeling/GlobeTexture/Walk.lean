import GlobeTexture.Canvas

/-! # Walking inward

A walk goes from a cell towards the middle of the canvas, one step at a time along each axis, and ends at
the first cell that is accepted, or in the middle. -/

namespace GlobeTexture

/-- One step from `v` towards `target`. -/
def stepTowards (v target : Nat) : Nat :=
  if v < target then v + 1 else if target < v then v - 1 else v

namespace Cell

/-- One step towards `target` along each axis. -/
def stepTowards (c target : Cell) : Cell :=
  ⟨GlobeTexture.stepTowards c.col target.col, GlobeTexture.stepTowards c.row target.row⟩

/-- The number of steps from `c` to `d`, the larger of the distances along the axes. -/
def steps (c d : Cell) : Nat :=
  max (c.col - d.col + (d.col - c.col)) (c.row - d.row + (d.row - c.row))

/-- At most `n` steps towards `target`, ending early at an accepted cell. -/
def walk (accept : Cell → Bool) (target : Cell) : (n : Nat) → Cell → Cell
  | 0, c => c
  | n + 1, c => if accept c then c else walk accept target n (c.stepTowards target)

end Cell

/-- The first accepted cell on the way from `c` to the middle of the canvas, or else the middle. -/
def Canvas.inward (k : Canvas) (accept : Cell → Bool) (c : Cell) : Cell :=
  Cell.walk accept k.center (c.steps k.center) c

end GlobeTexture
