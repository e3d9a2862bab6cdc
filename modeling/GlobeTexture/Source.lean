import GlobeTexture.Fault
import GlobeTexture.Raster
import GlobeTexture.Traced

/-! # Pixel sources

A source gives pixels on demand. It states its size, and each read gives a pixel or a fault. Neither is
taken on trust: a read inside the stated size may fail. -/

namespace GlobeTexture

/-- What pixels are read from. -/
structure Source (α : Type) where
  canvas : Canvas
  read : Cell → Except Fault α

namespace Source

variable {α : Type}

/-- One read of a source. -/
def fetch (s : Source α) (c : Cell) : Traced α :=
  ⟨[.read c], Failure.ofExcept (s.read c)⟩

/-- The source with some of its reads failing. -/
def failing (s : Source α) (faults : Cell → Option Fault) : Source α where
  canvas := s.canvas
  read c :=
    match faults c with
    | some f => .error f
    | none => s.read c

/-- The source with another stated size. -/
def claiming (s : Source α) (k : Canvas) : Source α where
  canvas := k
  read := s.read

end Source

/-- A raster as a source: reads off the canvas fail. -/
def Raster.source {α : Type} [Pixel α] (r : Raster α) : Source α where
  canvas := r.canvas
  read c := (r.get? c).elim (.error (.outOfBounds c)) .ok

/-- A view as a source: reads off the canvas that is seen fail. -/
def View.source {α : Type} [Pixel α] (v : View α) : Source α where
  canvas := v.canvas
  read c := (v.get? c).elim (.error (.outOfBounds c)) .ok

end GlobeTexture
