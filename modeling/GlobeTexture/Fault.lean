import GlobeTexture.Canvas

/-! # Faults

A fault is a failure that an operation reports: its cause, and the text that a user reads. Beside the
faults stands the failure of leaving the range of words, which nothing reports and nothing recovers
from. -/

namespace GlobeTexture

/-- The causes of a reported failure. -/
inductive Fault where
  /-- Tiles with a side of length zero. -/
  | zeroTile
  /-- A read off the raster. -/
  | outOfBounds (cell : Cell)
  /-- New pixels for a layer of another size. -/
  | sizeMismatch (replacement layer : Canvas)
  /-- A failure of a pixel source, in its own words. -/
  | unreadable (detail : String)
deriving DecidableEq, Repr

namespace Fault

/-- What went wrong. Sizes are given as height and width. -/
def detail : Fault → String
  | zeroTile => "Tile size must be > 0"
  | outOfBounds c => s!"pixel ({c.col}, {c.row}) out of bounds"
  | sizeMismatch r l =>
    s!"replacement raster ({r.height}, {r.width}) does not match layer ({l.height}, {l.width})"
  | unreadable d => d

/-- The text of the fault for a user. -/
def message (f : Fault) : String :=
  "Computation failure: " ++ f.detail

end Fault

/-- Why a computation has no result. -/
inductive Failure where
  | fault (f : Fault)
  /-- A length, an index or a count does not fit a word. -/
  | outOfRange
deriving DecidableEq, Repr

namespace Failure

/-- A value that is there, or the failure of leaving the range. -/
def ofOption {α : Type} : Option α → Except Failure α
  | some a => .ok a
  | none => .error .outOfRange

/-- An outcome that can only fail by a fault. -/
def ofExcept {α : Type} : Except Fault α → Except Failure α
  | .ok a => .ok a
  | .error f => .error (.fault f)

@[simp] theorem ofOption_eq_ok_iff {α : Type} {o : Option α} {a : α} : ofOption o = .ok a ↔ o = some a := by
  cases o <;> simp [ofOption]

theorem ofOption_eq_outOfRange_iff {α : Type} {o : Option α} : ofOption o = .error .outOfRange ↔ o = none := by
  cases o <;> simp [ofOption]

@[simp] theorem ofExcept_eq_ok_iff {α : Type} {x : Except Fault α} {a : α} : ofExcept x = .ok a ↔ x = .ok a := by
  cases x <;> simp [ofExcept]

theorem map_eq_ok_iff {α β : Type} {f : α → β} {x : Except Failure α} {b : β} :
    x.map f = .ok b ↔ ∃ a, x = .ok a ∧ f a = b := by
  cases x <;> simp [Except.map]

theorem map_eq_error_iff {α β : Type} {f : α → β} {x : Except Failure α} {e : Failure} :
    x.map f = .error e ↔ x = .error e := by
  cases x <;> simp [Except.map]

theorem exists_eq_ok_of_ofOption_ne {α : Type} {o : Option α} (h : ofOption o ≠ .error .outOfRange) :
    ∃ a, ofOption o = .ok a := by
  cases o with
  | none => exact absurd rfl h
  | some a => exact ⟨a, rfl⟩

end Failure

end GlobeTexture
