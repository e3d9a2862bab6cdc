import GlobeTexture.Canvas

/-! # Tiles

A tile is a rectangle of cells, given by a span of rows and a span of columns. A span is half open, and
one whose end is not past its start holds nothing. -/

namespace GlobeTexture

/-- The indices from `start` up to and without `stop`. -/
structure Span where
  start : Nat
  stop : Nat
deriving DecidableEq, Repr

namespace Span

instance : Membership Nat Span where
  mem s i := s.start ≤ i ∧ i < s.stop

theorem mem_iff {s : Span} {i : Nat} : i ∈ s ↔ s.start ≤ i ∧ i < s.stop :=
  Iff.rfl

/-- The indices in order. -/
def toList (s : Span) : List Nat :=
  List.range' s.start (s.stop - s.start)

/-- Goes through `n` indices from `i` on, and stops where `f` fails. -/
def foldFrom {σ ε : Type} (f : σ → Nat → Except ε σ) : (n i : Nat) → σ → Except ε σ
  | 0, _, s => .ok s
  | n + 1, i, s =>
    match f s i with
    | .ok s => foldFrom f n (i + 1) s
    | .error e => .error e

/-- Goes through the indices in order, and stops where `f` fails. -/
def fold {σ ε : Type} (f : σ → Nat → Except ε σ) (s : σ) (span : Span) : Except ε σ :=
  foldFrom f (span.stop - span.start) span.start s

/-- The index before `stop`, if there is one. -/
def last? (s : Span) : Option Nat :=
  if s.stop = 0 then none else some (s.stop - 1)

theorem foldFrom_eq {σ ε : Type} (f : σ → Nat → Except ε σ) (n i : Nat) (s : σ) :
    foldFrom f n i s = (List.range' i n).foldlM f s := by
  induction n generalizing i s with
  | zero => rfl
  | succ n ih =>
    rw [foldFrom, List.range'_succ, List.foldlM_cons]
    cases f s i with
    | ok s => exact ih (i + 1) s
    | error e => rfl

theorem fold_eq {σ ε : Type} (f : σ → Nat → Except ε σ) (s : σ) (span : Span) :
    fold f s span = span.toList.foldlM f s :=
  foldFrom_eq f _ _ s

theorem mem_toList {s : Span} {i : Nat} : i ∈ s.toList ↔ i ∈ s := by
  simp only [toList, List.mem_range'_1, mem_iff]
  omega

end Span

/-- A rectangle of cells, held as four words. -/
structure Tile where
  rows : Span
  cols : Span
deriving DecidableEq, Repr

namespace Tile

instance : Membership Cell Tile where
  mem t c := c.col ∈ t.cols ∧ c.row ∈ t.rows

/-- The bytes that a tile takes. -/
def bytes : Nat := 32

theorem mem_iff {t : Tile} {c : Cell} : c ∈ t ↔ c.col ∈ t.cols ∧ c.row ∈ t.rows :=
  Iff.rfl

/-- The cells of a tile, row by row. -/
def cells (t : Tile) : List Cell :=
  t.rows.toList.flatMap fun row => t.cols.toList.map fun col => ⟨col, row⟩

/-- Goes through the cells of a tile in order, and stops where `f` fails. -/
def foldCells {σ ε : Type} (f : σ → Cell → Except ε σ) (s : σ) (t : Tile) : Except ε σ :=
  t.rows.fold (fun s row => t.cols.fold (fun s col => f s ⟨col, row⟩) s) s

/-- The upper left, upper right, lower left and lower right cell, if both spans have a last index. -/
def corners? (t : Tile) : Option (List Cell) := do
  let bottom ← t.rows.last?
  let right ← t.cols.last?
  return [⟨t.cols.start, t.rows.start⟩, ⟨right, t.rows.start⟩, ⟨t.cols.start, bottom⟩, ⟨right, bottom⟩]

theorem foldCells_eq {σ ε : Type} (f : σ → Cell → Except ε σ) (s : σ) (t : Tile) :
    foldCells f s t = t.cells.foldlM f s := by
  simp only [foldCells, Span.fold_eq, cells]
  induction t.rows.toList generalizing s with
  | nil => rfl
  | cons row rows ih =>
    rw [List.foldlM_cons, List.flatMap_cons, List.foldlM_append, List.foldlM_map]
    exact bind_congr fun s => ih s

theorem mem_cells {t : Tile} {c : Cell} : c ∈ t.cells ↔ c ∈ t := by
  obtain ⟨col, row⟩ := c
  simp only [cells, List.mem_flatMap, List.mem_map, Span.mem_toList, Cell.mk.injEq, mem_iff]
  constructor
  · rintro ⟨r, hr, a, ha, rfl, rfl⟩
    exact ⟨ha, hr⟩
  · rintro ⟨hc, hr⟩
    exact ⟨row, hr, col, hc, rfl, rfl⟩

end Tile

end GlobeTexture
