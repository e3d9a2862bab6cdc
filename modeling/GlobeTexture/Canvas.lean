import GlobeTexture.Word

/-! # Canvases and cells

A canvas is a rectangle of cells, `width` columns by `height` rows. A cell is named by its column and its
row, counted from the upper left corner, and it may lie off the canvas. -/

namespace GlobeTexture

/-- The place of one pixel. -/
structure Cell where
  col : Nat
  row : Nat
deriving DecidableEq, Repr

/-- The size of a raster. -/
structure Canvas where
  width : Nat
  height : Nat
deriving DecidableEq, Repr

namespace Canvas

instance : Membership Cell Canvas where
  mem k c := c.col < k.width ∧ c.row < k.height

theorem mem_iff {k : Canvas} {c : Cell} : c ∈ k ↔ c.col < k.width ∧ c.row < k.height :=
  Iff.rfl

instance (c : Cell) (k : Canvas) : Decidable (c ∈ k) :=
  decidable_of_iff _ mem_iff.symm

/-- The number of cells. -/
def area (k : Canvas) : Nat :=
  k.height * k.width

/-- The cell in the middle, the lower right one of the candidates. -/
def center (k : Canvas) : Cell :=
  ⟨k.width / 2, k.height / 2⟩

/-- The position of a cell when the cells are listed row by row. -/
def offset (k : Canvas) (c : Cell) : Nat :=
  c.row * k.width + c.col

/-- The cells, row by row. -/
def cells (k : Canvas) : List Cell :=
  (List.range k.height).flatMap fun row => (List.range k.width).map fun col => ⟨col, row⟩

/-- The canvas of the same cells with columns and rows exchanged. -/
def transpose (k : Canvas) : Canvas :=
  ⟨k.height, k.width⟩

/-- Offsets on the canvas fit a signed word. A side of length zero counts as one here, so an empty canvas
    has to keep its other side in range as well. -/
def Addressable (k : Canvas) : Prop :=
  max k.height 1 * max k.width 1 < Word.signedLimit

instance (k : Canvas) : Decidable k.Addressable :=
  inferInstanceAs (Decidable (_ < _))

/-- A pixel of so many bytes can be stored for every cell. -/
def Storable (k : Canvas) (bytes : Nat) : Prop :=
  k.Addressable ∧ Word.Fits k.area bytes

instance (k : Canvas) (bytes : Nat) : Decidable (k.Storable bytes) :=
  inferInstanceAs (Decidable (_ ∧ _))

theorem offset_lt_area {k : Canvas} {c : Cell} (h : c ∈ k) : k.offset c < k.area := by
  have h₁ : (c.row + 1) * k.width ≤ k.height * k.width := Nat.mul_le_mul_right _ h.2
  have h₂ := h.1
  simp only [offset, area, Nat.add_mul, Nat.one_mul] at *
  omega

theorem offset_mod {k : Canvas} {c : Cell} (h : c ∈ k) : k.offset c % k.width = c.col := by
  rw [offset, Nat.add_comm, Nat.add_mul_mod_self_right, Nat.mod_eq_of_lt h.1]

theorem offset_div {k : Canvas} {c : Cell} (h : c ∈ k) : k.offset c / k.width = c.row := by
  have hw : 0 < k.width := by have := h.1; omega
  rw [offset, Nat.add_comm, Nat.add_mul_div_right _ _ hw, Nat.div_eq_of_lt h.1, Nat.zero_add]

/-- Cells of the canvas are told apart by their offsets. -/
theorem offset_inj {k : Canvas} {c d : Cell} (hc : c ∈ k) (hd : d ∈ k) : k.offset c = k.offset d ↔ c = d := by
  refine ⟨fun h => ?_, fun h => h ▸ rfl⟩
  have hcol : c.col = d.col := by rw [← offset_mod hc, ← offset_mod hd, h]
  have hrow : c.row = d.row := by rw [← offset_div hc, ← offset_div hd, h]
  cases c
  cases d
  simp_all

/-- Every offset below the number of cells is that of a cell. -/
theorem exists_offset {k : Canvas} {i : Nat} (h : i < k.area) : ∃ c ∈ k, k.offset c = i := by
  have hw : 0 < k.width := by
    rcases Nat.eq_zero_or_pos k.width with hz | hz
    · simp [area, hz] at h
    · exact hz
  refine ⟨⟨i % k.width, i / k.width⟩, ⟨Nat.mod_lt _ hw, ?_⟩, ?_⟩
  · exact Nat.div_lt_of_lt_mul (Nat.mul_comm k.height k.width ▸ h)
  · rw [offset, Nat.mul_comm]
    exact Nat.div_add_mod _ _

theorem mem_cells {k : Canvas} {c : Cell} : c ∈ k.cells ↔ c ∈ k := by
  obtain ⟨col, row⟩ := c
  simp only [cells, List.mem_flatMap, List.mem_range, List.mem_map, Cell.mk.injEq, mem_iff]
  constructor
  · rintro ⟨r, hr, a, ha, rfl, rfl⟩
    exact ⟨ha, hr⟩
  · rintro ⟨hc, hr⟩
    exact ⟨row, hr, col, hc, rfl, rfl⟩

end Canvas

namespace Cell

/-- The cell with column and row exchanged. -/
def swap (c : Cell) : Cell :=
  ⟨c.row, c.col⟩

@[simp] theorem swap_swap (c : Cell) : c.swap.swap = c :=
  rfl

end Cell

end GlobeTexture
