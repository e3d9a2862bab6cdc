import GlobeTexture.Proofs.Tiling
import Mathlib.Algebra.Order.Floor.Div
import Mathlib.Data.List.Nodup

/-! # Plans as partitions

The tiles of a plan are themselves laid out like the cells of a canvas, one for each span of rows and each span of
columns. So the place of a tile in the plan is the place of a cell in a list of cells, and division finds it from any
cell of the tile. Listed tile by tile, the cells of a canvas are all there, and each of them once. -/

namespace GlobeTexture

/-! ### Cells in order -/

theorem nodup_flatMap_cells {rows cols : List Nat} (hrows : rows.Nodup) (hcols : cols.Nodup) :
    (rows.flatMap fun row => cols.map fun col => (⟨col, row⟩ : Cell)).Nodup := by
  rw [List.nodup_flatMap]
  refine ⟨fun row _ => hcols.map fun a b h => (Cell.mk.inj h).1, hrows.pairwise_of_forall_ne ?_⟩
  intro row _ row' _ hne
  refine List.disjoint_left.mpr fun c hc hc' => ?_
  obtain ⟨col, -, rfl⟩ := List.mem_map.mp hc
  obtain ⟨col', -, heq⟩ := List.mem_map.mp hc'
  exact hne (Cell.mk.inj heq).2.symm

theorem Tile.nodup_cells (t : Tile) : t.cells.Nodup :=
  nodup_flatMap_cells List.nodup_range' List.nodup_range'

namespace Canvas

theorem nodup_cells (k : Canvas) : k.cells.Nodup :=
  nodup_flatMap_cells List.nodup_range List.nodup_range

theorem cells_eq_map_range (k : Canvas) :
    k.cells = (List.range k.area).map fun i => ⟨i % k.width, i / k.width⟩ := by
  obtain ⟨width, height⟩ := k
  simp only [cells, area]
  induction height with
  | zero => simp
  | succ height ih =>
    rw [List.range_succ, List.flatMap_append, ih, Nat.succ_mul, List.range_add, List.map_append, List.map_map,
      List.flatMap_singleton]
    refine congrArg (_ ++ ·) (List.map_congr_left fun col hcol => ?_)
    have hmem : (⟨col, height⟩ : Cell) ∈ (⟨width, height + 1⟩ : Canvas) :=
      ⟨List.mem_range.mp hcol, Nat.lt_succ_self height⟩
    exact congrArg₂ Cell.mk (offset_mod hmem).symm (offset_div hmem).symm

theorem length_cells (k : Canvas) : k.cells.length = k.area := by
  rw [cells_eq_map_range, List.length_map, List.length_range]

theorem getElem?_cells {k : Canvas} {c : Cell} (h : c ∈ k) : k.cells[k.offset c]? = some c := by
  rw [cells_eq_map_range, List.getElem?_map, List.getElem?_range (offset_lt_area h), Option.map_some, offset_mod h,
    offset_div h]

end Canvas

/-! ### Tiles in order -/

/-- A span that is not empty, ends by `stop` and is at most `size` long. -/
structure Span.Clipped (s : Span) (size stop : Nat) : Prop where
  start_lt : s.start < s.stop
  stop_le : s.stop ≤ stop
  length_le : s.stop - s.start ≤ size

theorem Span.clipped_piece {size stop i : Nat} (hsize : 0 < size) (hi : i < count stop size) :
    (piece size stop i).Clipped size stop := by
  refine ⟨piece_start_lt hsize hi, Nat.min_le_right _ _, ?_⟩
  simp only [piece, Nat.succ_mul]
  omega

theorem Span.count_eq_ceilDiv (length size : Nat) : count length size = length ⌈/⌉ size :=
  (Nat.ceilDiv_eq_add_pred_div length size).symm

namespace Tile

/-- The tiles of a plan as the cells of a canvas. -/
def lattice (k : Canvas) (size : TileSize) : Canvas :=
  ⟨Span.count k.width size.width, Span.count k.height size.height⟩

/-- The tile of a cell of the lattice, clipped at the edges of the canvas. -/
def ofLattice (k : Canvas) (size : TileSize) (b : Cell) : Tile :=
  ⟨Span.piece size.height k.height b.row, Span.piece size.width k.width b.col⟩

/-- The cell of the lattice whose tile holds a cell. -/
def block (size : TileSize) (c : Cell) : Cell :=
  ⟨c.col / size.width, c.row / size.height⟩

variable {k : Canvas} {size : TileSize} {tiles : List Tile}

theorem grid_eq_map_lattice (k : Canvas) (size : TileSize) :
    grid k size = (lattice k size).cells.map (ofLattice k size) := by
  simp only [grid, Span.pieces, Canvas.cells, lattice, List.flatMap_map, List.map_flatMap, List.map_map]
  rfl

theorem length_grid (k : Canvas) (size : TileSize) :
    (grid k size).length = Span.count k.height size.height * Span.count k.width size.width := by
  rw [grid_eq_map_lattice, List.length_map, Canvas.length_cells]
  rfl

theorem mem_ofLattice_iff (hh : 0 < size.height) (hw : 0 < size.width) {b c : Cell} :
    c ∈ ofLattice k size b ↔ c ∈ k ∧ b = block size c := by
  obtain ⟨col, row⟩ := b
  simp only [ofLattice, mem_iff, Span.mem_piece_iff hh, Span.mem_piece_iff hw, Canvas.mem_iff, block, Cell.mk.injEq]
  constructor
  · rintro ⟨⟨hcol, rfl⟩, hrow, rfl⟩
    exact ⟨⟨hcol, hrow⟩, rfl, rfl⟩
  · rintro ⟨⟨hcol, hrow⟩, rfl, rfl⟩
    exact ⟨⟨hcol, rfl⟩, hrow, rfl⟩

theorem block_mem_lattice (hh : 0 < size.height) (hw : 0 < size.width) {c : Cell} (hc : c ∈ k) :
    block size c ∈ lattice k size :=
  ⟨(Span.lt_count_iff hw).mpr (Nat.lt_of_le_of_lt (Nat.div_mul_le_self _ _) hc.1),
    (Span.lt_count_iff hh).mpr (Nat.lt_of_le_of_lt (Nat.div_mul_le_self _ _) hc.2)⟩

section Plan
variable (h : plan k size = .ok tiles)
include h

theorem length_plan : tiles.length = Span.count k.height size.height * Span.count k.width size.width := by
  obtain ⟨-, -, rfl⟩ := plan_eq_ok h
  exact length_grid k size

theorem getElem?_plan_eq_some_iff {i : Nat} {t : Tile} :
    tiles[i]? = some t ↔ ∃ b ∈ lattice k size, (lattice k size).offset b = i ∧ ofLattice k size b = t := by
  obtain ⟨-, -, rfl⟩ := plan_eq_ok h
  rw [grid_eq_map_lattice, List.getElem?_map, Option.map_eq_some_iff]
  constructor
  · rintro ⟨b, hb, rfl⟩
    have hmem : b ∈ lattice k size := Canvas.mem_cells.mp (List.mem_of_getElem? hb)
    refine ⟨b, hmem, ?_, rfl⟩
    have hi : i < (lattice k size).area := by
      rw [← Canvas.length_cells]
      exact (List.getElem?_eq_some_iff.mp hb).1
    obtain ⟨d, hd, rfl⟩ := Canvas.exists_offset hi
    rw [Canvas.getElem?_cells hd] at hb
    rw [Option.some.inj hb]
  · rintro ⟨b, hb, rfl, rfl⟩
    exact ⟨b, Canvas.getElem?_cells hb, rfl⟩

/-- A cell lies in the tile at the place of its block, and in no tile at another place. -/
theorem mem_getElem?_plan_iff {c : Cell} (hc : c ∈ k) {i : Nat} {t : Tile} (ht : tiles[i]? = some t) :
    c ∈ t ↔ i = (lattice k size).offset (block size c) := by
  obtain ⟨hh, hw, -⟩ := plan_eq_ok h
  obtain ⟨b, hb, rfl, rfl⟩ := (getElem?_plan_eq_some_iff h).mp ht
  rw [mem_ofLattice_iff hh hw, Canvas.offset_inj hb (block_mem_lattice hh hw hc), and_iff_right hc]

theorem clipped_of_mem_plan {t : Tile} (ht : t ∈ tiles) :
    t.rows.Clipped size.height k.height ∧ t.cols.Clipped size.width k.width := by
  obtain ⟨hh, hw, rfl⟩ := plan_eq_ok h
  obtain ⟨⟨i, hi, hrows⟩, j, hj, hcols⟩ := mem_grid_iff.mp ht
  rw [← hrows, ← hcols]
  exact ⟨Span.clipped_piece hh hi, Span.clipped_piece hw hj⟩

/-! ### All cells, each once -/

theorem nodup_plan : tiles.Nodup := by
  rw [List.nodup_iff_getElem?_ne_getElem?]
  intro i j hij hj heq
  have htile : tiles[j]? = some tiles[j] := List.getElem?_eq_getElem hj
  have hmem : tiles[j] ∈ tiles := List.getElem_mem hj
  -- A cell of the tile knows its place.
  obtain ⟨c, hc⟩ := List.exists_mem_of_ne_nil _ (cells_ne_nil_of_mem_plan h hmem)
  have hcell : c ∈ tiles[j] := mem_cells.mp hc
  have hcanvas := mem_of_mem_plan h hmem hcell
  have hi := (mem_getElem?_plan_iff h hcanvas (heq.trans htile)).mp hcell
  have hj' := (mem_getElem?_plan_iff h hcanvas htile).mp hcell
  omega

theorem nodup_flatMap_plan : (tiles.flatMap cells).Nodup := by
  rw [List.nodup_flatMap]
  refine ⟨fun t _ => t.nodup_cells, (nodup_plan h).pairwise_of_forall_ne ?_⟩
  intro t ht u hu hne
  refine List.disjoint_left.mpr fun c hct hcu => ?_
  exact hne ((eq_around h ht (mem_cells.mp hct)).trans (eq_around h hu (mem_cells.mp hcu)).symm)

theorem flatMap_plan_perm : (tiles.flatMap cells).Perm k.cells := by
  rw [List.perm_ext_iff_of_nodup (nodup_flatMap_plan h) k.nodup_cells]
  intro c
  simp only [List.mem_flatMap, mem_cells, Canvas.mem_cells]
  constructor
  · rintro ⟨t, ht, hc⟩
    exact mem_of_mem_plan h ht hc
  · intro hc
    exact ⟨around k size c, around_mem_plan h hc⟩

end Plan

/-- A plan of tiles that have sides is an exact partition of the canvas. There are as many tiles as the rounded-up
    quotients say; none is empty, larger than asked for or beyond the canvas; a cell lies in the tile whose place
    division tells, and in no other. So the cells of the tiles, one tile after another, are the cells of the canvas in
    another order. The corners of a tile are cells of it, and the others lie between them. -/
theorem plan_partitions (hh : size.height ≠ 0) (hw : size.width ≠ 0) (hplan : plan k size ≠ .error .outOfRange) :
    ∃ tiles, plan k size = .ok tiles ∧
      tiles.length = (k.height ⌈/⌉ size.height) * (k.width ⌈/⌉ size.width) ∧
      (∀ t ∈ tiles, t.rows.Clipped size.height k.height ∧ t.cols.Clipped size.width k.width) ∧
      (∀ c ∈ k, c.row / size.height * (k.width ⌈/⌉ size.width) + c.col / size.width < tiles.length ∧
        ∀ i t, tiles[i]? = some t →
          (c ∈ t ↔ i = c.row / size.height * (k.width ⌈/⌉ size.width) + c.col / size.width)) ∧
      (tiles.flatMap cells).Nodup ∧ (tiles.flatMap cells).Perm k.cells ∧
      (tiles.flatMap cells).length = k.height * k.width ∧
      ∀ t ∈ tiles, ∃ left right top bottom,
        t.corners? = some [⟨left, top⟩, ⟨right, top⟩, ⟨left, bottom⟩, ⟨right, bottom⟩] ∧
        (⟨left, top⟩ ∈ t ∧ ⟨right, top⟩ ∈ t ∧ ⟨left, bottom⟩ ∈ t ∧ ⟨right, bottom⟩ ∈ t) ∧
        ∀ c ∈ t, (left ≤ c.col ∧ c.col ≤ right) ∧ top ≤ c.row ∧ c.row ≤ bottom := by
  obtain ⟨tiles, h⟩ := exists_plan_of_sides hh hw hplan
  have hperm := flatMap_plan_perm h
  refine ⟨tiles, h, ?_, fun t ht => clipped_of_mem_plan h ht, fun c hc => ⟨?_, fun i t ht => ?_⟩,
    nodup_flatMap_plan h, hperm, hperm.length_eq.trans k.length_cells, fun t ht => ?_⟩
  · rw [length_plan h, Span.count_eq_ceilDiv, Span.count_eq_ceilDiv]
  · rw [length_plan h, ← Span.count_eq_ceilDiv]
    exact Canvas.offset_lt_area (block_mem_lattice (Nat.pos_of_ne_zero hh) (Nat.pos_of_ne_zero hw) hc)
  · rw [← Span.count_eq_ceilDiv]
    exact mem_getElem?_plan_iff h hc ht
  · have hspans := spans_of_mem_plan h ht
    have hcorners : ∀ c ∈ t.corners, c ∈ t := fun c hc => mem_of_mem_corners hspans hc
    simp only [corners, List.forall_mem_cons] at hcorners
    obtain ⟨hnw, hne, hsw, hse, -⟩ := hcorners
    refine ⟨_, _, _, _, corners?_eq hspans, ⟨hnw, hne, hsw, hse⟩, fun c hc => ?_⟩
    exact ⟨⟨hc.1.1, Nat.le_pred_of_lt hc.1.2⟩, hc.2.1, Nat.le_pred_of_lt hc.2.2⟩

/-- Tiles of two rows and three columns on a canvas that they do not divide: there are three bands of three tiles, and
    the cell at the lower right is alone in the last tile. -/
theorem plan_partitions_clipped :
    plan ⟨7, 5⟩ ⟨2, 3⟩ ≠ .error .outOfRange ∧ ∃ tiles, plan ⟨7, 5⟩ ⟨2, 3⟩ = .ok tiles ∧ tiles.length = 9 ∧
      (∀ i t, tiles[i]? = some t → (⟨6, 4⟩ ∈ t ↔ i = 8)) ∧ (tiles.flatMap cells).Perm (Canvas.cells ⟨7, 5⟩) := by
  have hplan : plan ⟨7, 5⟩ ⟨2, 3⟩ ≠ .error .outOfRange := by decide
  obtain ⟨tiles, h, hlength, -, hplace, -, hperm, -, -⟩ := plan_partitions (by decide) (by decide) hplan
  simp only [Nat.ceilDiv_eq_add_pred_div] at hlength hplace
  exact ⟨hplan, tiles, h, hlength, (hplace ⟨6, 4⟩ (by decide)).2, hperm⟩

end Tile

end GlobeTexture
