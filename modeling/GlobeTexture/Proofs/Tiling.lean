import GlobeTexture.Tile.Plan

/-! # Tiles cover the canvas

The tiles of a plan are the grid of full spans, clipped at the right and the lower edge. A cell lies in the
tile that division of its column and row by the tile size names, and in no other; no tile is empty or
reaches beyond the canvas. -/

namespace GlobeTexture

namespace Span

/-! ### Cutting one axis -/

/-- The `i`th span of length `size`, clipped at `stop`. -/
def piece (size stop i : Nat) : Span :=
  ⟨i * size, min ((i + 1) * size) stop⟩

/-- The spans of length `size` that cover the indices below `stop`, the last one clipped. -/
def pieces (size stop : Nat) : List Span :=
  (List.range (count stop size)).map (piece size stop)

theorem lt_count_iff {size stop i : Nat} (hsize : 0 < size) : i < count stop size ↔ i * size < stop := by
  rw [count, ← Nat.succ_le_iff, Nat.le_div_iff_mul_le hsize, Nat.succ_mul]
  omega

theorem pieces_eq_nil_iff {size stop : Nat} (hsize : 0 < size) : pieces size stop = [] ↔ stop = 0 := by
  have h : 0 < count stop size ↔ 0 * size < stop := lt_count_iff hsize
  rw [pieces, List.map_eq_nil_iff, List.range_eq_nil]
  omega

theorem le_count_mul {size stop : Nat} (hsize : 0 < size) : stop ≤ count stop size * size := by
  refine Nat.le_of_not_lt fun h => ?_
  exact absurd ((lt_count_iff hsize).mpr h) (Nat.lt_irrefl _)

theorem mem_piece_iff {size stop i j : Nat} (hsize : 0 < size) : i ∈ piece size stop j ↔ i < stop ∧ i / size = j := by
  simp only [mem_iff, piece, Nat.div_eq_iff hsize, Nat.succ_mul]
  omega

theorem piece_start_lt {size stop i : Nat} (hsize : 0 < size) (hi : i < count stop size) :
    (piece size stop i).start < (piece size stop i).stop := by
  have hlt := (lt_count_iff hsize).mp hi
  simp only [piece, Nat.succ_mul]
  omega

section Cut
variable {σ : Type} {size stop : Nat} {f : σ → Span → Option σ}

theorem cutFrom?_succ (hsize : 0 < size) {n i : Nat} (hi : i < count stop size) (s : σ) :
    cutFrom? size stop f (n + 1) (min (i * size) stop) s =
      if (i + 1) * size < Word.limit then
        (f s (piece size stop i)).bind (cutFrom? size stop f n (min ((i + 1) * size) stop))
      else none := by
  have hlt := (lt_count_iff hsize).mp hi
  have hmin : min (i * size) stop = i * size := by omega
  rw [cutFrom?, hmin, if_pos hlt, Word.add?, Nat.succ_mul]
  by_cases hword : i * size + size < Word.limit
  · rw [if_pos hword, if_pos hword]
    simp only [Option.bind_eq_bind, Option.bind_some, piece, Nat.succ_mul]
  · rw [if_neg hword, if_neg hword]
    rfl

theorem cutFrom?_stop (n : Nat) (s : σ) : cutFrom? size stop f n stop s = some s := by
  cases n with
  | zero => rfl
  | succ n => rw [cutFrom?, if_neg (Nat.lt_irrefl _)]

theorem cutFrom?_eq_foldlM (hsize : 0 < size) (hword : count stop size * size < Word.limit) (n i : Nat)
    (hn : count stop size ≤ i + n) (hi : i ≤ count stop size) (s : σ) :
    cutFrom? size stop f n (min (i * size) stop) s =
      ((List.range' i (count stop size - i)).map (piece size stop)).foldlM f s := by
  induction n generalizing i s with
  | zero =>
    obtain rfl : i = count stop size := by omega
    rw [Nat.sub_self]
    rfl
  | succ n ih =>
    rcases Nat.lt_or_eq_of_le hi with hi | rfl
    · have hnext : (i + 1) * size ≤ count stop size * size := Nat.mul_le_mul_right _ hi
      rw [cutFrom?_succ hsize hi, if_pos (by omega), show count stop size - i = count stop size - (i + 1) + 1 by omega,
        List.range'_succ, List.map_cons, List.foldlM_cons]
      exact bind_congr fun s => ih (i + 1) (by omega) hi s
    · rw [Nat.min_eq_right (le_count_mul hsize), cutFrom?_stop, Nat.sub_self]
      rfl

theorem cutFrom?_eq_none (hsize : 0 < size) (hword : Word.limit ≤ count stop size * size) (n i : Nat)
    (hn : count stop size ≤ i + n) (hi : i < count stop size) (s : σ) :
    cutFrom? size stop f n (min (i * size) stop) s = none := by
  induction n generalizing i s with
  | zero => omega
  | succ n ih =>
    rw [cutFrom?_succ hsize hi]
    split
    · rename_i hnext
      -- The last span ends beyond the words, so this one is not the last.
      have hlast : i + 1 < count stop size := by
        rcases Nat.lt_or_eq_of_le hi with h | h
        · exact h
        · exact absurd (h ▸ hnext) (Nat.not_lt.mpr hword)
      cases hf : f s (piece size stop i) with
      | none => rfl
      | some t => exact ih (i + 1) (by omega) hlast t
    · rfl

theorem count_le {size stop : Nat} (hsize : 0 < size) : count stop size ≤ stop := by
  refine Nat.le_of_not_lt fun h => ?_
  have hlt := (lt_count_iff hsize).mp h
  have hle := Nat.le_mul_of_pos_right stop hsize
  omega

/-- Cutting an axis goes through its pieces, unless the position after the last of them is not a word. It ends by
    itself: it makes no difference how many more spans are allowed. -/
theorem cutFrom?_eq (hsize : 0 < size) {n : Nat} (hn : count stop size ≤ n) (s : σ) :
    cutFrom? size stop f n 0 s =
      if count stop size * size < Word.limit then (pieces size stop).foldlM f s else none := by
  have hstart : min (0 * size) stop = 0 := by omega
  have hn' : count stop size ≤ 0 + n := by omega
  split
  · rename_i hword
    have := cutFrom?_eq_foldlM (f := f) hsize hword n 0 hn' (Nat.zero_le _) s
    rw [hstart, Nat.sub_zero, ← List.range_eq_range'] at this
    exact this
  · rename_i hword
    have hpos : 0 < count stop size := by
      rcases Nat.eq_zero_or_pos (count stop size) with h | h
      · rw [h, Nat.zero_mul] at hword
        exact absurd (by decide) hword
      · exact h
    have := cutFrom?_eq_none (f := f) hsize (Nat.le_of_not_lt hword) n 0 hn' hpos s
    rwa [hstart] at this

theorem cut?_eq (hsize : 0 < size) (s : σ) :
    cut? size stop f s = if count stop size * size < Word.limit then (pieces size stop).foldlM f s else none :=
  cutFrom?_eq hsize (count_le hsize) s

end Cut

theorem mem_pieces_iff {size stop : Nat} {s : Span} :
    s ∈ pieces size stop ↔ ∃ i < count stop size, piece size stop i = s := by
  simp only [pieces, List.mem_map, List.mem_range]

end Span

namespace Tile

/-! ### The grid -/

/-- The tiles that the pieces of both axes make, row by row. -/
def grid (k : Canvas) (size : TileSize) : List Tile :=
  (Span.pieces size.height k.height).flatMap fun rows =>
    (Span.pieces size.width k.width).map fun cols => ⟨rows, cols⟩

/-- The tile of the grid that a cell lies in. -/
def around (k : Canvas) (size : TileSize) (c : Cell) : Tile :=
  ⟨Span.piece size.height k.height (c.row / size.height), Span.piece size.width k.width (c.col / size.width)⟩

variable {k : Canvas} {size : TileSize} {tiles : List Tile}

theorem foldlM_band (rows : Span) (cols : List Span) (acc : Array Tile) :
    cols.foldlM (fun acc cols => some (acc.push ⟨rows, cols⟩)) acc =
      some (acc ++ (cols.map fun cols => (⟨rows, cols⟩ : Tile)).toArray) := by
  induction cols generalizing acc with
  | nil => simp
  | cons c cols ih =>
    rw [List.foldlM_cons, Option.bind_eq_bind, Option.bind_some, ih]
    simp

theorem foldlM_bands (cols : List Span) (bands : List Span) (acc : Array Tile) :
    bands.foldlM (fun acc rows => cols.foldlM (fun acc cols => some (acc.push ⟨rows, cols⟩)) acc) acc =
      some (acc ++ (bands.flatMap fun rows => cols.map fun cols => (⟨rows, cols⟩ : Tile)).toArray) := by
  induction bands generalizing acc with
  | nil => simp
  | cons b bands ih =>
    rw [List.foldlM_cons, foldlM_band, Option.bind_eq_bind, Option.bind_some, ih]
    simp

/-- Cutting a canvas makes the grid of its tiles, unless a position that it comes to is not a word. Columns are cut in
    a band, so they do not matter where there is none. -/
theorem cut?_eq (hh : 0 < size.height) (hw : 0 < size.width) :
    cut? k size #[] =
      if Span.count k.height size.height * size.height < Word.limit ∧
          (k.height = 0 ∨ Span.count k.width size.width * size.width < Word.limit)
      then some (grid k size).toArray else none := by
  rw [cut?, Span.cut?_eq hh]
  simp only [Span.cut?_eq hw]
  by_cases hrows : Span.count k.height size.height * size.height < Word.limit
  · simp only [hrows, ↓reduceIte, true_and]
    by_cases hcols : Span.count k.width size.width * size.width < Word.limit
    · simp only [hcols, ↓reduceIte, or_true]
      rw [foldlM_bands]
      simp [grid]
    · simp only [hcols, ↓reduceIte, or_false]
      by_cases hzero : k.height = 0
      · rw [if_pos hzero, grid, (Span.pieces_eq_nil_iff hh).mpr hzero]
        rfl
      · -- There is a first band, and its columns cannot be cut.
        cases hbands : Span.pieces size.height k.height with
        | nil => exact absurd ((Span.pieces_eq_nil_iff hh).mp hbands) hzero
        | cons b bands => simp [hzero]
  · simp only [hrows, ↓reduceIte, false_and]

/-- A plan is the grid of tiles, and it is made only for tiles with cells. -/
theorem plan_eq_ok (h : plan k size = .ok tiles) : 0 < size.height ∧ 0 < size.width ∧ tiles = grid k size := by
  unfold plan planIn at h
  split at h
  · cases h
  · rename_i hsize
    have hh : 0 < size.height := by omega
    have hw : 0 < size.width := by omega
    rw [Failure.ofOption_eq_ok_iff] at h
    simp only [Option.bind_eq_bind, Option.bind_eq_some_iff] at h
    obtain ⟨total, -, h⟩ := h
    split at h
    · obtain ⟨found, hfound, rfl⟩ := Option.map_eq_some_iff.mp h
      rw [Array.emptyWithCapacity_eq, cut?_eq hh hw] at hfound
      split at hfound
      · obtain rfl := Option.some.inj hfound
        exact ⟨hh, hw, rfl⟩
      · cases hfound
    · cases h

theorem exists_plan_of_sides (hh : size.height ≠ 0) (hw : size.width ≠ 0) (h : plan k size ≠ .error .outOfRange) :
    ∃ tiles, plan k size = .ok tiles := by
  unfold plan planIn at h ⊢
  rw [if_neg (not_or.mpr ⟨hh, hw⟩)] at h ⊢
  exact Failure.exists_eq_ok_of_ofOption_ne h

theorem exists_plan {s : Nat} (hs : s ≠ 0) (h : plan k (.square s) ≠ .error .outOfRange) :
    ∃ tiles, plan k (.square s) = .ok tiles :=
  exists_plan_of_sides hs hs h

theorem plan_eq_fault {s : Nat} {f : Fault} (h : plan k (.square s) = .error (.fault f)) : s = 0 ∧ f = .zeroTile := by
  by_cases hs : s = 0
  · subst hs
    cases h
    exact ⟨rfl, rfl⟩
  · obtain ⟨tiles, htiles⟩ := exists_plan hs fun hrange => by
      rw [hrange] at h
      cases h
    rw [htiles] at h
    cases h

theorem mem_grid_iff {t : Tile} :
    t ∈ grid k size ↔ (∃ i < Span.count k.height size.height, Span.piece size.height k.height i = t.rows) ∧
      ∃ j < Span.count k.width size.width, Span.piece size.width k.width j = t.cols := by
  simp only [grid, List.mem_flatMap, List.mem_map, ← Span.mem_pieces_iff]
  constructor
  · rintro ⟨rows, hrows, cols, hcols, rfl⟩
    exact ⟨hrows, hcols⟩
  · rintro ⟨hrows, hcols⟩
    exact ⟨t.rows, hrows, t.cols, hcols, rfl⟩

/-! ### Exact cover -/

/-- The tiles of a plan that hold a cell: the one around it if it is on the canvas, and else none. -/
theorem mem_plan_and_mem_iff (h : plan k size = .ok tiles) {t : Tile} {c : Cell} :
    t ∈ tiles ∧ c ∈ t ↔ c ∈ k ∧ t = around k size c := by
  obtain ⟨hh, hw, rfl⟩ := plan_eq_ok h
  rw [mem_grid_iff]
  constructor
  · rintro ⟨⟨⟨i, -, hi⟩, j, -, hj⟩, hc⟩
    obtain ⟨rows, cols⟩ := t
    obtain rfl : Span.piece size.height k.height i = rows := hi
    obtain rfl : Span.piece size.width k.width j = cols := hj
    obtain ⟨hcol, rfl⟩ := (Span.mem_piece_iff hw).mp hc.1
    obtain ⟨hrow, rfl⟩ := (Span.mem_piece_iff hh).mp hc.2
    exact ⟨⟨hcol, hrow⟩, rfl⟩
  · rintro ⟨hc, rfl⟩
    have hrow := (Span.mem_piece_iff hh).mpr ⟨hc.2, rfl⟩
    have hcol := (Span.mem_piece_iff hw).mpr ⟨hc.1, rfl⟩
    have below : ∀ {i size stop : Nat}, 0 < size → i < stop → i / size < Span.count stop size := by
      intro i size stop hsize hi
      exact (Span.lt_count_iff hsize).mpr (Nat.lt_of_le_of_lt (Nat.div_mul_le_self _ _) hi)
    exact ⟨⟨⟨_, below hh hc.2, rfl⟩, _, below hw hc.1, rfl⟩, hcol, hrow⟩

theorem mem_of_mem_plan (h : plan k size = .ok tiles) {t : Tile} (ht : t ∈ tiles) {c : Cell} (hc : c ∈ t) : c ∈ k :=
  ((mem_plan_and_mem_iff h).mp ⟨ht, hc⟩).1

theorem eq_around (h : plan k size = .ok tiles) {t : Tile} (ht : t ∈ tiles) {c : Cell} (hc : c ∈ t) :
    t = around k size c :=
  ((mem_plan_and_mem_iff h).mp ⟨ht, hc⟩).2

theorem around_mem_plan (h : plan k size = .ok tiles) {c : Cell} (hc : c ∈ k) :
    around k size c ∈ tiles ∧ c ∈ around k size c :=
  (mem_plan_and_mem_iff h).mpr ⟨hc, rfl⟩

theorem spans_of_mem_plan (h : plan k size = .ok tiles) {t : Tile} (ht : t ∈ tiles) :
    t.rows.start < t.rows.stop ∧ t.cols.start < t.cols.stop := by
  obtain ⟨hh, hw, rfl⟩ := plan_eq_ok h
  obtain ⟨⟨i, hi, hrows⟩, j, hj, hcols⟩ := mem_grid_iff.mp ht
  rw [← hrows, ← hcols]
  exact ⟨Span.piece_start_lt hh hi, Span.piece_start_lt hw hj⟩

theorem cells_ne_nil_of_mem_plan (h : plan k size = .ok tiles) {t : Tile} (ht : t ∈ tiles) : t.cells ≠ [] := by
  obtain ⟨hrows, hcols⟩ := spans_of_mem_plan h ht
  have hmem : (⟨t.cols.start, t.rows.start⟩ : Cell) ∈ t.cells :=
    mem_cells.mpr ⟨⟨Nat.le_refl _, hcols⟩, Nat.le_refl _, hrows⟩
  exact List.ne_nil_of_mem hmem

/-! ### Corners -/

/-- The upper left, upper right, lower left and lower right cell of a tile that has cells. -/
def corners (t : Tile) : List Cell :=
  [⟨t.cols.start, t.rows.start⟩, ⟨t.cols.stop - 1, t.rows.start⟩, ⟨t.cols.start, t.rows.stop - 1⟩,
    ⟨t.cols.stop - 1, t.rows.stop - 1⟩]

theorem corners?_eq {t : Tile} (h : t.rows.start < t.rows.stop ∧ t.cols.start < t.cols.stop) :
    t.corners? = some t.corners := by
  have hrows : t.rows.last? = some (t.rows.stop - 1) := if_neg (by omega)
  have hcols : t.cols.last? = some (t.cols.stop - 1) := if_neg (by omega)
  simp [corners?, corners, hrows, hcols]

theorem mem_of_mem_corners {t : Tile} (h : t.rows.start < t.rows.stop ∧ t.cols.start < t.cols.stop) {c : Cell}
    (hc : c ∈ t.corners) : c ∈ t := by
  simp only [corners, List.mem_cons, List.not_mem_nil, or_false] at hc
  rcases hc with rfl | rfl | rfl | rfl <;> simp only [mem_iff, Span.mem_iff] <;> omega

end Tile

end GlobeTexture
