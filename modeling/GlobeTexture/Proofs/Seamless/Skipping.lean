import GlobeTexture.Proofs.Seamless
import Mathlib.Algebra.Order.Ring.Int
import Mathlib.Control.Monad.Basic

/-! # Copying tiles unseen

A tile is copied unseen if its corners are inside. Where the cells inside have no gap in any row or column, nor
has the tile: its first and last column are inside from corner to corner, and so is each row between them. Then
no tile is treated otherwise than cell by cell. -/

namespace GlobeTexture

/-! ### Convexity along rows and columns -/

/-- The cells of a canvas that satisfy `p` have no gap in a row or a column. -/
structure Canvas.GapFree (k : Canvas) (p : Cell → Prop) : Prop where
  row : ∀ {r a b c : Nat}, a ≤ b → b ≤ c → ⟨a, r⟩ ∈ k → ⟨c, r⟩ ∈ k → p ⟨a, r⟩ → p ⟨c, r⟩ → p ⟨b, r⟩
  col : ∀ {c q r s : Nat}, q ≤ r → r ≤ s → ⟨c, q⟩ ∈ k → ⟨c, s⟩ ∈ k → p ⟨c, q⟩ → p ⟨c, s⟩ → p ⟨c, r⟩

namespace Canvas

variable {k : Canvas} {p q : Cell → Prop}

theorem GapFree.congr (h : k.GapFree p) (heq : ∀ c ∈ k, q c ↔ p c) : k.GapFree q where
  row hab hbc ha hc hqa hqc := by
    refine (heq _ ?_).mpr (h.row hab hbc ha hc ((heq _ ha).mp hqa) ((heq _ hc).mp hqc))
    exact ⟨Nat.lt_of_le_of_lt hbc hc.1, hc.2⟩
  col hqr hrs hq hs hpq hps := by
    refine (heq _ ?_).mpr (h.col hqr hrs hq hs ((heq _ hq).mp hpq) ((heq _ hs).mp hps))
    exact ⟨hs.1, Nat.lt_of_le_of_lt hrs hs.2⟩

theorem GapFree.of_corners (h : k.GapFree p) {t : Tile} (hk : ∀ c ∈ t.corners, c ∈ k) (hp : ∀ c ∈ t.corners, p c)
    {c : Cell} (hc : c ∈ t) : p c := by
  obtain ⟨⟨hleft, hright⟩, ⟨htop, hbottom⟩⟩ := hc
  simp only [Tile.corners, List.forall_mem_cons] at hk hp
  obtain ⟨hknw, hkne, hksw, hkse, -⟩ := hk
  obtain ⟨hnw, hne, hsw, hse, -⟩ := hp
  have hwest : p ⟨t.cols.start, c.row⟩ := h.col htop (Nat.le_pred_of_lt hbottom) hknw hksw hnw hsw
  have heast : p ⟨t.cols.stop - 1, c.row⟩ := h.col htop (Nat.le_pred_of_lt hbottom) hkne hkse hne hse
  have hrow : c.row < k.height := Nat.lt_of_le_of_lt (Nat.le_pred_of_lt hbottom) hksw.2
  exact h.row hleft (Nat.le_pred_of_lt hright) ⟨hknw.1, hrow⟩ ⟨hkne.1, hrow⟩ hwest heast

/-- The upper left corner of the cell is in the ellipse that fills the canvas, in whole numbers. -/
def InEllipse (k : Canvas) (c : Cell) : Prop :=
  (k.height : Int) ^ 2 * (2 * c.col - k.width) ^ 2 + (k.width : Int) ^ 2 * (2 * c.row - k.height) ^ 2 ≤
    (k.width : Int) ^ 2 * (k.height : Int) ^ 2

instance (k : Canvas) (c : Cell) : Decidable (k.InEllipse c) :=
  inferInstanceAs (Decidable (_ ≤ _))

theorem sq_le_sq_or_of_between {a b c : Nat} (w : Int) (hab : a ≤ b) (hbc : b ≤ c) :
    (2 * (b : Int) - w) ^ 2 ≤ (2 * a - w) ^ 2 ∨ (2 * (b : Int) - w) ^ 2 ≤ (2 * c - w) ^ 2 := by
  rcases le_total w (2 * b) with hright | hleft
  · exact Or.inr (pow_le_pow_left₀ (by omega) (by omega) 2)
  · rw [sub_sq_comm _ w, sub_sq_comm _ w]
    exact Or.inl (pow_le_pow_left₀ (by omega) (by omega) 2)

theorem gapFree_inEllipse (k : Canvas) : k.GapFree k.InEllipse where
  row hab hbc _ _ hpa hpc := by
    have hsq := sq_nonneg (k.height : Int)
    rcases sq_le_sq_or_of_between k.width hab hbc with hle | hle
    · exact Int.le_trans (Int.add_le_add_right (Int.mul_le_mul_of_nonneg_left hle hsq) _) hpa
    · exact Int.le_trans (Int.add_le_add_right (Int.mul_le_mul_of_nonneg_left hle hsq) _) hpc
  col hqr hrs _ _ hpq hps := by
    have hsq := sq_nonneg (k.width : Int)
    rcases sq_le_sq_or_of_between k.height hqr hrs with hle | hle
    · exact Int.le_trans (Int.add_le_add_left (Int.mul_le_mul_of_nonneg_left hle hsq) _) hpq
    · exact Int.le_trans (Int.add_le_add_left (Int.mul_le_mul_of_nonneg_left hle hsq) _) hps

end Canvas

/-! ### Tiles copied unseen -/

namespace Seamless

variable {fold? : Fold} {k : Canvas} {size : TileSize} {tiles : List Tile} {c : Cell}

theorem inside_of_tileInside? (hgap : k.GapFree (inside fold? k · = true)) (hplan : Tile.plan k size = .ok tiles)
    {t : Tile} (ht : t ∈ tiles) (h : tileInside? fold? k t = some true) (hc : c ∈ t) : inside fold? k c = true := by
  have hcorners : t.corners.all (inside fold? k) = true :=
    Option.some.inj ((tileInside?_eq hplan ht).symm.trans h)
  refine hgap.of_corners (fun d hd => ?_) (List.all_eq_true.mp hcorners) hc
  exact Tile.mem_of_mem_plan hplan ht (Tile.mem_of_mem_corners (Tile.spans_of_mem_plan hplan ht) hd)

theorem at?_eq_origin? (hgap : k.GapFree (inside fold? k · = true)) (hplan : Tile.plan k size = .ok tiles)
    (hc : c ∈ k) : (route fold? k).at? k size c = origin? fold? k c := by
  obtain ⟨ht, hmem⟩ := Tile.around_mem_plan hplan hc
  cases hcopied : (Tile.around k size c).corners.all (inside fold? k) with
  | false => exact at?_of_not_copied hplan hc hcopied
  | true =>
    have hinside := inside_of_tileInside? hgap hplan ht ((tileInside?_eq hplan ht).trans (congrArg some hcopied)) hmem
    rw [at?_of_copied hplan hc hcopied, origin?_of_inside hinside]

end Seamless

section Outcome
variable {α : Type} [Pixel α]

theorem seamless_draws_origins {fold? : Fold} {src : Source α} {s : Nat}
    (hgap : src.canvas.GapFree (Seamless.inside fold? src.canvas · = true)) (hk : src.canvas.Storable (Pixel.bytes α))
    (hs : s ≠ 0) (hplan : Tile.plan src.canvas (.square s) ≠ .error .outOfRange) :
    Draws (seamless fold? src s).result src (Seamless.origin? fold? src.canvas) := by
  obtain ⟨tiles, htiles⟩ := Tile.exists_plan hs hplan
  exact (seamless_draws fold? src htiles hk).congr fun c hc => Seamless.at?_eq_origin? hgap htiles hc

/-- Where the cells inside have no gaps, a planned tile that is copied unseen lies inside, and filling a texture is
    the same as reading each cell at its own origin: it succeeds exactly if all these reads do, what it draws is
    these pixels, and else it ends with the fault of one of these reads. So all sizes of tiles give the same raster.
    The ellipse that fills a canvas has no gaps. -/
theorem seamless_eq_cell_by_cell (fold? : Fold) (k : Canvas)
    (hgap : k.GapFree fun c => Seamless.inside fold? k c = true) :
    (∀ size tiles, Tile.plan k size = .ok tiles → ∀ t ∈ tiles, Seamless.tileInside? fold? k t = some true →
      ∀ c ∈ t, Seamless.inside fold? k c = true) ∧
    (∀ src : Source α, src.canvas = k → k.Storable (Pixel.bytes α) →
      ∀ s ≠ 0, Tile.plan k (.square s) ≠ .error .outOfRange →
        ((∃ r, (seamless fold? src s).result = .ok r) ↔
          ∀ c ∈ k, ∃ d x, Seamless.origin? fold? k c = some d ∧ src.read d = .ok x) ∧
        (∀ r, (seamless fold? src s).result = .ok r → r.canvas = k ∧
          ∀ c ∈ k, ∃ d x, Seamless.origin? fold? k c = some d ∧ src.read d = .ok x ∧ r.get? c = some x) ∧
        ((∀ r, (seamless fold? src s).result ≠ .ok r) → ∃ c ∈ k, ∃ d f,
          Seamless.origin? fold? k c = some d ∧ src.read d = .error f ∧
            (seamless fold? src s).result = .error (.fault f)) ∧
        ∀ s' ≠ 0, Tile.plan k (.square s') ≠ .error .outOfRange →
          ∀ r, (seamless fold? src s).result = .ok r ↔ (seamless fold? src s').result = .ok r) ∧
    ∀ k' : Canvas, k'.GapFree k'.InEllipse := by
  refine ⟨fun size tiles hplan t ht h c hc => Seamless.inside_of_tileInside? hgap hplan ht h hc, ?_,
    Canvas.gapFree_inEllipse⟩
  rintro src rfl hk s hs hplan
  have hdraws := seamless_draws_origins hgap hk hs hplan
  refine ⟨hdraws.exists_eq_ok_iff, fun r hr => ?_, hdraws.exists_fault, fun s' hs' hplan' r => ?_⟩
  · have hcopies := hdraws.eq_ok_iff.mp hr
    exact ⟨hcopies.canvas, hcopies.pixel⟩
  · rw [hdraws.eq_ok_iff, (seamless_draws_origins hgap hk hs' hplan').eq_ok_iff]

end Outcome

/-! ### A disc -/

/-- A fold of all that lies beyond the unit circle onto the middle. -/
def Seamless.discFold : Fold :=
  fun p => if p.x * p.x + p.y * p.y ≤ 1.0 then none else some ⟨0.0, 0.0⟩

theorem Seamless.gapFree_discFold : Canvas.GapFree ⟨4, 4⟩ fun c => inside discFold ⟨4, 4⟩ c = true := by
  have hellipse : ∀ c ∈ Canvas.cells ⟨4, 4⟩, inside discFold ⟨4, 4⟩ c = true ↔ Canvas.InEllipse ⟨4, 4⟩ c := by
    decide +kernel
  exact (Canvas.gapFree_inEllipse _).congr fun c hc => hellipse c (Canvas.mem_cells.mpr hc)

/-- With tiles of side two the one at the lower right is copied unseen; one tile for all is not. -/
theorem seamless_eq_cell_by_cell_discFold :
    let src : Source UInt32 := .numbered ⟨4, 4⟩
    let r : Raster UInt32 := ⟨⟨4, 4⟩, #[10, 10, 2, 10, 10, 5, 6, 7, 8, 9, 10, 11, 10, 13, 14, 15], rfl, by decide⟩
    Canvas.GapFree ⟨4, 4⟩ (fun c => Seamless.inside Seamless.discFold ⟨4, 4⟩ c = true) ∧
      Seamless.tileInside? Seamless.discFold ⟨4, 4⟩ ⟨⟨2, 4⟩, ⟨2, 4⟩⟩ = some true ∧
      (∀ c ∈ (⟨⟨2, 4⟩, ⟨2, 4⟩⟩ : Tile), Seamless.inside Seamless.discFold ⟨4, 4⟩ c = true) ∧
      (seamless Seamless.discFold src 2).result = .ok r ∧ (seamless Seamless.discFold src 4).result = .ok r := by
  intro src r
  obtain ⟨hcopied, hcells, -⟩ := @seamless_eq_cell_by_cell UInt32 _ Seamless.discFold ⟨4, 4⟩
    Seamless.gapFree_discFold
  have hplan : Tile.plan ⟨4, 4⟩ (.square 2) =
      .ok [⟨⟨0, 2⟩, ⟨0, 2⟩⟩, ⟨⟨0, 2⟩, ⟨2, 4⟩⟩, ⟨⟨2, 4⟩, ⟨0, 2⟩⟩, ⟨⟨2, 4⟩, ⟨2, 4⟩⟩] := by decide
  have hskip : Seamless.tileInside? Seamless.discFold ⟨4, 4⟩ ⟨⟨2, 4⟩, ⟨2, 4⟩⟩ = some true := by decide +kernel
  obtain ⟨-, -, -, hsizes⟩ := hcells src rfl (by decide) 2 (by decide) (by decide)
  have hfilled : (seamless Seamless.discFold src 2).result = .ok r := by decide +kernel
  exact ⟨Seamless.gapFree_discFold, hskip, hcopied _ _ hplan _ (by decide) hskip, hfilled,
    (hsizes 4 (by decide) (by decide) r).mp hfilled⟩

/-- A source that cannot be read at two cells. -/
def Seamless.torn : Source UInt32 :=
  (Source.numbered ⟨4, 4⟩).failing fun c => if c = ⟨2, 0⟩ ∨ c = ⟨1, 1⟩ then some (.outOfBounds c) else none

/-- Which of two faults ends the work is settled by the tiles: the one further up with tiles of one cell, and with
    tiles of side two the one in the tile at the upper left. And on a canvas whose offsets are not signed words there
    is no raster, though no cell is sent elsewhere and every cell can be read. -/
theorem seamless_fault_of_tiles_and_unstorable :
    (Canvas.GapFree ⟨4, 4⟩ (fun c => Seamless.inside Seamless.discFold ⟨4, 4⟩ c = true) ∧
      (seamless Seamless.discFold Seamless.torn 1).result = .error (.fault (.outOfBounds ⟨2, 0⟩)) ∧
      (seamless Seamless.discFold Seamless.torn 2).result = .error (.fault (.outOfBounds ⟨1, 1⟩))) ∧
    Canvas.GapFree ⟨Word.signedLimit - 1, 2⟩
      (fun c => Seamless.inside (fun _ => none) ⟨Word.signedLimit - 1, 2⟩ c = true) ∧
    Tile.plan ⟨Word.signedLimit - 1, 2⟩ (.square Word.signedLimit) = .ok [⟨⟨0, 2⟩, ⟨0, Word.signedLimit - 1⟩⟩] ∧
    (∀ c, ∃ x, Seamless.origin? (fun _ => none) ⟨Word.signedLimit - 1, 2⟩ c = some c ∧
      (Source.numbered ⟨Word.signedLimit - 1, 2⟩).read c = .ok x) ∧
    ∀ r, (seamless (fun _ => none) (.numbered ⟨Word.signedLimit - 1, 2⟩) Word.signedLimit).result ≠ .ok r := by
  have hplan : Tile.plan (Source.numbered ⟨Word.signedLimit - 1, 2⟩).canvas (.square Word.signedLimit) =
      .ok [⟨⟨0, 2⟩, ⟨0, Word.signedLimit - 1⟩⟩] := by
    decide
  refine ⟨⟨Seamless.gapFree_discFold, by decide +kernel, by decide +kernel⟩,
    ⟨fun _ _ _ _ _ _ => rfl, fun _ _ _ _ _ _ => rfl⟩, hplan, fun c => ⟨_, rfl, rfl⟩, fun r hr => ?_⟩
  rw [seamless_of_not_storable hplan (by decide)] at hr
  cases hr

end GlobeTexture
