import GlobeTexture.Proofs.Drawing
import GlobeTexture.Proofs.Nearest

/-! # Resampling cell by cell

Tiles are only the order in which a texture is redrawn: each cell gets the pixel nearest to its position on
the source, and the work fails exactly if one of these pixels cannot be read. -/

namespace GlobeTexture

variable {α : Type} [Pixel α] {source target : Projection}

namespace Resample

/-- The cell that the pixel of a cell is read from. -/
def origin? (source target : Projection) (k : Canvas) (c : Cell) : Option Cell :=
  k.nearest? (position source target k c)

theorem position_of_none {k : Canvas} {c : Cell}
    (h : target.inverse? ((target.square.ofCanvas k).apply ⟨.ofNat c.col + 0.5, .ofNat c.row + 0.5⟩) = none) :
    position source target k c = ⟨.ofNat c.col, .ofNat c.row⟩ := by
  unfold position Cell.middle
  rw [h]
  rfl

theorem position_of_some {k : Canvas} {c : Cell} {g : GeoPoint}
    (h : target.inverse? ((target.square.ofCanvas k).apply ⟨.ofNat c.col + 0.5, .ofNat c.row + 0.5⟩) = some g) :
    position source target k c = (source.square.toCanvas k).apply (source.forward g) := by
  unfold position Cell.middle
  rw [h]

theorem at?_route (k : Canvas) (size : TileSize) :
    (route source target k).at? k size = origin? source target k := by
  funext c
  rw [Route.at?, Route.via?_of_mode (m := ()) rfl]
  rfl

end Resample

theorem resample_draws (src : Source α) (source target : Projection) {s : Nat} {tiles : List Tile}
    (hplan : Tile.plan src.canvas (.square s) = .ok tiles) (hk : src.canvas.Storable (Pixel.bytes α)) :
    Draws (resample src source target s).result src (Resample.origin? source target src.canvas) := by
  rw [resample_of_plan hplan hk, ← Resample.at?_route src.canvas (.square s)]
  refine gather_draws hplan (fun c hc => ?_) hk default
  obtain ⟨d, -, hd⟩ := Canvas.exists_nearest? hk.1 hc (Resample.position source target src.canvas c)
  exact ⟨d, (congrFun (Resample.at?_route _ _) c).trans hd⟩

/-- The middle of a cell is sent to the globe and from there to a position on the source; where it shows nothing of the
    globe, the corner of the cell is the position. On a canvas that can be stored, and with tiles that can be planned,
    redrawing succeeds exactly if every cell's pixel can be read at the cell nearest to its position, and else it ends
    with the fault of one of these reads. What it draws is these pixels and nothing else, the blank pixel included, so
    all sizes of tiles give the same raster. -/
theorem resample_eq_pointwise (src : Source α) (source target : Projection) {s : Nat} (hs : s ≠ 0)
    (hplan : Tile.plan src.canvas (.square s) ≠ .error .outOfRange) (hk : src.canvas.Storable (Pixel.bytes α)) :
    (∀ c,
      (target.inverse? ((target.square.ofCanvas src.canvas).apply ⟨.ofNat c.col + 0.5, .ofNat c.row + 0.5⟩) = none →
        Resample.position source target src.canvas c = ⟨.ofNat c.col, .ofNat c.row⟩) ∧
      ∀ g,
        target.inverse? ((target.square.ofCanvas src.canvas).apply ⟨.ofNat c.col + 0.5, .ofNat c.row + 0.5⟩) = some g →
        Resample.position source target src.canvas c = (source.square.toCanvas src.canvas).apply (source.forward g)) ∧
    ((∃ r, (resample src source target s).result = .ok r) ↔
      ∀ c ∈ src.canvas, ∃ d x,
        src.canvas.nearest? (Resample.position source target src.canvas c) = some d ∧ src.read d = .ok x) ∧
    (∀ r, (resample src source target s).result = .ok r → r.canvas = src.canvas ∧
      (∀ c ∈ src.canvas, ∃ d x,
        src.canvas.nearest? (Resample.position source target src.canvas c) = some d ∧ src.read d = .ok x ∧
          r.get? c = some x) ∧
      ((∀ d, src.read d ≠ .ok default) → ∀ c, r.get? c ≠ some default)) ∧
    ((∀ r, (resample src source target s).result ≠ .ok r) → ∃ c ∈ src.canvas, ∃ d f,
      src.canvas.nearest? (Resample.position source target src.canvas c) = some d ∧ src.read d = .error f ∧
        (resample src source target s).result = .error (.fault f)) ∧
    ∀ s' ≠ 0, Tile.plan src.canvas (.square s') ≠ .error .outOfRange → ∀ r,
      (resample src source target s).result = .ok r ↔ (resample src source target s').result = .ok r := by
  obtain ⟨tiles, htiles⟩ := Tile.exists_plan hs hplan
  have hdraws := resample_draws src source target htiles hk
  refine ⟨fun c => ⟨Resample.position_of_none, fun g => Resample.position_of_some⟩, hdraws.exists_eq_ok_iff,
    fun r hr => ?_, hdraws.exists_fault, fun s' hs' hplan' r => ?_⟩
  · have hcopies := hdraws.eq_ok_iff.mp hr
    refine ⟨hcopies.canvas, hcopies.pixel, fun hblank c hc => ?_⟩
    have hmem : c ∈ r.canvas := by
      refine Decidable.not_not.mp fun hoff => ?_
      rw [Raster.get?_eq_none_iff.mpr hoff] at hc
      cases hc
    obtain ⟨d, x, -, hread, hget⟩ := hcopies.pixel c (hcopies.canvas ▸ hmem)
    obtain rfl : x = default := Option.some.inj (hget.symm.trans hc)
    exact hblank d hread
  · obtain ⟨tiles', htiles'⟩ := Tile.exists_plan hs' hplan'
    rw [hdraws.eq_ok_iff, (resample_draws src source target htiles' hk).eq_ok_iff]

/-- A map of one place, which the left half of its square shows; the right half stands for itself. -/
def Resample.halfMap : Projection where
  square := .unit
  forward _ := ⟨0.0, 0.0⟩
  inverse? p := if p.x < 0.5 then some ⟨0.0, 0.0⟩ else none

/-- Both branches of a redrawing on a canvas that no tile of side two divides: the cell on the left is copied from
    the middle of the source, and the next one, whose middle and corner lie in different halves, from its own place, with
    clipped tiles and with one tile. -/
theorem resample_eq_pointwise_halfMap :
    Tile.plan ⟨3, 2⟩ (.square 2) ≠ .error .outOfRange ∧ Tile.plan ⟨3, 2⟩ (.square 5) ≠ .error .outOfRange ∧
      Canvas.Storable ⟨3, 2⟩ (Pixel.bytes UInt32) ∧
      ∃ r, (resample (.numbered ⟨3, 2⟩) Equirectangular.projection Resample.halfMap 2).result = .ok r ∧
        (resample (.numbered ⟨3, 2⟩) Equirectangular.projection Resample.halfMap 5).result = .ok r ∧
        r.get? ⟨0, 0⟩ = some 4 ∧ r.get? ⟨1, 0⟩ = some 1 := by
  have hplan : Tile.plan ⟨3, 2⟩ (.square 2) ≠ .error .outOfRange := nofun
  have hplan' : Tile.plan ⟨3, 2⟩ (.square 5) ≠ .error .outOfRange := nofun
  have hk : Canvas.Storable ⟨3, 2⟩ (Pixel.bytes UInt32) := by decide
  obtain ⟨hposition, hiff, hpixels, -, hsizes⟩ := resample_eq_pointwise (.numbered ⟨3, 2⟩) Equirectangular.projection
    Resample.halfMap (by decide) hplan hk
  obtain ⟨r, hr⟩ := hiff.mpr fun c hc => by
    obtain ⟨d, -, hd⟩ := Canvas.exists_nearest? hk.1 hc
      (Resample.position Equirectangular.projection Resample.halfMap ⟨3, 2⟩ c)
    exact ⟨d, _, hd, rfl⟩
  obtain ⟨-, hat, -⟩ := hpixels r hr
  have hnone {p : Point} (hp : ¬p.x < 0.5) : Resample.halfMap.inverse? p = none := if_neg hp
  have hright : ¬((Square.ofCanvas .unit ⟨3, 2⟩).apply ⟨.ofNat 1 + 0.5, .ofNat 0 + 0.5⟩).x < 0.5 := by decide +kernel
  refine ⟨hplan, hplan', hk, r, hr, (hsizes 5 (by decide) hplan' r).mp hr, ?_, ?_⟩
  · obtain ⟨d, x, hd, hread, hget⟩ := hat ⟨0, 0⟩ (by decide)
    have hmiddle : Canvas.nearest? ⟨3, 2⟩ (Resample.position Equirectangular.projection Resample.halfMap ⟨3, 2⟩
      ⟨0, 0⟩) = some ⟨1, 1⟩ := by decide +kernel
    obtain rfl : ⟨1, 1⟩ = d := Option.some.inj (hmiddle.symm.trans hd)
    rw [hget, ← Except.ok.inj hread]
    rfl
  · obtain ⟨d, x, hd, hread, hget⟩ := hat ⟨1, 0⟩ (by decide)
    rw [(hposition ⟨1, 0⟩).1 (hnone hright)] at hd
    have hself : Canvas.nearest? ⟨3, 2⟩ ⟨.ofNat 1, .ofNat 0⟩ = some ⟨1, 0⟩ := by decide +kernel
    obtain rfl : ⟨1, 0⟩ = d := Option.some.inj (hself.symm.trans hd)
    rw [hget, ← Except.ok.inj hread]
    rfl

/-- A canvas of no cells whose width is not a signed word: there is nothing to plan and nothing to read, and still
    no raster, since none of this size can be stored. -/
theorem resample_unstorable :
    Tile.plan ⟨Word.signedLimit, 0⟩ (.square 64) = .ok [] ∧
      (∀ c ∈ (⟨Word.signedLimit, 0⟩ : Canvas), ∃ d x,
        Canvas.nearest? ⟨Word.signedLimit, 0⟩ (Resample.position Equirectangular.projection Mercator.projection
          ⟨Word.signedLimit, 0⟩ c) = some d ∧
        (Source.numbered ⟨Word.signedLimit, 0⟩).read d = .ok x) ∧
      ∀ r, (resample (.numbered ⟨Word.signedLimit, 0⟩) Equirectangular.projection Mercator.projection 64).result ≠ .ok r := by
  have hplan : Tile.plan (Source.numbered ⟨Word.signedLimit, 0⟩).canvas (.square 64) = .ok [] := rfl
  refine ⟨hplan, fun c hc => absurd hc.2 (Nat.not_lt_zero _), fun r hr => ?_⟩
  rw [resample_of_not_storable hplan (by decide)] at hr
  cases hr

end GlobeTexture
