import GlobeTexture.Proofs.Seamless
import Mathlib.Control.Monad.Basic

/-! # Filling twice

A pass reads each cell at a place that the same pass leaves alone, so a second pass finds everything where the
first one put it. This takes no shape of the disc: a tile copied unseen may hold cells outside. It is enough that
the middle of the canvas is inside, where walks end at the latest, or that nothing is inside at all, as it can be
on a canvas of a single row or column. -/

namespace GlobeTexture

namespace Seamless

variable {fold? : Fold} {k : Canvas} {size : TileSize} {tiles : List Tile} {c d : Cell}

theorem origin?_of_all_outside (hk : k.Addressable) (h : ∀ c ∈ k, inside fold? k c = false) (hc : c ∈ k) :
    origin? fold? k c = some k.center := by
  obtain ⟨d, hd, horigin, hin | rfl⟩ := exists_origin? fold? hk hc
  · rw [h d hd] at hin
    cases hin
  · exact horigin

theorem at?_of_all_outside (hplan : Tile.plan k size = .ok tiles) (hk : k.Addressable)
    (h : ∀ c ∈ k, inside fold? k c = false) (hc : c ∈ k) : (route fold? k).at? k size c = some k.center := by
  have ht := (Tile.around_mem_plan hplan hc).1
  -- The corners of the tile are cells of the canvas, so it is not copied.
  have hcorner : (⟨(Tile.around k size c).cols.start, (Tile.around k size c).rows.start⟩ : Cell) ∈
      (Tile.around k size c).corners := List.mem_cons_self
  have hmem := Tile.mem_of_mem_plan hplan ht (Tile.mem_of_mem_corners (Tile.spans_of_mem_plan hplan ht) hcorner)
  have hnot : (Tile.around k size c).corners.all (inside fold? k) = false := by
    refine Bool.eq_false_iff.mpr fun hall => ?_
    rw [List.all_eq_true] at hall
    have hin := hall _ hcorner
    rw [h _ hmem] at hin
    cases hin
  rw [at?_of_not_copied hplan hc hnot, origin?_of_all_outside hk h hc]

/-- Cells are read at cells that are read at their own place. -/
theorem at?_at? (hplan : Tile.plan k size = .ok tiles) (hk : k.Addressable)
    (hcenter : inside fold? k k.center = true ∨ ∀ c ∈ k, inside fold? k c = false) (hc : c ∈ k)
    (h : (route fold? k).at? k size c = some d) : (route fold? k).at? k size d = some d := by
  cases hcopied : (Tile.around k size c).corners.all (inside fold? k) with
  | true =>
    rw [at?_of_copied hplan hc hcopied] at h
    obtain rfl := Option.some.inj h
    exact at?_of_copied hplan hc hcopied
  | false =>
    rw [at?_of_not_copied hplan hc hcopied] at h
    obtain ⟨d', hd, horigin, hend⟩ := exists_origin? fold? hk hc
    obtain rfl : d' = d := Option.some.inj (horigin.symm.trans h)
    rcases hend with hin | rfl
    · exact at?_of_inside hplan hd hin
    · rcases hcenter with hin | hout
      · exact at?_of_inside hplan hd hin
      · exact at?_of_all_outside hplan hk hout hd

end Seamless

variable {α : Type} [Pixel α]

/-- Filling a filled texture again, with tiles of the same size, changes nothing. -/
theorem seamless_seamless {fold? : Fold} {src : Source α} {s : Nat} {d : Raster α}
    (hcenter : Seamless.inside fold? src.canvas src.canvas.center = true ∨
      ∀ c ∈ src.canvas, Seamless.inside fold? src.canvas c = false)
    (h : (seamless fold? src s).result = .ok d) : (seamless fold? d.source s).result = .ok d := by
  obtain ⟨tiles, hplan, hk, hcopies⟩ := seamless_eq_ok h
  have hcanvas : d.source.canvas = src.canvas := hcopies.canvas
  have hdraws := seamless_draws fold? d.source (hcanvas ▸ hplan) (hcanvas ▸ hk)
  rw [hdraws.eq_ok_iff, hcanvas]
  refine ⟨rfl, fun c hc => ?_⟩
  rw [hcanvas] at hc
  obtain ⟨e, x, he, hread, hget⟩ := hcopies.pixel c hc
  obtain ⟨e', hmem, he'⟩ := Seamless.exists_at? fold? hplan hk.1 hc
  obtain rfl : e' = e := Option.some.inj (he'.symm.trans he)
  -- The cell that is read got the pixel that the source has there.
  obtain ⟨e'', y, hself, hread', hget'⟩ := hcopies.pixel e' hmem
  obtain rfl : e' = e'' := Option.some.inj ((Seamless.at?_at? hplan hk.1 hcenter hc he).symm.trans hself)
  obtain rfl : x = y := Except.ok.inj (hread.symm.trans hread')
  exact ⟨e', x, he, Raster.source_read_eq_ok_iff.mpr hget', hget⟩

/-- A fold of the left edge onto the right half. -/
def Seamless.leftFold : Fold :=
  fun p => if p.x < -0.5 then some ⟨0.5, 0.0⟩ else none

/-- The left column takes the last pixel of the lower row, and keeps it; the tile at the right is copied unseen. -/
theorem seamless_seamless_leftFold :
    let src : Source UInt32 := .numbered ⟨3, 2⟩
    let d : Raster UInt32 := ⟨⟨3, 2⟩, #[5, 1, 2, 5, 4, 5], rfl, by decide⟩
    Seamless.inside Seamless.leftFold src.canvas src.canvas.center = true ∧
      (seamless Seamless.leftFold src 2).result = .ok d ∧ (seamless Seamless.leftFold d.source 2).result = .ok d := by
  intro src d
  have hcenter : Seamless.inside Seamless.leftFold src.canvas src.canvas.center = true := by decide +kernel
  have hfilled : (seamless Seamless.leftFold src 2).result = .ok d := by decide +kernel
  exact ⟨hcenter, hfilled, seamless_seamless (Or.inl hcenter) hfilled⟩

end GlobeTexture
