import GlobeTexture.Proofs.Seamless
import Mathlib.Control.Monad.Basic

/-! # What a filled texture holds

A cell that is inside keeps its pixel, and so does every cell of a tile with all corners inside, whatever the fold says
of the cell. Every other cell has the pixel of the cell that is found on the way inward from where the fold sends it. -/

namespace GlobeTexture

namespace Seamless

variable {fold? : Fold} {k : Canvas} {size : TileSize} {tiles : List Tile} {c : Cell}

theorem at?_of_kept (hplan : Tile.plan k size = .ok tiles) (hc : c ∈ k)
    (h : inside fold? k c = true ∨ ∀ b ∈ (Tile.around k size c).corners, inside fold? k b = true) :
    (route fold? k).at? k size c = some c := by
  rcases h with hinside | hcorners
  · exact at?_of_inside hplan hc hinside
  · exact at?_of_copied hplan hc (List.all_eq_true.mpr hcorners)

/-- A cell that is not kept is sent to a place, and read at the end of the way inward from there. -/
theorem at?_of_not_kept (hplan : Tile.plan k size = .ok tiles) (hk : k.Addressable) (hc : c ∈ k)
    (h : ¬(inside fold? k c = true ∨ ∀ b ∈ (Tile.around k size c).corners, inside fold? k b = true)) :
    ∃ q e, foldCell fold? k c = some q ∧ k.nearest? ((Square.signedUnit.toCanvas k).apply q) = some e ∧
      (route fold? k).at? k size c = some (k.inward (inside fold? k) e) := by
  obtain ⟨houtside, hcorners⟩ := not_or.mp h
  have hcopied : (Tile.around k size c).corners.all (inside fold? k) = false := by
    rw [← Bool.not_eq_true, List.all_eq_true]
    exact hcorners
  cases hfold : foldCell fold? k c with
  | none => exact absurd (inside_eq_true_iff.mpr hfold) houtside
  | some q =>
    obtain ⟨e, -, hnear⟩ := Canvas.exists_nearest? hk hc ((Square.signedUnit.toCanvas k).apply q)
    refine ⟨q, e, rfl, hnear, ?_⟩
    rw [at?_of_not_copied hplan hc hcopied]
    exact origin?_of_fold hfold hnear

end Seamless

variable {α : Type} [Pixel α]

/-- A filled texture has the size of its source. Each cell lies in one planned tile; it has its own pixel if it is inside
    or if all corners of this tile are, and else the fold sends it to a place, and it has the pixel of the first cell
    inside on the way inward from there, or else of the middle. So whatever is inside is kept. -/
theorem seamless_keeps_or_folds {fold? : Fold} {src : Source α} {s : Nat} {d : Raster α}
    (h : (seamless fold? src s).result = .ok d) :
    d.canvas = src.canvas ∧
    (∃ tiles, Tile.plan src.canvas (.square s) = .ok tiles ∧ ∀ c ∈ src.canvas, ∃ t ∈ tiles, c ∈ t ∧
      (∀ u ∈ tiles, c ∈ u → u = t) ∧ ∃ corners, t.corners? = some corners ∧
      (Seamless.inside fold? src.canvas c = true ∨ (∀ b ∈ corners, Seamless.inside fold? src.canvas b = true) →
        ∃ x, src.read c = .ok x ∧ d.get? c = some x) ∧
      (¬(Seamless.inside fold? src.canvas c = true ∨ ∀ b ∈ corners, Seamless.inside fold? src.canvas b = true) →
        ∃ q e x, Seamless.foldCell fold? src.canvas c = some q ∧
          src.canvas.nearest? ((Square.signedUnit.toCanvas src.canvas).apply q) = some e ∧
          src.read (src.canvas.inward (Seamless.inside fold? src.canvas) e) = .ok x ∧ d.get? c = some x ∧
          (Seamless.inside fold? src.canvas (src.canvas.inward (Seamless.inside fold? src.canvas) e) = true ∨
            src.canvas.inward (Seamless.inside fold? src.canvas) e = src.canvas.center))) ∧
    ∀ c ∈ src.canvas, Seamless.inside fold? src.canvas c = true → ∃ x, src.read c = .ok x ∧ d.get? c = some x := by
  obtain ⟨tiles, hplan, hk, hcopies⟩ := seamless_eq_ok h
  refine ⟨hcopies.canvas, ⟨tiles, hplan, fun c hc => ?_⟩, fun c hc hinside => ?_⟩
  · obtain ⟨ht, hmem⟩ := Tile.around_mem_plan hplan hc
    refine ⟨_, ht, hmem, fun u hu hcu => Tile.eq_around hplan hu hcu, _,
      Tile.corners?_eq (Tile.spans_of_mem_plan hplan ht), fun hkept => ?_, fun hkept => ?_⟩
    · exact hcopies.exists_pixel hc (Seamless.at?_of_kept hplan hc hkept)
    · obtain ⟨q, e, hfold, hnear, haddress⟩ := Seamless.at?_of_not_kept hplan hk.1 hc hkept
      obtain ⟨x, hread, hget⟩ := hcopies.exists_pixel hc haddress
      exact ⟨q, e, x, hfold, hnear, hread, hget, Canvas.inward_accepted_or_center⟩
  · exact hcopies.exists_pixel hc (Seamless.at?_of_inside hplan hc hinside)

/-- A fold of two columns of a canvas of four onto the second of them. -/
def Seamless.stripeFold : Fold :=
  fun p => if p.x == -0.5 || p.x == 0.5 then some ⟨-0.5, -1.0⟩ else none

/-- The tile at the left is copied with the stripe in its middle; the column at the right takes the pixel of the middle
    of the canvas, since it is sent to the stripe and goes inward from there. -/
theorem seamless_keeps_or_folds_stripes :
    let src : Source UInt32 := .numbered ⟨4, 3⟩
    let d : Raster UInt32 := ⟨⟨4, 3⟩, #[0, 1, 2, 6, 4, 5, 6, 6, 8, 9, 10, 6], rfl, by decide⟩
    (seamless Seamless.stripeFold src 3).result = .ok d ∧
      Seamless.inside Seamless.stripeFold src.canvas ⟨1, 1⟩ = false ∧
      (∃ x, src.read ⟨1, 1⟩ = .ok x ∧ d.get? ⟨1, 1⟩ = some x) ∧
      Seamless.inside Seamless.stripeFold src.canvas ⟨3, 2⟩ = false ∧
      ∃ x, src.read src.canvas.center = .ok x ∧ d.get? ⟨3, 2⟩ = some x := by
  intro src d
  have hfilled : (seamless Seamless.stripeFold src 3).result = .ok d := by decide +kernel
  have hplan : Tile.plan src.canvas (.square 3) = .ok [⟨⟨0, 3⟩, ⟨0, 3⟩⟩, ⟨⟨0, 3⟩, ⟨3, 4⟩⟩] := by decide
  have hleft : Seamless.inside Seamless.stripeFold src.canvas ⟨1, 1⟩ = false := by decide +kernel
  have hright : Seamless.inside Seamless.stripeFold src.canvas ⟨3, 2⟩ = false := by decide +kernel
  obtain ⟨-, ⟨tiles, htiles, hcells⟩, -⟩ := seamless_keeps_or_folds hfilled
  obtain rfl := Except.ok.inj (hplan.symm.trans htiles)
  refine ⟨hfilled, hleft, ?_, hright, ?_⟩
  · obtain ⟨t, -, -, hunique, corners, hcorners, hkept, -⟩ := hcells ⟨1, 1⟩ (by decide)
    obtain rfl : ⟨⟨0, 3⟩, ⟨0, 3⟩⟩ = t := hunique _ (by decide) (Tile.mem_cells.mp (by decide))
    obtain rfl : [⟨0, 0⟩, ⟨2, 0⟩, ⟨0, 2⟩, ⟨2, 2⟩] = corners := Option.some.inj hcorners
    exact hkept (Or.inr (by decide +kernel))
  · obtain ⟨t, -, -, hunique, corners, hcorners, -, hfolded⟩ := hcells ⟨3, 2⟩ (by decide)
    obtain rfl : ⟨⟨0, 3⟩, ⟨3, 4⟩⟩ = t := hunique _ (by decide) (Tile.mem_cells.mp (by decide))
    obtain rfl : [⟨3, 0⟩, ⟨3, 0⟩, ⟨3, 2⟩, ⟨3, 2⟩] = corners := Option.some.inj hcorners
    obtain ⟨q, e, x, hfold, hnear, hread, hget, -⟩ := hfolded (by decide +kernel)
    have horigin : Seamless.origin? Seamless.stripeFold src.canvas ⟨3, 2⟩ = some src.canvas.center := by decide +kernel
    have hcenter := Option.some.inj ((Seamless.origin?_of_fold hfold hnear).symm.trans horigin)
    exact ⟨x, hcenter ▸ hread, hget⟩

end GlobeTexture
