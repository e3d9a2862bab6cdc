import GlobeTexture.Proofs.Drawing
import GlobeTexture.Proofs.Inward
import GlobeTexture.Proofs.Nearest

/-! # Where a seamless texture is read

A cell inside is read from its own place, and so is every cell of a tile that is copied unseen. Every other cell
is read from a cell of the canvas that is inside, or from the middle. -/

namespace GlobeTexture

namespace Seamless

variable {fold? : Fold} {k : Canvas} {size : TileSize} {tiles : List Tile} {c d : Cell}

theorem tileInside?_eq (hplan : Tile.plan k size = .ok tiles) {t : Tile} (ht : t ∈ tiles) :
    tileInside? fold? k t = some (t.corners.all (inside fold? k)) := by
  rw [tileInside?, Tile.corners?_eq (Tile.spans_of_mem_plan hplan ht), Option.map_some]

/-! ### Origins -/

theorem inside_eq_true_iff : inside fold? k c = true ↔ foldCell fold? k c = none := by
  rw [inside, Option.isNone_iff_eq_none]

theorem origin?_of_inside (h : inside fold? k c = true) : origin? fold? k c = some c := by
  rw [origin?, inside_eq_true_iff.mp h]

theorem origin?_of_fold {q : Point} {e : Cell} (hfold : foldCell fold? k c = some q)
    (hnear : k.nearest? ((Square.signedUnit.toCanvas k).apply q) = some e) :
    origin? fold? k c = some (k.inward (inside fold? k) e) := by
  rw [origin?, hfold]
  exact congrArg (Option.map _) hnear

/-- The origin of a cell is on the canvas, and it is inside or in the middle. -/
theorem exists_origin? (fold? : Fold) (hk : k.Addressable) (hc : c ∈ k) :
    ∃ d ∈ k, origin? fold? k c = some d ∧ (inside fold? k d = true ∨ d = k.center) := by
  cases hfold : foldCell fold? k c with
  | none =>
    have hin := inside_eq_true_iff.mpr hfold
    exact ⟨c, hc, origin?_of_inside hin, Or.inl hin⟩
  | some q =>
    obtain ⟨e, he, hnear⟩ := Canvas.exists_nearest? hk hc ((Square.signedUnit.toCanvas k).apply q)
    exact ⟨k.inward (inside fold? k) e, Canvas.inward_mem he, origin?_of_fold hfold hnear,
      Canvas.inward_accepted_or_center⟩

/-! ### Addresses -/

theorem at?_of_copied (hplan : Tile.plan k size = .ok tiles) (hc : c ∈ k)
    (h : (Tile.around k size c).corners.all (inside fold? k) = true) : (route fold? k).at? k size c = some c := by
  have hmode : (route fold? k).mode? (Tile.around k size c) = some true :=
    (tileInside?_eq hplan (Tile.around_mem_plan hplan hc).1).trans (congrArg some h)
  rw [Route.at?, Route.via?_of_mode hmode]
  rfl

theorem at?_of_not_copied (hplan : Tile.plan k size = .ok tiles) (hc : c ∈ k)
    (h : (Tile.around k size c).corners.all (inside fold? k) = false) :
    (route fold? k).at? k size c = origin? fold? k c := by
  have hmode : (route fold? k).mode? (Tile.around k size c) = some false :=
    (tileInside?_eq hplan (Tile.around_mem_plan hplan hc).1).trans (congrArg some h)
  rw [Route.at?, Route.via?_of_mode hmode]
  rfl

theorem at?_of_inside (hplan : Tile.plan k size = .ok tiles) (hc : c ∈ k) (h : inside fold? k c = true) :
    (route fold? k).at? k size c = some c := by
  cases hcopied : (Tile.around k size c).corners.all (inside fold? k) with
  | true => exact at?_of_copied hplan hc hcopied
  | false => rw [at?_of_not_copied hplan hc hcopied, origin?_of_inside h]

theorem exists_at? (fold? : Fold) (hplan : Tile.plan k size = .ok tiles) (hk : k.Addressable) (hc : c ∈ k) :
    ∃ d ∈ k, (route fold? k).at? k size c = some d := by
  cases hcopied : (Tile.around k size c).corners.all (inside fold? k) with
  | true => exact ⟨c, hc, at?_of_copied hplan hc hcopied⟩
  | false =>
    obtain ⟨d, hd, horigin, -⟩ := exists_origin? fold? hk hc
    exact ⟨d, hd, (at?_of_not_copied hplan hc hcopied).trans horigin⟩

end Seamless

section Outcome
variable {α : Type} [Pixel α] {src : Source α} {fold? : Fold} {s : Nat} {tiles : List Tile}

theorem seamless_draws (fold? : Fold) (src : Source α) (hplan : Tile.plan src.canvas (.square s) = .ok tiles)
    (hk : src.canvas.Storable (Pixel.bytes α)) :
    Draws (seamless fold? src s).result src ((Seamless.route fold? src.canvas).at? src.canvas (.square s)) := by
  rw [seamless_of_plan hplan hk]
  refine gather_draws hplan (fun c hc => ?_) hk default
  obtain ⟨d, -, hd⟩ := Seamless.exists_at? fold? hplan hk.1 hc
  exact ⟨d, hd⟩

theorem seamless_eq_ok {d : Raster α} (h : (seamless fold? src s).result = .ok d) :
    ∃ tiles, Tile.plan src.canvas (.square s) = .ok tiles ∧ src.canvas.Storable (Pixel.bytes α) ∧
      d.Copies src ((Seamless.route fold? src.canvas).at? src.canvas (.square s)) := by
  cases hplan : Tile.plan src.canvas (.square s) with
  | error e => simp [seamless, hplan] at h
  | ok tiles =>
    by_cases hk : src.canvas.Storable (Pixel.bytes α)
    · exact ⟨tiles, rfl, hk, (seamless_draws fold? src hplan hk).eq_ok_iff.mp h⟩
    · rw [seamless_of_not_storable hplan hk] at h
      cases h

end Outcome

end GlobeTexture
