import GlobeTexture.Proofs.Seamless.Skipping
import GlobeTexture.Proofs.Totality

/-! # What lies outside

Where the cells inside have no gaps, a texture is filled from cells that are inside and from the middle of the canvas.
No other cell is read, so nothing that lies outside shows in what is drawn. -/

namespace GlobeTexture

variable {α : Type} [Pixel α]

/-! ### Sources that agree -/

/-- Sources of one size with the same pixels where `p` holds. -/
structure Source.AgreeOn {α : Type} (p : Cell → Prop) (src src' : Source α) : Prop where
  canvas : src'.canvas = src.canvas
  read : ∀ c ∈ src.canvas, p c → src'.read c = src.read c

theorem View.agreeOn {p : Cell → Prop} {v w : View α} (hk : w.canvas = v.canvas)
    (h : ∀ c ∈ v.canvas, p c → v.get? c = w.get? c) : v.source.AgreeOn p w.source := by
  refine ⟨hk, fun c hc hp => ?_⟩
  simp only [source, h c hc hp]

/-- A copy of one source is a copy of another if they agree at the addresses. -/
theorem Raster.Copies.of_agreeOn {p : Cell → Prop} {src src' : Source α} {address? : Cell → Option Cell} {r : Raster α}
    (h : r.Copies src address?) (hagree : src.AgreeOn p src')
    (haddress : ∀ c ∈ src.canvas, ∀ d, address? c = some d → d ∈ src.canvas ∧ p d) : r.Copies src' address? := by
  refine ⟨h.canvas.trans hagree.canvas.symm, fun c hc => ?_⟩
  rw [hagree.canvas] at hc
  obtain ⟨d, x, hd, hread, hget⟩ := h.pixel c hc
  obtain ⟨hmem, hp⟩ := haddress c hc d hd
  exact ⟨d, x, hd, (hagree.read d hmem hp).trans hread, hget⟩

/-! ### Filled textures -/

/-- Cells that are inside or in the middle. -/
def Seamless.Shown (fold? : Fold) (k : Canvas) (c : Cell) : Prop :=
  inside fold? k c = true ∨ c = k.center

theorem Seamless.shown_of_origin? {fold? : Fold} {k : Canvas} (hk : k.Addressable) {c d : Cell} (hc : c ∈ k)
    (h : origin? fold? k c = some d) : d ∈ k ∧ Shown fold? k d := by
  obtain ⟨e, he, horigin, hshown⟩ := exists_origin? fold? hk hc
  obtain rfl : e = d := Option.some.inj (horigin.symm.trans h)
  exact ⟨he, hshown⟩

section Filled
variable {fold? : Fold} {src src' : Source α} {s s' : Nat}
  (hgap : src.canvas.GapFree fun c => Seamless.inside fold? src.canvas c = true)
include hgap

theorem seamless_reads_shown {d : Cell} (hd : d ∈ Event.reads (seamless fold? src s).events) :
    d ∈ src.canvas ∧ Seamless.Shown fold? src.canvas d := by
  obtain ⟨tiles, hplan, hk, c, hc, haddress⟩ := (Redrawing.seamless fold?).draw_reads hd
  exact Seamless.shown_of_origin? hk.1 hc ((Seamless.at?_eq_origin? hgap hplan hc).symm.trans haddress)

theorem seamless_of_agreeOn (hk : src.canvas.Storable (Pixel.bytes α))
    (hagree : src.AgreeOn (Seamless.Shown fold? src.canvas) src')
    (hs : s ≠ 0) (hplan : Tile.plan src.canvas (.square s) ≠ .error .outOfRange)
    (hs' : s' ≠ 0) (hplan' : Tile.plan src.canvas (.square s') ≠ .error .outOfRange)
    {r : Raster α} (hr : (seamless fold? src s).result = .ok r) : (seamless fold? src' s').result = .ok r := by
  have hcopies := (seamless_draws_origins hgap hk hs hplan).eq_ok_iff.mp hr
  rw [← hagree.canvas] at hgap hk hplan'
  rw [(seamless_draws_origins hgap hk hs' hplan').eq_ok_iff, hagree.canvas]
  exact hcopies.of_agreeOn hagree fun c hc d => Seamless.shown_of_origin? (hagree.canvas ▸ hk).1 hc

end Filled

/-- Where the cells inside have no gaps, all pictures that agree inside and in the middle become the same raster when
    they are filled, with tiles of whatever sizes; and filling any source reads there only. -/
theorem seamless_ignores_outside (fold? : Fold) (k : Canvas)
    (hgap : k.GapFree fun c => Seamless.inside fold? k c = true) :
    (∀ v w : View α, v.canvas = k → w.canvas = k →
      (∀ c ∈ k, Seamless.inside fold? k c = true ∨ c = k.center → v.get? c = w.get? c) →
      ∀ s ≠ 0, Tile.plan k (.square s) ≠ .error .outOfRange →
      ∀ s' ≠ 0, Tile.plan k (.square s') ≠ .error .outOfRange →
        ∃ r, (seamless fold? v.source s).result = .ok r ∧ (seamless fold? w.source s').result = .ok r) ∧
    ∀ src : Source α, src.canvas = k → ∀ s, ∀ c ∈ Event.reads (seamless fold? src s).events,
      c ∈ k ∧ (Seamless.inside fold? k c = true ∨ c = k.center) := by
  refine ⟨?_, ?_⟩
  · rintro v w rfl hw hagree s hs hplan s' hs' hplan'
    obtain ⟨tiles, htiles⟩ := Tile.exists_plan hs hplan
    obtain ⟨r, hr, -⟩ := (Redrawing.seamless fold?).draw_eq_ok v.source_complete htiles v.source_storable
    exact ⟨r, hr, seamless_of_agreeOn hgap v.source_storable (View.agreeOn hw hagree) hs hplan hs' hplan' hr⟩
  · rintro src rfl s c hc
    exact seamless_reads_shown hgap hc

/-- Pictures that differ at every cell outside the disc, one filled with tiles of side two and one in a single tile. -/
theorem seamless_ignores_outside_discFold :
    let v : Raster UInt32 := ⟨⟨4, 4⟩, #[0, 1, 2, 3, 4, 5, 6, 7, 8, 9, 10, 11, 12, 13, 14, 15], rfl, by decide⟩
    let w : Raster UInt32 := ⟨⟨4, 4⟩, #[90, 91, 2, 93, 94, 5, 6, 7, 8, 9, 10, 11, 92, 13, 14, 15], rfl, by decide⟩
    Canvas.GapFree ⟨4, 4⟩ (fun c => Seamless.inside Seamless.discFold ⟨4, 4⟩ c = true) ∧
      (∀ c ∈ Canvas.cells ⟨4, 4⟩, Seamless.inside Seamless.discFold ⟨4, 4⟩ c = false ↔ v.get? c ≠ w.get? c) ∧
      (∃ r, (seamless Seamless.discFold v.view.source 2).result = .ok r ∧
        (seamless Seamless.discFold w.view.source 4).result = .ok r) ∧
      ∀ c ∈ Event.reads (seamless Seamless.discFold v.view.source 2).events,
        Seamless.inside Seamless.discFold ⟨4, 4⟩ c = true ∨ c = ⟨2, 2⟩ := by
  intro v w
  have houtside : ∀ c ∈ Canvas.cells ⟨4, 4⟩,
      Seamless.inside Seamless.discFold ⟨4, 4⟩ c = false ↔ v.get? c ≠ w.get? c := by
    decide +kernel
  have hagree : ∀ c ∈ Canvas.cells ⟨4, 4⟩,
      Seamless.inside Seamless.discFold ⟨4, 4⟩ c = true ∨ c = ⟨2, 2⟩ → v.get? c = w.get? c := by
    decide +kernel
  obtain ⟨hsame, hreads⟩ := @seamless_ignores_outside UInt32 _ Seamless.discFold ⟨4, 4⟩ Seamless.gapFree_discFold
  refine ⟨Seamless.gapFree_discFold, houtside, ?_, fun c hc => (hreads v.view.source rfl 2 c hc).2⟩
  exact hsame v.view w.view rfl rfl (fun c hc => hagree c (Canvas.mem_cells.mpr hc)) 2 (by decide) (by decide)
    4 (by decide) (by decide)

end GlobeTexture
