import GlobeTexture.Proofs.Redrawing

/-! # Drawing from memory

Every cell of a raster in memory can be read, as it is or transposed. Drawing from such a source reads nothing off the
canvas and meets no fault but that of tiles without a side; it leaves the range of words only where there is no room
for the tiles or for the raster that is drawn. -/

namespace GlobeTexture

variable {α : Type} [Pixel α]

/-! ### Complete sources -/

/-- Every cell of the canvas can be read. -/
def Source.Complete {α : Type} (src : Source α) : Prop :=
  ∀ c ∈ src.canvas, ∃ x, src.read c = .ok x

theorem Canvas.mem_transpose_iff {k : Canvas} {c : Cell} : c ∈ k.transpose ↔ c.swap ∈ k :=
  and_comm

theorem Canvas.Storable.transpose {k : Canvas} {bytes : Nat} (h : k.Storable bytes) : k.transpose.Storable bytes := by
  obtain ⟨haddressable, hfits⟩ := h
  refine ⟨?_, ?_⟩
  · unfold Addressable at haddressable ⊢
    rwa [Nat.mul_comm] at haddressable
  · unfold Word.Fits area at hfits ⊢
    rwa [Nat.mul_comm k.height] at hfits

namespace View

theorem get?_eq_none_iff {v : View α} {c : Cell} : v.get? c = none ↔ c ∉ v.canvas := by
  unfold get? canvas
  split
  · rw [Raster.get?_eq_none_iff, Canvas.mem_transpose_iff]
  · exact Raster.get?_eq_none_iff

theorem source_complete (v : View α) : v.source.Complete := by
  intro c hc
  cases hget : v.get? c with
  | none => exact absurd hc (get?_eq_none_iff.mp hget)
  | some x => exact ⟨x, by simp [source, hget]⟩

theorem source_storable (v : View α) : v.source.canvas.Storable (Pixel.bytes α) := by
  show v.canvas.Storable (Pixel.bytes α)
  unfold canvas
  split
  · exact v.raster.storable.transpose
  · exact v.raster.storable

end View

/-! ### Outcomes -/

/-- There is room for the tiles of side `s` and for a raster of the size of the canvas. -/
def Canvas.HasRoom (k : Canvas) (bytes s : Nat) : Prop :=
  Word.Fits (Tile.count k (.square s)) Tile.bytes ∧ k.Storable bytes

/-- What becomes of a drawing with tiles of side `s` from a source on which every cell can be read. -/
structure Traced.Total (work : Traced (Raster α)) (k : Canvas) (s : Nat) : Prop where
  ok : (∃ r, work.result = .ok r) ↔ s ≠ 0 ∧ k.HasRoom (Pixel.bytes α) s
  outOfRange : work.result = .error .outOfRange ↔ s ≠ 0 ∧ ¬k.HasRoom (Pixel.bytes α) s
  fault : ∀ f, work.result = .error (.fault f) ↔ s = 0 ∧ f = .zeroTile
  reads : ∀ c ∈ Event.reads work.events, c ∈ k
  silent : s = 0 → work.events = []

namespace Redrawing

variable (m : Redrawing) {src : Source α} {s : Nat} {tiles : List Tile}

theorem draw_eq_ok (hsrc : src.Complete) (hplan : Tile.plan src.canvas (.square s) = .ok tiles)
    (hk : src.canvas.Storable (Pixel.bytes α)) :
    ∃ r, (m.draw src s).result = .ok r ∧ r.Copies src (m.address? src.canvas s) := by
  have hdraws := m.draw_draws hplan hk
  have hok := hdraws.exists_eq_ok_iff.mpr fun c hc => by
    obtain ⟨d, hd, haddress⟩ := m.exists_address? hplan hk.1 hc
    obtain ⟨x, hread⟩ := hsrc d hd
    exact ⟨d, x, haddress, hread⟩
  obtain ⟨r, hr⟩ := hok
  exact ⟨r, hr, hdraws.eq_ok_iff.mp hr⟩

theorem draw_eq_outOfRange (hk : src.canvas.Addressable) (hs : s ≠ 0) (hword : s < Word.limit)
    (hroom : ¬src.canvas.HasRoom (Pixel.bytes α) s) : (m.draw src s).result = .error .outOfRange := by
  have hrange := Tile.plan_square_eq_outOfRange_iff hk hs hword
  by_cases hfits : Word.Fits (Tile.count src.canvas (.square s)) Tile.bytes
  · obtain ⟨tiles, hplan⟩ := Tile.exists_plan hs fun h => hrange.mp h hfits
    rw [m.draw_of_not_storable hplan fun hstorable => hroom ⟨hfits, hstorable⟩]
  · rw [m.draw_of_plan_error (hrange.mpr hfits)]

theorem draw_total (hsrc : src.Complete) (hk : src.canvas.Addressable) (hword : s < Word.limit) :
    (m.draw src s).Total src.canvas s := by
  have hreads : ∀ c ∈ Event.reads (m.draw src s).events, c ∈ src.canvas := fun c hc => m.draw_reads_mem hc
  by_cases hs : s = 0
  · subst hs
    have heq : m.draw src 0 = ⟨[], .error (.fault .zeroTile)⟩ := m.draw_of_plan_error rfl
    exact ⟨by simp [heq], by simp [heq], by simp [heq, eq_comm], hreads, fun _ => by rw [heq]⟩
  · by_cases hroom : src.canvas.HasRoom (Pixel.bytes α) s
    · have hrange := Tile.plan_square_eq_outOfRange_iff hk hs hword
      obtain ⟨tiles, hplan⟩ := Tile.exists_plan hs fun h => hrange.mp h hroom.1
      obtain ⟨r, hr, -⟩ := m.draw_eq_ok hsrc hplan hroom.2
      exact ⟨by simp [hr, hs, hroom], by simp [hr, hroom], by simp [hr, hs], hreads, fun h => absurd h hs⟩
    · have hr := m.draw_eq_outOfRange hk hs hword hroom
      exact ⟨by simp [hr, hroom], by simp [hr, hs, hroom], by simp [hr, hs], hreads, fun h => absurd h hs⟩

end Redrawing

/-- Every view of a raster can be read at all of its cells and has offsets that are signed words. From every such
    source each operation, each redrawing in another projection and each filling reads on the canvas only. It meets a
    fault exactly if tiles have no side, and that before it does anything; and with tiles that have a side it succeeds
    if there is room for them and for the result, and leaves the range of words if there is none. -/
theorem draw_resample_seamless_total :
    (∀ v : View α, v.source.Complete ∧ v.source.canvas.Storable (Pixel.bytes α)) ∧
    ∀ src : Source α, src.Complete → src.canvas.Addressable → ∀ s < Word.limit,
      (∀ op : Operation, (op.draw src ⟨s⟩).Total src.canvas s) ∧
      (∀ source target : Projection, (resample src source target s).Total src.canvas s) ∧
      ∀ fold? : Fold, (seamless fold? src s).Total src.canvas s := by
  refine ⟨fun v => ⟨v.source_complete, v.source_storable⟩, fun src hsrc hk s hs => ?_⟩
  refine ⟨fun op => ?_, fun source target => ?_, fun fold? => ?_⟩
  · rw [op.draw_eq]
    exact op.redrawing.draw_total hsrc hk hs
  · exact (Redrawing.resample source target).draw_total hsrc hk hs
  · exact (Redrawing.seamless fold?).draw_total hsrc hk hs

/-- A transposed picture of three columns, whose tiles of side two are clipped: all work on it succeeds, and with tiles
    without a side nothing happens. -/
theorem draw_resample_seamless_total_transposed :
    let v : View UInt32 := Raster.transposedView ⟨⟨2, 3⟩, #[0, 1, 2, 3, 4, 5], rfl, by decide⟩
    v.source.canvas = ⟨3, 2⟩ ∧ v.source.Complete ∧ v.source.canvas.Addressable ∧
      (∃ r, (Operation.polarToMercator.draw v.source ⟨2⟩).result = .ok r) ∧
      (seamless Hammer.fold? v.source 0).result = .error (.fault .zeroTile) ∧
      (seamless Hammer.fold? v.source 0).events = [] := by
  intro v
  obtain ⟨hviews, htotal⟩ := @draw_resample_seamless_total UInt32 _
  obtain ⟨hcomplete, haddressable, -⟩ := hviews v
  obtain ⟨hop, -, -⟩ := htotal v.source hcomplete haddressable 2 (by decide)
  obtain ⟨-, -, hseamless⟩ := htotal v.source hcomplete haddressable 0 (by decide)
  have hroom : v.source.canvas.HasRoom (Pixel.bytes UInt32) 2 := ⟨by decide, by decide⟩
  exact ⟨rfl, hcomplete, haddressable, (hop .polarToMercator).ok.mpr ⟨by decide, hroom⟩,
    ((hseamless Hammer.fold?).fault _).mpr ⟨rfl, rfl⟩, (hseamless Hammer.fold?).silent rfl⟩

/-- A column so long that its tiles of one cell find no room, though its pixels do; and a source that has a pixel at
    each of so many cells that a copy of them finds no room, though one tile covers it. -/
theorem draw_outOfRange_of_no_room :
    let r : Raster UInt32 := .replicate ⟨1, 0x400000000000000⟩ (by decide) 0
    let src : Source UInt32 := .numbered ⟨1, 0x2000000000000000⟩
    (r.source.Complete ∧ r.source.canvas.Addressable ∧
        ∀ op : Operation, (op.draw r.source ⟨1⟩).result = .error .outOfRange) ∧
      src.Complete ∧ src.canvas.Addressable ∧
      ∀ op : Operation, (op.draw src ⟨0x2000000000000000⟩).result = .error .outOfRange := by
  intro r src
  have hcomplete : src.Complete := fun c _ => ⟨_, rfl⟩
  have hr : r.source.canvas.Addressable := r.storable.1
  have hsrc : src.canvas.Addressable := by decide
  refine ⟨⟨r.view.source_complete, hr, fun op => ?_⟩, hcomplete, hsrc, fun op => ?_⟩
  · rw [op.draw_eq]
    exact op.redrawing.draw_eq_outOfRange hr (by decide) (by decide) fun hroom => absurd hroom.1 (by decide)
  · rw [op.draw_eq]
    exact op.redrawing.draw_eq_outOfRange hsrc (by decide) (by decide) fun hroom => absurd hroom.2 (by decide)

end GlobeTexture
