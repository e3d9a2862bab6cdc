import GlobeTexture.Operation.Run
import GlobeTexture.Proofs.Gathering
import GlobeTexture.Proofs.Tiling

/-! # What a pass draws

A pass over the tiles of a plan writes every cell of the canvas, each from its own address only, so the raster
it draws does not depend on the order of the writes nor on what was on the canvas before. -/

namespace GlobeTexture

variable {μ α : Type}

namespace Raster

variable [Pixel α]

/-! ### Painting -/

theorem get?_paint_of_ne {r : Raster α} {ws : List (Cell × α)} {c : Cell} (hin : ∀ w ∈ ws, w.1 ∈ r.canvas)
    (hne : ∀ w ∈ ws, w.1 ≠ c) : (r.paint ws).get? c = r.get? c := by
  induction ws generalizing r with
  | nil => rfl
  | cons w ws ih =>
    obtain ⟨hw, hws⟩ := List.forall_mem_cons.mp hin
    obtain ⟨hwc, hwsc⟩ := List.forall_mem_cons.mp hne
    have hrest : ((r.set w.1 w.2).paint ws).get? c = (r.set w.1 w.2).get? c := ih hws hwsc
    rw [get?_set hw, if_neg (Ne.symm hwc)] at hrest
    exact hrest

theorem get?_paint {r : Raster α} {ws : List (Cell × α)} {c : Cell} {x : α} (hin : ∀ w ∈ ws, w.1 ∈ r.canvas)
    (hc : c ∈ ws.map Prod.fst) (hx : ∀ w ∈ ws, w.1 = c → w.2 = x) : (r.paint ws).get? c = some x := by
  induction ws generalizing r with
  | nil => cases hc
  | cons w ws ih =>
    obtain ⟨hw, hws⟩ := List.forall_mem_cons.mp hin
    obtain ⟨hwx, hwsx⟩ := List.forall_mem_cons.mp hx
    show ((r.set w.1 w.2).paint ws).get? c = some x
    by_cases hlater : c ∈ ws.map Prod.fst
    · exact ih hws hlater hwsx
    · -- This is the last write to the cell.
      obtain rfl : c = w.1 := (List.mem_cons.mp hc).resolve_right hlater
      have hne : ∀ v ∈ ws, v.1 ≠ w.1 := fun v hv heq => hlater (heq ▸ List.mem_map_of_mem hv)
      have hkept : ((r.set w.1 w.2).paint ws).get? w.1 = (r.set w.1 w.2).get? w.1 := get?_paint_of_ne hws hne
      rw [hkept, get?_set hw, if_pos rfl, hwx rfl]

theorem source_read_eq_ok_iff {r : Raster α} {c : Cell} {x : α} : r.source.read c = .ok x ↔ r.get? c = some x := by
  cases hget : r.get? c <;> simp [source, hget]

/-! ### Copies -/

/-- A raster of the size of a source that has at each cell the pixel of the source at the cell's address. -/
structure Copies (r : Raster α) (src : Source α) (address? : Cell → Option Cell) : Prop where
  canvas : r.canvas = src.canvas
  pixel : ∀ c ∈ src.canvas, ∃ d x, address? c = some d ∧ src.read d = .ok x ∧ r.get? c = some x

variable {r s : Raster α} {src : Source α} {address? : Cell → Option Cell}

theorem Copies.exists_pixel (h : r.Copies src address?) {c d : Cell} (hc : c ∈ src.canvas) (hd : address? c = some d) :
    ∃ x, src.read d = .ok x ∧ r.get? c = some x := by
  obtain ⟨d', x, hd', hread, hget⟩ := h.pixel c hc
  obtain rfl : d' = d := Option.some.inj (hd'.symm.trans hd)
  exact ⟨x, hread, hget⟩

theorem Copies.unique (hr : r.Copies src address?) (hs : s.Copies src address?) : r = s := by
  refine ext_get? (hr.canvas.trans hs.canvas.symm) fun c hc => ?_
  rw [hr.canvas] at hc
  obtain ⟨d, x, hd, hread, hget⟩ := hr.pixel c hc
  obtain ⟨d', y, hd', hread', hget'⟩ := hs.pixel c hc
  obtain rfl : d = d' := Option.some.inj (hd.symm.trans hd')
  obtain rfl : x = y := Except.ok.inj (hread.symm.trans hread')
  rw [hget, hget']

end Raster

/-! ### Drawings -/

/-- An outcome is a copy of the source, or the fault of one of the reads that a copy takes. -/
def Draws [Pixel α] (outcome : Except Failure (Raster α)) (src : Source α) (address? : Cell → Option Cell) : Prop :=
  (∃ r, outcome = .ok r ∧ r.Copies src address?) ∨
    ∃ c ∈ src.canvas, ∃ d f, address? c = some d ∧ src.read d = .error f ∧ outcome = .error (.fault f)

namespace Draws

variable [Pixel α] {outcome : Except Failure (Raster α)} {src : Source α} {address? : Cell → Option Cell}

theorem eq_ok_iff (h : Draws outcome src address?) {r : Raster α} : outcome = .ok r ↔ r.Copies src address? := by
  rcases h with ⟨r', rfl, hcopies⟩ | ⟨c, hc, d, f, hd, hread, rfl⟩
  · refine ⟨fun hr => Except.ok.inj hr ▸ hcopies, fun hr => ?_⟩
    rw [hcopies.unique hr]
  · refine ⟨fun hr => absurd hr (by simp), fun hr => ?_⟩
    -- The cell that cannot be read is one that a copy would have.
    obtain ⟨d', x, hd', hread', -⟩ := hr.pixel c hc
    rw [hd] at hd'
    cases hd'
    rw [hread] at hread'
    cases hread'

theorem exists_eq_ok_iff (h : Draws outcome src address?) :
    (∃ r, outcome = .ok r) ↔ ∀ c ∈ src.canvas, ∃ d x, address? c = some d ∧ src.read d = .ok x := by
  constructor
  · rintro ⟨r, hr⟩ c hc
    obtain ⟨d, x, hd, hread, -⟩ := (h.eq_ok_iff.mp hr).pixel c hc
    exact ⟨d, x, hd, hread⟩
  · intro hall
    rcases h with ⟨r, hr, -⟩ | ⟨c, hc, d, f, hd, hread, -⟩
    · exact ⟨r, hr⟩
    · obtain ⟨d', x, hd', hread'⟩ := hall c hc
      rw [hd] at hd'
      cases hd'
      rw [hread] at hread'
      cases hread'

theorem exists_fault (h : Draws outcome src address?) (hne : ∀ r, outcome ≠ .ok r) :
    ∃ c ∈ src.canvas, ∃ d f, address? c = some d ∧ src.read d = .error f ∧ outcome = .error (.fault f) := by
  rcases h with ⟨r, hr, -⟩ | hfault
  · exact absurd hr (hne r)
  · exact hfault

/-- If the reads of a source fail with one fault only, work that takes a failing one ends with this fault. -/
theorem eq_fault (h : Draws outcome src address?) {f : Fault} (honly : ∀ d g, src.read d = .error g → g = f)
    {c d : Cell} (hc : c ∈ src.canvas) (hd : address? c = some d) (hread : src.read d = .error f) :
    outcome = .error (.fault f) := by
  have hne : ∀ r, outcome ≠ .ok r := by
    intro r hr
    obtain ⟨x, hx, -⟩ := (h.eq_ok_iff.mp hr).exists_pixel hc hd
    rw [hread] at hx
    cases hx
  obtain ⟨-, -, d', g, -, hread', houtcome⟩ := h.exists_fault hne
  rw [houtcome, honly d' g hread']

theorem congr {other? : Cell → Option Cell} (h : Draws outcome src address?)
    (heq : ∀ c ∈ src.canvas, address? c = other? c) : Draws outcome src other? := by
  rcases h with ⟨r, hr, hcopies⟩ | ⟨c, hc, d, f, hd, hread, hfault⟩
  · exact Or.inl ⟨r, hr, hcopies.canvas, fun c hc => heq c hc ▸ hcopies.pixel c hc⟩
  · exact Or.inr ⟨c, hc, d, f, heq c hc ▸ hd, hread, hfault⟩

end Draws

/-- A source of different pixels: each cell has the number of its place. -/
def Source.numbered (k : Canvas) : Source UInt32 where
  canvas := k
  read c := .ok (.ofNat (k.offset c))

theorem Source.read_numbered_failing_iff {k : Canvas} {c d : Cell} {f g : Fault} :
    ((numbered k).failing fun e => if e = c then some f else none).read d = .error g ↔ d = c ∧ g = f := by
  by_cases h : d = c
  · simpa [failing, h] using eq_comm
  · simp [failing, numbered, h]

/-! ### Planned passes -/

/-- Where a pass over a plan reads for a cell. -/
def Route.at? (route : Route μ) (k : Canvas) (size : TileSize) (c : Cell) : Option Cell :=
  route.via? (Tile.around k size c) c

section Planned
variable {src : Source α} {route : Route μ} {size : TileSize} {tiles : List Tile}

/-- A pass over a plan paints cells of the canvas only, so none of its writes is dropped. -/
theorem Route.Finished.mem_canvas (hplan : Tile.plan src.canvas size = .ok tiles) {ms : List μ}
    {ws : List (Cell × α)} (h : route.Finished src tiles ms ws) : ∀ w ∈ ws, w.1 ∈ src.canvas := by
  intro w hw
  obtain ⟨t, ht, hwt, -⟩ := h.pixels w hw
  exact Tile.mem_of_mem_plan hplan ht hwt

theorem Route.Finished.paint_copies [Pixel α] (hplan : Tile.plan src.canvas size = .ok tiles) {ms : List μ}
    {ws : List (Cell × α)} (h : route.Finished src tiles ms ws) (hk : src.canvas.Storable (Pixel.bytes α)) (blank : α) :
    ((Raster.replicate src.canvas hk blank).paint ws).Copies src (route.at? src.canvas size) where
  canvas := Raster.canvas_paint _ _
  pixel c hc := by
    obtain ⟨haround, hmem⟩ := Tile.around_mem_plan hplan hc
    have hpainted : c ∈ ws.map Prod.fst := by
      rw [h.cells]
      exact List.mem_flatMap.mpr ⟨_, haround, Tile.mem_cells.mpr hmem⟩
    obtain ⟨w, hw, rfl⟩ := List.mem_map.mp hpainted
    -- All writes to the cell come from the one tile around it.
    have hall : ∀ v ∈ ws, v.1 = w.1 → src.pixel (route.at? src.canvas size) w.1 = .ok v.2 := by
      intro v hv heq
      obtain ⟨t, ht, hvt, hx⟩ := h.pixels v hv
      rw [Tile.eq_around hplan ht hvt, heq] at hx
      exact hx
    obtain ⟨d, hd, hread⟩ := Source.pixel_eq_ok_iff.mp (hall w hw rfl)
    refine ⟨d, w.2, hd, hread, Raster.get?_paint (h.mem_canvas hplan) hpainted fun v hv heq => ?_⟩
    exact Except.ok.inj ((hall v hv heq).symm.trans (hall w hw rfl))

/-- A pass over a plan that ends before its time ends at a cell of the canvas that gets no pixel. -/
theorem Route.Halted.failed_at (hplan : Tile.plan src.canvas size = .ok tiles) {done : List Tile} {t : Tile}
    {before : List Cell} {c : Cell} {e : Failure} (h : route.Halted src tiles done t before c e) :
    c ∈ src.canvas ∧ src.pixel (route.at? src.canvas size) c = .error e := by
  obtain ⟨ht, hc⟩ := h.mem
  refine ⟨Tile.mem_of_mem_plan hplan ht hc, ?_⟩
  have hfailed := h.failed
  rwa [Tile.eq_around hplan ht hc] at hfailed

/-- A pass over a plan draws a copy of the source, whatever was on the canvas before, if it has an address for each
    cell. -/
theorem gather_draws [Pixel α] (hplan : Tile.plan src.canvas size = .ok tiles)
    (haddress : ∀ c ∈ src.canvas, ∃ d, route.at? src.canvas size c = some d)
    (hk : src.canvas.Storable (Pixel.bytes α)) (blank : α) :
    Draws ((gather src tiles route).result.map fun g => (Raster.replicate src.canvas hk blank).paint g.pixels) src
      (route.at? src.canvas size) := by
  have hne : ∀ t ∈ tiles, t.cells ≠ [] := fun t ht => Tile.cells_ne_nil_of_mem_plan hplan ht
  rcases route.readable_or_halted src tiles with hall | ⟨done, t, before, c, e, h⟩
  · obtain ⟨ms, ws, hfin, heq⟩ := gather_of_readable hne hall
    exact Or.inl ⟨_, by rw [heq]; rfl, hfin.paint_copies hplan hk blank⟩
  · obtain ⟨hmem, hfailed⟩ := h.failed_at hplan
    rcases Source.pixel_eq_error_iff.mp hfailed with ⟨hnone, -⟩ | ⟨d, f, hd, hread, rfl⟩
    · obtain ⟨d, hd⟩ := haddress c hmem
      exact absurd (hnone.symm.trans hd) (by simp)
    · exact Or.inr ⟨c, hmem, d, f, hd, hread, by rw [gather_of_halted hne h]; rfl⟩

end Planned

/-! ### The two drawings -/

section Drawing
variable [Pixel α] {src : Source α} {s : Nat} {tiles : List Tile}

theorem resample_of_plan {source target : Projection} (hplan : Tile.plan src.canvas (.square s) = .ok tiles)
    (hk : src.canvas.Storable (Pixel.bytes α)) :
    resample src source target s =
      ⟨.note (.resampling src.canvas tiles.length) ::
          (gather src tiles (Resample.route source target src.canvas)).events,
        (gather src tiles (Resample.route source target src.canvas)).result.map fun g =>
          (Raster.replicate src.canvas hk default).paint g.pixels⟩ := by
  rw [resample, hplan, Traced.lift_ok_bind, Traced.emit_bind, Traced.require_of_pos hk, Traced.lift_ok_bind]
  cases hg : (gather src tiles (Resample.route source target src.canvas)).result with
  | ok g => simp [Traced.bind_of_ok hg, Except.map]
  | error e => simp [Traced.bind_of_error hg, Except.map]

theorem resample_of_not_storable {source target : Projection} (hplan : Tile.plan src.canvas (.square s) = .ok tiles)
    (hk : ¬src.canvas.Storable (Pixel.bytes α)) :
    resample src source target s = ⟨[.note (.resampling src.canvas tiles.length)], .error .outOfRange⟩ := by
  rw [resample, hplan, Traced.lift_ok_bind, Traced.emit_bind, Traced.require_of_neg hk, Traced.lift_error_bind]

theorem seamless_of_plan {fold? : Fold} (hplan : Tile.plan src.canvas (.square s) = .ok tiles)
    (hk : src.canvas.Storable (Pixel.bytes α)) :
    seamless fold? src s =
      ⟨(gather src tiles (Seamless.route fold? src.canvas)).events ++
          (match (gather src tiles (Seamless.route fold? src.canvas)).result with
          | .ok g => [.note (.filled src.canvas tiles.length (g.modes.count true))]
          | .error _ => []),
        (gather src tiles (Seamless.route fold? src.canvas)).result.map fun g =>
          (Raster.replicate src.canvas hk default).paint g.pixels⟩ := by
  rw [seamless, hplan, Traced.lift_ok_bind, Traced.require_of_pos hk, Traced.lift_ok_bind]
  cases hg : (gather src tiles (Seamless.route fold? src.canvas)).result with
  | ok g => simp [Traced.bind_of_ok hg, Except.map]
  | error e => simp [Traced.bind_of_error hg, Except.map]

theorem seamless_of_not_storable {fold? : Fold} (hplan : Tile.plan src.canvas (.square s) = .ok tiles)
    (hk : ¬src.canvas.Storable (Pixel.bytes α)) : seamless fold? src s = ⟨[], .error .outOfRange⟩ := by
  rw [seamless, hplan, Traced.lift_ok_bind, Traced.require_of_neg hk, Traced.lift_error_bind]

end Drawing

end GlobeTexture
