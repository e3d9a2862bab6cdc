import GlobeTexture.Proofs.Redrawing
import Mathlib.Control.Monad.Basic

/-! # Reads in turn

A drawing reads one cell for each cell of the canvas, tile by tile and row by row in a tile, and nothing else: neither
the look at the corners of a tile nor the way inward reads a pixel. The first read that fails is the last one, and its
fault is what the drawing ends with. -/

namespace GlobeTexture

variable {μ α β γ : Type}

/-- Work that reads the addresses of some cells in turn: all of them, or those up to the first one that fails, whose
    fault it ends with. -/
inductive Traced.ReadsInTurn (work : Traced β) (src : Source α) (cells : List Cell) (a : Cell → Cell) : Prop
  | complete (readable : ∀ c ∈ cells, ∃ x, src.read (a c) = .ok x)
      (reads : Event.reads work.events = cells.map a) (ok : ∃ b, work.result = .ok b)
  | stopped (before after : List Cell) (c : Cell) (f : Fault) (split : cells = before ++ c :: after)
      (readable : ∀ d ∈ before, ∃ x, src.read (a d) = .ok x) (failed : src.read (a c) = .error f)
      (reads : Event.reads work.events = (before ++ [c]).map a) (fault : work.result = .error (.fault f))

/-- Work on a source with tiles of side `s` that takes the cells of the canvas tile by tile and reads in turn. -/
structure Traced.Scans (work : Traced β) (src : Source α) (s : Nat) (tiles : List Tile) (a : Cell → Cell) : Prop where
  plan : Tile.plan src.canvas (.square s) = .ok tiles
  perm : (tiles.flatMap Tile.cells).Perm src.canvas.cells
  length : (tiles.flatMap Tile.cells).length = src.canvas.width * src.canvas.height
  reads : work.ReadsInTurn src (tiles.flatMap Tile.cells) a

theorem Traced.ReadsInTurn.map {work : Traced β} {work' : Traced γ} {src : Source α} {cells : List Cell}
    {a : Cell → Cell} (h : work.ReadsInTurn src cells a) (f : β → γ)
    (hreads : Event.reads work'.events = Event.reads work.events) (hresult : work'.result = work.result.map f) :
    work'.ReadsInTurn src cells a := by
  rcases h with ⟨hreadable, hall, b, hok⟩ | ⟨before, after, c, e, hsplit, hreadable, hfailed, hall, hfault⟩
  · exact .complete hreadable (hreads.trans hall) ⟨f b, by rw [hresult, hok]; rfl⟩
  · exact .stopped before after c e hsplit hreadable hfailed (hreads.trans hall) (by rw [hresult, hfault]; rfl)

/-! ### Passes -/

theorem Source.pixel_eq_ok_of_address {src : Source α} {address? : Cell → Option Cell} {c d : Cell}
    (h : address? c = some d) {x : α} : src.pixel address? c = .ok x ↔ src.read d = .ok x := by
  rw [Source.pixel, h]
  exact Failure.ofExcept_eq_ok_iff

section Gather
variable {src : Source α} {route : Route μ} {tiles : List Tile} {a : Cell → Cell}

theorem Route.filterMap_via? {t : Tile} {cs : List Cell} (ha : ∀ c ∈ cs, route.via? t c = some (a c)) :
    cs.filterMap (route.via? t) = cs.map a := by
  rw [← List.filterMap_eq_map]
  exact List.filterMap_congr ha

theorem Route.reads_journal_of_address (ha : ∀ t ∈ tiles, ∀ c ∈ t.cells, route.via? t c = some (a c)) (total n : Nat) :
    Event.reads (route.journal total n tiles) = (tiles.flatMap Tile.cells).map a := by
  rw [route.reads_journal, List.map_flatMap]
  exact List.flatMap_congr fun t ht => Route.filterMap_via? (ha t ht)

theorem Route.exists_read_of_pixel {t : Tile} {cs : List Cell} (ha : ∀ c ∈ cs, route.via? t c = some (a c))
    (h : ∀ c ∈ cs, ∃ x, src.pixel (route.via? t) c = .ok x) : ∀ c ∈ cs, ∃ x, src.read (a c) = .ok x := by
  intro c hc
  obtain ⟨x, hx⟩ := h c hc
  exact ⟨x, (Source.pixel_eq_ok_of_address (ha c hc)).mp hx⟩

theorem Route.exists_read_of_readable (ha : ∀ t ∈ tiles, ∀ c ∈ t.cells, route.via? t c = some (a c))
    (h : ∀ t ∈ tiles, route.Readable src t) : ∀ c ∈ tiles.flatMap Tile.cells, ∃ x, src.read (a c) = .ok x := by
  intro c hc
  obtain ⟨t, ht, hct⟩ := List.mem_flatMap.mp hc
  exact Route.exists_read_of_pixel (ha t ht) (h t ht) c hct

theorem gather_readsInTurn_of_halted (hne : ∀ t ∈ tiles, t.cells ≠ [])
    (ha : ∀ t ∈ tiles, ∀ c ∈ t.cells, route.via? t c = some (a c)) {done : List Tile} {t : Tile} {before : List Cell}
    {c : Cell} {e : Failure} (h : route.Halted src tiles done t before c e) :
    (gather src tiles route).ReadsInTurn src (tiles.flatMap Tile.cells) a := by
  obtain ⟨rest, hsplit⟩ := h.tiles
  obtain ⟨after, hcells⟩ := h.cells
  have hdone : ∀ u ∈ done, ∀ d ∈ u.cells, route.via? u d = some (a d) := fun u hu => ha u (by simp [hsplit, hu])
  have hbefore : ∀ d ∈ before ++ [c], route.via? t d = some (a d) := by
    intro d hd
    refine ha t (by simp [hsplit]) d ?_
    rw [hcells, List.append_cons]
    exact List.mem_append_left after hd
  have hc := hbefore c (by simp)
  rcases Source.pixel_eq_error_iff.mp h.failed with ⟨hnone, -⟩ | ⟨d, f, hd, hread, rfl⟩
  · rw [hc] at hnone
    cases hnone
  · obtain rfl : a c = d := Option.some.inj (hc.symm.trans hd)
    refine .stopped (done.flatMap Tile.cells ++ before) (after ++ rest.flatMap Tile.cells) c f ?_ ?_ hread ?_ ?_
    · simp [hsplit, hcells]
    · intro d hd
      rcases List.mem_append.mp hd with hd | hd
      · exact Route.exists_read_of_readable hdone h.done d hd
      · exact Route.exists_read_of_pixel (fun b hb => hbefore b (List.mem_append_left _ hb)) h.before d hd
    · rw [gather_of_halted hne h, Event.reads_append, Event.reads_progress_cons, Route.reads_journal_of_address hdone,
        Event.reads_visits, Route.filterMap_via? hbefore, ← List.map_append, List.append_assoc]
    · rw [gather_of_halted hne h]

theorem gather_readsInTurn (hne : ∀ t ∈ tiles, t.cells ≠ [])
    (ha : ∀ t ∈ tiles, ∀ c ∈ t.cells, route.via? t c = some (a c)) :
    (gather src tiles route).ReadsInTurn src (tiles.flatMap Tile.cells) a := by
  rcases route.readable_or_halted src tiles with hall | ⟨done, t, before, c, e, h⟩
  · obtain ⟨ms, ws, -, heq⟩ := gather_of_readable hne hall
    have hend : Event.reads (if tiles.isEmpty then [.progress 1.0] else []) = [] := by split <;> rfl
    refine .complete (Route.exists_read_of_readable ha hall) ?_ ⟨_, by rw [heq]⟩
    rw [heq, Event.reads_append, Event.reads_progress_cons, hend, List.append_nil, Route.reads_journal_of_address ha]
  · exact gather_readsInTurn_of_halted hne ha h

end Gather

/-! ### Drawings -/

section Drawing
variable [Pixel α] {src : Source α} {s : Nat} {tiles : List Tile}

namespace Redrawing

variable (m : Redrawing)

theorem reads_draw (hplan : Tile.plan src.canvas (.square s) = .ok tiles) (hk : src.canvas.Storable (Pixel.bytes α)) :
    Event.reads (m.draw src s).events = Event.reads (gather src tiles (m.route src.canvas)).events := by
  rw [m.draw_of_plan hplan hk]
  simp

/-- Work that succeeds or meets a fault has come to a pass over the tiles of a plan, or its tiles have no side. -/
theorem storable_of_draw (hs : s ≠ 0) (h : (m.draw src s).result ≠ .error .outOfRange) :
    ∃ tiles, Tile.plan src.canvas (.square s) = .ok tiles ∧ src.canvas.Storable (Pixel.bytes α) := by
  obtain ⟨tiles, hplan⟩ := Tile.exists_plan hs fun hrange => by
    rw [m.draw_of_plan_error hrange] at h
    exact h rfl
  refine ⟨tiles, hplan, ?_⟩
  by_contra hk
  rw [m.draw_of_not_storable hplan hk] at h
  exact h rfl

/-- A redrawing that stays in the range of words reads the address of each cell, in the order of the tiles. -/
theorem draw_scans (hs : s ≠ 0) (h : (m.draw src s).result ≠ .error .outOfRange) :
    ∃ tiles a, (∀ c ∈ src.canvas, m.address? src.canvas s c = some (a c)) ∧ (m.draw src s).Scans src s tiles a := by
  obtain ⟨tiles, hplan, hk⟩ := m.storable_of_draw hs h
  have haddress : ∀ c ∈ src.canvas, m.address? src.canvas s c = some ((m.address? src.canvas s c).getD c) := by
    intro c hc
    obtain ⟨d, -, hd⟩ := m.exists_address? hplan hk.1 hc
    rw [hd, Option.getD_some]
  have hperm := Tile.flatMap_plan_perm hplan
  refine ⟨tiles, _, haddress, hplan, hperm, ?_, ?_⟩
  · rw [hperm.length_eq, Canvas.length_cells, Canvas.area, Nat.mul_comm]
  · refine (gather_readsInTurn (fun t ht => Tile.cells_ne_nil_of_mem_plan hplan ht) fun t ht c hc => ?_).map _
      (m.reads_draw hplan hk) (by rw [m.draw_of_plan hplan hk])
    have hmem := Tile.mem_cells.mp hc
    rw [Tile.eq_around hplan ht hmem]
    exact haddress c (Tile.mem_of_mem_plan hplan ht hmem)

end Redrawing

theorem Seamless.address_cases {fold? : Fold} {k : Canvas} {size : TileSize} (hplan : Tile.plan k size = .ok tiles)
    {t : Tile} (ht : t ∈ tiles) {c d : Cell} (hc : c ∈ t) (h : (route fold? k).at? k size c = some d) :
    (tileInside? fold? k t = some true ∧ d = c) ∨
      (tileInside? fold? k t = some false ∧ origin? fold? k c = some d) := by
  have hmem := Tile.mem_of_mem_plan hplan ht hc
  rw [tileInside?_eq hplan ht, Tile.eq_around hplan ht hc]
  cases hcopied : (Tile.around k size c).corners.all (inside fold? k) with
  | true =>
    rw [at?_of_copied hplan hmem hcopied] at h
    exact Or.inl ⟨rfl, (Option.some.inj h).symm⟩
  | false =>
    rw [at?_of_not_copied hplan hmem hcopied] at h
    exact Or.inr ⟨rfl, h⟩

/-- Work with tiles that have a side, as long as it stays in the range of words, reads for each cell of the canvas in
    the order of the tiles: redrawing reads the cell nearest to the position on the source, and filling reads the cell
    itself in a tile with all corners inside, and its origin in any other tile. If all these reads succeed there are
    as many of them as there are cells, and the work succeeds; otherwise the first that fails is the last, and the work
    ends with its fault. -/
theorem resample_seamless_scans (src : Source α) {s : Nat} (hs : s ≠ 0) :
    (∀ source target : Projection, (resample src source target s).result ≠ .error .outOfRange →
      ∃ tiles a,
        (∀ c ∈ src.canvas, src.canvas.nearest? (Resample.position source target src.canvas c) = some (a c)) ∧
        (resample src source target s).Scans src s tiles a) ∧
    ∀ fold? : Fold, (seamless fold? src s).result ≠ .error .outOfRange →
      ∃ tiles a,
        (∀ t ∈ tiles, ∀ c ∈ t,
          (Seamless.tileInside? fold? src.canvas t = some true ∧ a c = c) ∨
          (Seamless.tileInside? fold? src.canvas t = some false ∧
            Seamless.origin? fold? src.canvas c = some (a c))) ∧
        (seamless fold? src s).Scans src s tiles a := by
  refine ⟨fun source target h => ?_, fun fold? h => ?_⟩
  · obtain ⟨tiles, a, ha, hscans⟩ := (Redrawing.resample source target).draw_scans hs h
    refine ⟨tiles, a, fun c hc => ?_, hscans⟩
    exact (congrFun (Resample.at?_route src.canvas (.square s)) c).symm.trans (ha c hc)
  · obtain ⟨tiles, a, ha, hscans⟩ := (Redrawing.seamless fold?).draw_scans hs h
    refine ⟨tiles, a, fun t ht c hc => ?_, hscans⟩
    exact Seamless.address_cases hscans.plan ht hc (ha c (Tile.mem_of_mem_plan hscans.plan ht hc))

end Drawing

/-- The left column is read at the lower right, twice, before the first of two cells that cannot be read; the second of
    them is never come to. -/
theorem resample_seamless_scans_torn :
    let fold? : Fold := fun p => if p.x < -0.5 then some ⟨0.5, 0.0⟩ else none
    let src : Source UInt32 := (Source.numbered ⟨3, 2⟩).failing fun c =>
      if c = ⟨1, 1⟩ ∨ c = ⟨2, 0⟩ then some (.outOfBounds c) else none
    (seamless fold? src 2).result ≠ .error .outOfRange ∧
      (∃ tiles a, (seamless fold? src 2).Scans src 2 tiles a) ∧
      Event.reads (seamless fold? src 2).events = [⟨2, 1⟩, ⟨1, 0⟩, ⟨2, 1⟩, ⟨1, 1⟩] ∧
      (seamless fold? src 2).result = .error (.fault (.outOfBounds ⟨1, 1⟩)) := by
  intro fold? src
  have hfault : (seamless fold? src 2).result = .error (.fault (.outOfBounds ⟨1, 1⟩)) := by decide +kernel
  have hrange : (seamless fold? src 2).result ≠ .error .outOfRange := by simp [hfault]
  obtain ⟨-, hseamless⟩ := resample_seamless_scans src (s := 2) (by decide)
  obtain ⟨tiles, a, -, hscans⟩ := hseamless fold? hrange
  exact ⟨hrange, ⟨tiles, a, hscans⟩, by decide +kernel, hfault⟩

end GlobeTexture
