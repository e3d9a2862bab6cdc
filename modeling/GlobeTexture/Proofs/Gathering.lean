import GlobeTexture.Gather

/-! # What a pass does

A pass goes through the cells of its tiles in order. Either every cell gets the pixel at its address, or
there is a first cell that gets none, and the pass ends there with the failure of that cell. What the pass
has done by then is told by the tiles and cells before it. -/

namespace GlobeTexture

variable {μ α : Type}

/-- The pixel that a cell gets from the cell at its address, or why it gets none. -/
def Source.pixel (src : Source α) (address? : Cell → Option Cell) (c : Cell) : Except Failure α :=
  match address? c with
  | none => .error .outOfRange
  | some d => Failure.ofExcept (src.read d)

/-- The reads for some cells, in order. -/
def Event.visits (address? : Cell → Option Cell) (cs : List Cell) : List Event :=
  (cs.filterMap address?).map .read

theorem Source.pixel_eq_ok_iff {src : Source α} {address? : Cell → Option Cell} {c : Cell} {x : α} :
    src.pixel address? c = .ok x ↔ ∃ d, address? c = some d ∧ src.read d = .ok x := by
  unfold Source.pixel
  cases address? c <;> simp

theorem Source.pixel_eq_error_iff {src : Source α} {address? : Cell → Option Cell} {c : Cell} {e : Failure} :
    src.pixel address? c = .error e ↔
      (address? c = none ∧ e = .outOfRange) ∨ ∃ d f, address? c = some d ∧ src.read d = .error f ∧ e = .fault f := by
  unfold Source.pixel
  cases ha : address? c with
  | none => simp [eq_comm]
  | some d =>
    cases hr : src.read d with
    | ok x => simp [Failure.ofExcept, hr]
    | error f => simp [Failure.ofExcept, hr, eq_comm]

theorem Event.visits_append (address? : Cell → Option Cell) (cs ds : List Cell) :
    visits address? (cs ++ ds) = visits address? cs ++ visits address? ds := by
  simp [visits]

open Classical in
theorem forall_or_first_failing {β : Type} (P : β → Prop) (l : List β) :
    (∀ x ∈ l, P x) ∨ ∃ before b after, l = before ++ b :: after ∧ (∀ x ∈ before, P x) ∧ ¬P b := by
  cases hfind : l.find? fun x => ¬P x with
  | none => exact Or.inl (by simpa using hfind)
  | some b =>
    obtain ⟨hb, before, after, rfl, hbefore⟩ := List.find?_eq_some_iff_append.mp hfind
    exact Or.inr ⟨before, b, after, rfl, by simpa using hbefore, by simpa using hb⟩

namespace Pass

/-! ### Cells -/

/-- The pass after more tiles, events and pixels. -/
def add (p : Pass μ α) (ms : List μ) (es : List Event) (ws : List (Cell × α)) : Pass μ α :=
  ⟨p.events ++ es.toArray, p.modes ++ ms.toArray, p.pixels ++ ws.toArray⟩

/-- The pass ended by a failure, after more events. -/
def halt (p : Pass μ α) (es : List Event) (e : Failure) : Stop :=
  ⟨p.events ++ es.toArray, e⟩

theorem add_nil (p : Pass μ α) : p.add [] [] [] = p := by
  simp [add]

theorem add_add (p : Pass μ α) (ms ms' : List μ) (es es' : List Event) (ws ws' : List (Cell × α)) :
    (p.add ms es ws).add ms' es' ws' = p.add (ms ++ ms') (es ++ es') (ws ++ ws') := by
  simp [add]

theorem add_halt (p : Pass μ α) (ms : List μ) (es es' : List Event) (ws : List (Cell × α)) (e : Failure) :
    (p.add ms es ws).halt es' e = p.halt (es ++ es') e := by
  simp [add, halt]

variable {src : Source α} {address? : Cell → Option Cell}

theorem fillCell_of_ok {c : Cell} {x : α} (h : src.pixel address? c = .ok x) (p : Pass μ α) :
    fillCell src address? p c = .ok (p.add [] (Event.visits address? [c]) [(c, x)]) := by
  obtain ⟨d, hd, hr⟩ := Source.pixel_eq_ok_iff.mp h
  simp [fillCell, hd, hr, add, Event.visits]

theorem fillCell_of_error {c : Cell} {e : Failure} (h : src.pixel address? c = .error e) (p : Pass μ α) :
    fillCell src address? p c = .error (p.halt (Event.visits address? [c]) e) := by
  rcases Source.pixel_eq_error_iff.mp h with ⟨hd, rfl⟩ | ⟨d, f, hd, hr, rfl⟩
  · simp [fillCell, hd, halt, Event.visits]
  · simp [fillCell, hd, hr, halt, Event.visits]

theorem foldlM_fillCell_of_ok {ws : List (Cell × α)} (h : ∀ w ∈ ws, src.pixel address? w.1 = .ok w.2)
    (p : Pass μ α) :
    (ws.map Prod.fst).foldlM (fillCell src address?) p =
      .ok (p.add [] (Event.visits address? (ws.map Prod.fst)) ws) := by
  induction ws generalizing p with
  | nil => exact congrArg Except.ok p.add_nil.symm
  | cons w ws ih =>
    obtain ⟨hw, hws⟩ := List.forall_mem_cons.mp h
    rw [List.map_cons, List.foldlM_cons, fillCell_of_ok hw]
    refine (ih hws _).trans (congrArg Except.ok ?_)
    rw [add_add, ← Event.visits_append]
    rfl

theorem foldlM_fillCell_of_error {ws : List (Cell × α)} (h : ∀ w ∈ ws, src.pixel address? w.1 = .ok w.2)
    {c : Cell} {e : Failure} (hc : src.pixel address? c = .error e) (post : List Cell) (p : Pass μ α) :
    (ws.map Prod.fst ++ c :: post).foldlM (fillCell src address?) p =
      .error (p.halt (Event.visits address? (ws.map Prod.fst ++ [c])) e) := by
  rw [List.foldlM_append, foldlM_fillCell_of_ok h]
  show (c :: post).foldlM (fillCell src address?) _ = _
  rw [List.foldlM_cons, fillCell_of_error hc, add_halt, Event.visits_append]
  rfl

theorem exists_pixels {cs : List Cell} (h : ∀ c ∈ cs, ∃ x, src.pixel address? c = .ok x) :
    ∃ ws : List (Cell × α), ws.map Prod.fst = cs ∧ ∀ w ∈ ws, src.pixel address? w.1 = .ok w.2 := by
  induction cs with
  | nil => exact ⟨[], rfl, by simp⟩
  | cons c cs ih =>
    obtain ⟨⟨x, hx⟩, hcs⟩ := List.forall_mem_cons.mp h
    obtain ⟨ws, rfl, hws⟩ := ih hcs
    exact ⟨(c, x) :: ws, rfl, List.forall_mem_cons.mpr ⟨hx, hws⟩⟩

end Pass

namespace Route

/-! ### Tiles -/

/-- Where a pass reads for a cell of a tile. -/
def via? (route : Route μ) (t : Tile) (c : Cell) : Option Cell :=
  (route.mode? t).bind fun m => route.address? m c

/-- Every cell of the tile gets its pixel. -/
def Readable (route : Route μ) (src : Source α) (t : Tile) : Prop :=
  ∀ c ∈ t.cells, ∃ x, src.pixel (route.via? t) c = .ok x

/-- What a pass over `total` tiles does at some tiles that all get their pixels, after `n` others. -/
def journal (route : Route μ) (total : Nat) : (n : Nat) → List Tile → List Event
  | _, [] => []
  | n, t :: ts =>
    Event.visits (route.via? t) t.cells ++ .progress (.ofNat (n + 1) / .ofNat total) :: journal route total (n + 1) ts

theorem via?_of_mode {route : Route μ} {t : Tile} {m : μ} (h : route.mode? t = some m) :
    route.via? t = route.address? m := by
  funext c
  rw [via?, h, Option.bind_some]

theorem pixel_of_mode_none {route : Route μ} {t : Tile} (h : route.mode? t = none) (src : Source α) (c : Cell) :
    src.pixel (route.via? t) c = .error .outOfRange := by
  simp [Source.pixel, via?, h]

theorem Readable.mode {route : Route μ} {src : Source α} {t : Tile} (h : route.Readable src t) (ht : t.cells ≠ []) :
    ∃ m, route.mode? t = some m := by
  obtain ⟨c, hc⟩ := List.exists_mem_of_ne_nil _ ht
  obtain ⟨x, hx⟩ := h c hc
  cases hm : route.mode? t with
  | none =>
    rw [pixel_of_mode_none hm] at hx
    cases hx
  | some m => exact ⟨m, rfl⟩

/-- What a finished pass has: the treatment of each tile, and for each cell the pixel at its address. -/
structure Finished (route : Route μ) (src : Source α) (tiles : List Tile) (ms : List μ) (ws : List (Cell × α)) :
    Prop where
  modes : ms.map some = tiles.map route.mode?
  cells : ws.map Prod.fst = tiles.flatMap Tile.cells
  pixels : ∀ w ∈ ws, ∃ t ∈ tiles, w.1 ∈ t ∧ src.pixel (route.via? t) w.1 = .ok w.2

theorem Finished.cons {route : Route μ} {src : Source α} {t : Tile} {ts : List Tile} {m : μ} {ms : List μ}
    {ws vs : List (Cell × α)} (hm : route.mode? t = some m) (hcells : ws.map Prod.fst = t.cells)
    (hpixels : ∀ w ∈ ws, src.pixel (route.via? t) w.1 = .ok w.2) (h : route.Finished src ts ms vs) :
    route.Finished src (t :: ts) (m :: ms) (ws ++ vs) where
  modes := by rw [List.map_cons, List.map_cons, hm, h.modes]
  cells := by rw [List.map_append, hcells, h.cells, List.flatMap_cons]
  pixels := by
    intro w hw
    rcases List.mem_append.mp hw with hw | hw
    · have hmem : w.1 ∈ t.cells := hcells ▸ List.mem_map_of_mem hw
      exact ⟨t, List.mem_cons_self, Tile.mem_cells.mp hmem, hpixels w hw⟩
    · obtain ⟨u, hu, hmem, hx⟩ := h.pixels w hw
      exact ⟨u, List.mem_cons_of_mem _ hu, hmem, hx⟩

/-- The place where a pass ends before its time: after the tiles `done` and, in the tile `t`, after the cells
    `before`, at the cell `c`. -/
structure Halted (route : Route μ) (src : Source α) (tiles done : List Tile) (t : Tile) (before : List Cell) (c : Cell)
    (e : Failure) : Prop where
  tiles : ∃ rest, tiles = done ++ t :: rest
  done : ∀ u ∈ done, route.Readable src u
  cells : ∃ after, t.cells = before ++ c :: after
  before : ∀ d ∈ before, ∃ x, src.pixel (route.via? t) d = .ok x
  failed : src.pixel (route.via? t) c = .error e

theorem Halted.mem {route : Route μ} {src : Source α} {tiles done : List Tile} {t : Tile} {before : List Cell}
    {c : Cell} {e : Failure} (h : route.Halted src tiles done t before c e) : t ∈ tiles ∧ c ∈ t := by
  obtain ⟨rest, htiles⟩ := h.tiles
  obtain ⟨after, hcells⟩ := h.cells
  exact ⟨by simp [htiles], Tile.mem_cells.mp (by simp [hcells])⟩

/-- A pass ends in its first tile exactly if this tile does not get all of its pixels. -/
theorem Halted.done_eq_nil_iff {route : Route μ} {src : Source α} {first t : Tile} {tiles done : List Tile}
    {before : List Cell} {c : Cell} {e : Failure} (h : route.Halted src (first :: tiles) done t before c e) :
    done = [] ↔ ¬route.Readable src first := by
  obtain ⟨rest, htiles⟩ := h.tiles
  constructor
  · rintro rfl hall
    obtain ⟨rfl, -⟩ := List.cons.inj htiles
    obtain ⟨x, hx⟩ := hall c (Tile.mem_cells.mpr h.mem.2)
    rw [h.failed] at hx
    cases hx
  · intro hnot
    cases done with
    | nil => rfl
    | cons u done =>
      obtain ⟨rfl, -⟩ := List.cons.inj htiles
      exact absurd (h.done _ List.mem_cons_self) hnot

theorem readable_or_halted (route : Route μ) (src : Source α) (tiles : List Tile) :
    (∀ t ∈ tiles, route.Readable src t) ∨ ∃ done t before c e, route.Halted src tiles done t before c e := by
  rcases forall_or_first_failing (route.Readable src) tiles with hall | ⟨done, t, rest, htiles, hdone, ht⟩
  · exact Or.inl hall
  · rcases forall_or_first_failing (fun c => ∃ x, src.pixel (route.via? t) c = .ok x) t.cells with
      hall | ⟨before, c, after, hcells, hbefore, hc⟩
    · exact absurd hall ht
    · cases hx : src.pixel (route.via? t) c with
      | ok x => exact absurd ⟨x, hx⟩ hc
      | error e => exact Or.inr ⟨done, t, before, c, e, ⟨rest, htiles⟩, hdone, ⟨after, hcells⟩, hbefore, hx⟩

end Route

namespace Pass

variable {src : Source α} {route : Route μ} {total : Nat}

theorem fillTile_of_mode {t : Tile} {m : μ} (h : route.mode? t = some m) (p : Pass μ α) :
    fillTile src route total p t =
      (t.cells.foldlM (fillCell src (route.via? t)) (p.add [m] [] [])).map fun p =>
        p.emit (.progress (.ofNat p.modes.size / .ofNat total)) := by
  have hstart : ({ p with modes := p.modes.push m } : Pass μ α) = p.add [m] [] [] := by simp [add]
  simp only [fillTile, h, Tile.foldCells_eq, hstart, Route.via?_of_mode h]
  rfl

theorem fillTile_of_ok {t : Tile} {m : μ} (hm : route.mode? t = some m) {ws : List (Cell × α)}
    (hcells : ws.map Prod.fst = t.cells) (h : ∀ w ∈ ws, src.pixel (route.via? t) w.1 = .ok w.2) (p : Pass μ α) :
    fillTile src route total p t = .ok (p.add [m] (Event.visits (route.via? t) t.cells ++
      [.progress (.ofNat (p.modes.size + 1) / .ofNat total)]) ws) := by
  rw [fillTile_of_mode hm, ← hcells, foldlM_fillCell_of_ok h]
  simp [Except.map, add, emit]

theorem fillTile_of_error {t : Tile} {before after : List Cell} {c : Cell} {e : Failure}
    (hcells : t.cells = before ++ c :: after) (hbefore : ∀ d ∈ before, ∃ x, src.pixel (route.via? t) d = .ok x)
    (hc : src.pixel (route.via? t) c = .error e) (p : Pass μ α) :
    fillTile src route total p t = .error (p.halt (Event.visits (route.via? t) (before ++ [c])) e) := by
  cases hm : route.mode? t with
  | none =>
    -- No cell of this tile gets a pixel, so the first one is where the pass ends.
    obtain rfl : before = [] := by
      cases before with
      | nil => rfl
      | cons d before =>
        obtain ⟨x, hx⟩ := hbefore d List.mem_cons_self
        rw [Route.pixel_of_mode_none hm] at hx
        cases hx
    rw [Route.pixel_of_mode_none hm] at hc
    cases hc
    simp [fillTile, hm, halt, Event.visits, Route.via?]
  | some m =>
    obtain ⟨ws, rfl, hws⟩ := exists_pixels hbefore
    rw [fillTile_of_mode hm, hcells, foldlM_fillCell_of_error hws hc, add_halt]
    rfl

theorem foldlM_fillTile_of_readable {tiles : List Tile} (hne : ∀ t ∈ tiles, t.cells ≠ [])
    (h : ∀ t ∈ tiles, route.Readable src t) (total : Nat) (p : Pass μ α) :
    ∃ ms ws, route.Finished src tiles ms ws ∧ tiles.foldlM (fillTile src route total) p =
      .ok (p.add ms (route.journal total p.modes.size tiles) ws) := by
  induction tiles generalizing p with
  | nil => exact ⟨[], [], ⟨rfl, rfl, by simp⟩, congrArg Except.ok p.add_nil.symm⟩
  | cons t ts ih =>
    obtain ⟨hnet, hnets⟩ := List.forall_mem_cons.mp hne
    obtain ⟨ht, hts⟩ := List.forall_mem_cons.mp h
    obtain ⟨m, hm⟩ := ht.mode hnet
    obtain ⟨ws, hcells, hws⟩ := exists_pixels ht
    obtain ⟨ms, vs, hfin, hrest⟩ := ih hnets hts (p.add [m] (Event.visits (route.via? t) t.cells ++
      [.progress (.ofNat (p.modes.size + 1) / .ofNat total)]) ws)
    refine ⟨m :: ms, ws ++ vs, hfin.cons hm hcells hws, ?_⟩
    rw [List.foldlM_cons, fillTile_of_ok hm hcells hws]
    refine hrest.trans (congrArg Except.ok ?_)
    rw [add_add, Route.journal]
    simp [add]

end Pass

section Gather
variable {src : Source α} {route : Route μ} {tiles : List Tile}

theorem gather_of_readable (hne : ∀ t ∈ tiles, t.cells ≠ []) (h : ∀ t ∈ tiles, route.Readable src t) :
    ∃ ms ws, route.Finished src tiles ms ws ∧ gather src tiles route =
      ⟨.progress 0.0 :: route.journal tiles.length 0 tiles ++ (if tiles.isEmpty then [.progress 1.0] else []),
        .ok ⟨ms, ws⟩⟩ := by
  obtain ⟨ms, ws, hfin, hfold⟩ := Pass.foldlM_fillTile_of_readable hne h tiles.length Pass.start
  refine ⟨ms, ws, hfin, ?_⟩
  simp only [gather, hfold]
  split <;> simp [Pass.add, Pass.emit, Pass.start]

/-- A pass that comes to a cell without a pixel ends there. -/
theorem gather_of_halted (hne : ∀ t ∈ tiles, t.cells ≠ []) {done : List Tile} {t : Tile} {before : List Cell}
    {c : Cell} {e : Failure} (h : route.Halted src tiles done t before c e) :
    gather src tiles route = ⟨.progress 0.0 :: route.journal tiles.length 0 done ++
      Event.visits (route.via? t) (before ++ [c]), .error e⟩ := by
  obtain ⟨rest, htiles⟩ := h.tiles
  obtain ⟨after, hcells⟩ := h.cells
  have hdone : ∀ u ∈ done, u.cells ≠ [] := fun u hu => hne u (by simp [htiles, hu])
  obtain ⟨ms, ws, -, hfold⟩ := Pass.foldlM_fillTile_of_readable hdone h.done tiles.length Pass.start
  have hstop : tiles.foldlM (Pass.fillTile src route tiles.length) Pass.start =
      .error ((Pass.start : Pass μ α).halt
        (route.journal tiles.length 0 done ++ Event.visits (route.via? t) (before ++ [c])) e) := by
    generalize tiles.length = total at hfold ⊢
    rw [htiles, List.foldlM_append, hfold]
    show (t :: rest).foldlM (Pass.fillTile src route total) _ = _
    rw [List.foldlM_cons, Pass.fillTile_of_error hcells h.before h.failed, Pass.add_halt]
    rfl
  simp only [gather, hstop]
  simp [Pass.halt, Pass.start]

/-- What a pass has at its end, if it comes to it. -/
theorem finished_of_gather (hne : ∀ t ∈ tiles, t.cells ≠ []) {g : Gathered μ α}
    (hg : (gather src tiles route).result = .ok g) : route.Finished src tiles g.modes g.pixels := by
  rcases route.readable_or_halted src tiles with hall | ⟨done, t, before, c, e, h⟩
  · obtain ⟨ms, ws, hfin, heq⟩ := gather_of_readable hne hall
    rw [heq] at hg
    obtain rfl := Except.ok.inj hg
    exact hfin
  · rw [gather_of_halted hne h] at hg
    cases hg

end Gather

end GlobeTexture
