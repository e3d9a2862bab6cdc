import GlobeTexture.Proofs.Drawing

/-! # What a drawing reports

On its way a drawing reads pixels, leaves notes and reports progress; it makes no other call to its host. If it ends
in a fault, that is the fault of planning its tiles, or the fault of the last pixel that it read. -/

namespace GlobeTexture

variable {μ α : Type}

namespace Event

/-! ### Views of events -/

@[simp] theorem calls_append (es fs : List Event) : calls (es ++ fs) = calls es ++ calls fs :=
  List.filterMap_append

@[simp] theorem calls_call_cons (c : HostCall) (es : List Event) : calls (call c :: es) = c :: calls es :=
  rfl

@[simp] theorem calls_note_cons (n : Note) (es : List Event) : calls (note n :: es) = calls es :=
  rfl

@[simp] theorem reads_append (es fs : List Event) : reads (es ++ fs) = reads es ++ reads fs :=
  List.filterMap_append

@[simp] theorem reads_nil : reads [] = [] :=
  rfl

@[simp] theorem reads_call_cons (c : HostCall) (es : List Event) : reads (call c :: es) = reads es :=
  rfl

@[simp] theorem reads_note_cons (n : Note) (es : List Event) : reads (note n :: es) = reads es :=
  rfl

@[simp] theorem reads_progress_cons (x : Float) (es : List Event) : reads (progress x :: es) = reads es :=
  rfl

@[simp] theorem reads_map_note (ns : List Note) : reads (ns.map .note) = [] := by
  simp [reads, read?]

@[simp] theorem reads_visits (address? : Cell → Option Cell) (cs : List Cell) :
    reads (visits address? cs) = cs.filterMap address? := by
  simp [reads, visits, List.filterMap_map, Function.comp_def, read?]

@[simp] theorem fractions_append (es fs : List Event) : fractions (es ++ fs) = fractions es ++ fractions fs := by
  simp [fractions]

@[simp] theorem fractions_nil : fractions [] = [] :=
  rfl

@[simp] theorem fractions_note_cons (n : Note) (es : List Event) : fractions (note n :: es) = fractions es :=
  rfl

@[simp] theorem fractions_progress_cons (x : Float) (es : List Event) :
    fractions (progress x :: es) = x :: fractions es :=
  rfl

@[simp] theorem fractions_map_note (ns : List Note) : fractions (ns.map .note) = [] := by
  simp [fractions, calls, call?]

@[simp] theorem fractions_visits (address? : Cell → Option Cell) (cs : List Cell) :
    fractions (visits address? cs) = [] := by
  simp [fractions, calls, visits, List.filterMap_map, Function.comp_def, call?]

theorem fractions_call_cons {c : HostCall} (h : c.fraction? = none) (es : List Event) :
    fractions (call c :: es) = fractions es :=
  List.filterMap_cons_none h

/-- The only calls are reports of progress. -/
def Quiet (es : List Event) : Prop :=
  ∀ c, call c ∈ es → ∃ x, c = .remarked (.progress x)

theorem quiet_nil : Quiet [] :=
  fun _ hc => absurd hc List.not_mem_nil

theorem Quiet.append {es fs : List Event} (he : Quiet es) (hf : Quiet fs) : Quiet (es ++ fs) :=
  fun c hc => (List.mem_append.mp hc).elim (he c) (hf c)

theorem quiet_map_note (ns : List Note) : Quiet (ns.map .note) := by
  simp [Quiet]

theorem Quiet.calls_eq {es : List Event} (h : Quiet es) :
    calls es = ((fractions es).map .progress).map .remarked := by
  induction es with
  | nil => rfl
  | cons e es ih =>
    have hes : Quiet es := fun c hc => h c (List.mem_cons_of_mem e hc)
    cases e with
    | read c => exact ih hes
    | note n => exact ih hes
    | call c =>
      obtain ⟨x, rfl⟩ := h c List.mem_cons_self
      exact congrArg (.remarked (.progress x) :: ·) (ih hes)

/-- Reads and reports of progress only. -/
def Plain (es : List Event) : Prop :=
  ∀ e ∈ es, (∃ c, e = read c) ∨ ∃ x, e = progress x

theorem plain_nil : Plain [] :=
  fun _ he => absurd he List.not_mem_nil

theorem Plain.append {es fs : List Event} (he : Plain es) (hf : Plain fs) : Plain (es ++ fs) :=
  fun e h => (List.mem_append.mp h).elim (he e) (hf e)

theorem Plain.progress_cons {es : List Event} (h : Plain es) (x : Float) : Plain (progress x :: es) :=
  List.forall_mem_cons.mpr ⟨Or.inr ⟨x, rfl⟩, h⟩

theorem plain_visits (address? : Cell → Option Cell) (cs : List Cell) : Plain (visits address? cs) := by
  intro e he
  obtain ⟨c, -, rfl⟩ := List.mem_map.mp he
  exact Or.inl ⟨c, rfl⟩

theorem Plain.quiet {es : List Event} (h : Plain es) : Quiet es := by
  intro c hc
  rcases h _ hc with ⟨d, hd⟩ | ⟨x, hx⟩
  · cases hd
  · exact ⟨x, Event.call.inj hx⟩

end Event

/-! ### Passes -/

theorem Route.plain_journal (route : Route μ) (total n : Nat) (tiles : List Tile) :
    Event.Plain (route.journal total n tiles) := by
  induction tiles generalizing n with
  | nil => exact Event.plain_nil
  | cons t ts ih => exact (Event.plain_visits _ _).append ((ih (n + 1)).progress_cons _)

theorem Route.reads_journal (route : Route μ) (total n : Nat) (tiles : List Tile) :
    Event.reads (route.journal total n tiles) = tiles.flatMap fun t => t.cells.filterMap (route.via? t) := by
  induction tiles generalizing n with
  | nil => rfl
  | cons t ts ih => simp [journal, ih]

theorem Route.fractions_journal (route : Route μ) (total n : Nat) (tiles : List Tile) :
    Event.fractions (route.journal total n tiles) =
      (List.range' (n + 1) tiles.length).map fun i => .ofNat i / .ofNat total := by
  induction tiles generalizing n with
  | nil => rfl
  | cons t ts ih => simp [journal, ih, List.range'_succ]

section Gather
variable {src : Source α} {route : Route μ} {tiles : List Tile}

theorem gather_plain (hne : ∀ t ∈ tiles, t.cells ≠ []) : Event.Plain (gather src tiles route).events := by
  rcases route.readable_or_halted src tiles with hall | ⟨done, t, before, c, e, h⟩
  · obtain ⟨ms, ws, -, heq⟩ := gather_of_readable hne hall
    rw [heq]
    refine ((route.plain_journal _ _ _).progress_cons _).append ?_
    split
    · exact Event.plain_nil.progress_cons _
    · exact Event.plain_nil
  · rw [gather_of_halted hne h]
    exact ((route.plain_journal _ _ _).progress_cons _).append (Event.plain_visits _ _)

/-- A pass that ends in a fault ends at the read that has it. -/
theorem gather_last_read (hne : ∀ t ∈ tiles, t.cells ≠ []) {f : Fault}
    (hf : (gather src tiles route).result = .error (.fault f)) :
    ∃ c, (Event.reads (gather src tiles route).events).getLast? = some c ∧ src.read c = .error f := by
  rcases route.readable_or_halted src tiles with hall | ⟨done, t, before, c, e, h⟩
  · obtain ⟨ms, ws, -, heq⟩ := gather_of_readable hne hall
    rw [heq] at hf
    cases hf
  · have heq := gather_of_halted hne h
    rw [heq] at hf
    obtain rfl : e = .fault f := Except.error.inj hf
    rcases Source.pixel_eq_error_iff.mp h.failed with ⟨-, hrange⟩ | ⟨d, g, hd, hread, hg⟩
    · cases hrange
    · cases hg
      refine ⟨d, ?_, hread⟩
      rw [heq]
      simp [hd]

theorem gather_reads (hne : ∀ t ∈ tiles, t.cells ≠ []) {d : Cell}
    (hd : d ∈ Event.reads (gather src tiles route).events) : ∃ t ∈ tiles, ∃ c ∈ t, route.via? t c = some d := by
  rcases route.readable_or_halted src tiles with hall | ⟨done, t, before, c, e, h⟩
  · obtain ⟨ms, ws, -, heq⟩ := gather_of_readable hne hall
    have hend : Event.reads (if tiles.isEmpty then [.progress 1.0] else []) = [] := by split <;> rfl
    rw [heq, Event.reads_append, Event.reads_progress_cons, hend, List.append_nil, route.reads_journal] at hd
    simp only [List.mem_flatMap, List.mem_filterMap, Tile.mem_cells] at hd
    exact hd
  · obtain ⟨rest, rfl⟩ := h.tiles
    obtain ⟨after, hcells⟩ := h.cells
    rw [gather_of_halted hne h, Event.reads_append, Event.reads_progress_cons, route.reads_journal,
      Event.reads_visits, List.mem_append] at hd
    rcases hd with hdone | hlast
    · simp only [List.mem_flatMap, List.mem_filterMap, Tile.mem_cells] at hdone
      obtain ⟨u, hu, b, hb, hvia⟩ := hdone
      exact ⟨u, List.mem_append_left _ hu, b, hb, hvia⟩
    · obtain ⟨b, hb, hvia⟩ := List.mem_filterMap.mp hlast
      have hmem : b ∈ t.cells := by
        rw [hcells, List.append_cons]
        exact List.mem_append_left after hb
      exact ⟨t, List.mem_append_right _ List.mem_cons_self, b, Tile.mem_cells.mp hmem, hvia⟩

/-- A pass over a plan reads only at the addresses of cells of the canvas. -/
theorem gather_reads_at {size : TileSize} (hplan : Tile.plan src.canvas size = .ok tiles) {d : Cell}
    (hd : d ∈ Event.reads (gather src tiles route).events) :
    ∃ c ∈ src.canvas, route.at? src.canvas size c = some d := by
  obtain ⟨t, ht, c, hc, hvia⟩ := gather_reads (fun t ht => Tile.cells_ne_nil_of_mem_plan hplan ht) hd
  refine ⟨c, Tile.mem_of_mem_plan hplan ht hc, ?_⟩
  rwa [Tile.eq_around hplan ht hc] at hvia

end Gather

/-! ### Drawings -/

/-- A fault of work on a source with tiles of side `s` that did `es`: tiles have no side, or the last read failed. -/
def Source.Blames (src : Source α) (es : List Event) (s : Nat) (f : Fault) : Prop :=
  s = 0 ∧ f = .zeroTile ∨ s ≠ 0 ∧ ∃ c, (Event.reads es).getLast? = some c ∧ src.read c = .error f

/-- What can be said of every drawing from a source with tiles of side `s`. -/
structure Drawn [Pixel α] (work : Traced (Raster α)) (src : Source α) (s : Nat) : Prop where
  quiet : Event.Quiet work.events
  canvas : ∀ {r}, work.result = .ok r → r.canvas = src.canvas
  fault : ∀ {f}, work.result = .error (.fault f) → src.Blames work.events s f

section Drawing
variable [Pixel α] {src : Source α} {s : Nat} {tiles : List Tile}

theorem drawn_of_plan_error {e : Failure} (h : Tile.plan src.canvas (.square s) = .error e) :
    Drawn (⟨[], .error e⟩ : Traced (Raster α)) src s where
  quiet := Event.quiet_nil
  canvas hr := by cases hr
  fault hf := by
    cases hf
    exact Or.inl (Tile.plan_eq_fault h)

theorem drawn_of_outOfRange (ns : List Note) :
    Drawn (⟨ns.map .note, .error .outOfRange⟩ : Traced (Raster α)) src s where
  quiet := Event.quiet_map_note ns
  canvas hr := by cases hr
  fault hf := by cases hf

theorem drawn_of_gather (hplan : Tile.plan src.canvas (.square s) = .ok tiles) (route : Route μ)
    (hk : src.canvas.Storable (Pixel.bytes α)) (before after : List Note) :
    Drawn ⟨before.map .note ++ (gather src tiles route).events ++ after.map .note,
      (gather src tiles route).result.map fun g => (Raster.replicate src.canvas hk default).paint g.pixels⟩ src s := by
  have hne : ∀ t ∈ tiles, t.cells ≠ [] := fun t ht => Tile.cells_ne_nil_of_mem_plan hplan ht
  refine ⟨?_, fun {r} hr => ?_, fun {f} hf => ?_⟩
  · exact ((Event.quiet_map_note _).append (gather_plain hne).quiet).append (Event.quiet_map_note _)
  · obtain ⟨g, -, rfl⟩ := Failure.map_eq_ok_iff.mp hr
    exact Raster.canvas_paint _ _
  · obtain ⟨c, hc, hread⟩ := gather_last_read hne (Failure.map_eq_error_iff.mp hf)
    have hs : 0 < s := (Tile.plan_eq_ok hplan).1
    exact Or.inr ⟨Nat.ne_of_gt hs, c, by simpa using hc, hread⟩

theorem resample_drawn (src : Source α) (source target : Projection) (s : Nat) :
    Drawn (resample src source target s) src s := by
  cases hplan : Tile.plan src.canvas (.square s) with
  | error e =>
    have heq : resample src source target s = ⟨[], .error e⟩ := by simp [resample, hplan]
    exact heq ▸ drawn_of_plan_error hplan
  | ok tiles =>
    by_cases hk : src.canvas.Storable (Pixel.bytes α)
    · have h := drawn_of_gather hplan (Resample.route source target src.canvas) hk
        [.resampling src.canvas tiles.length] []
      rw [List.map_nil, List.append_nil] at h
      exact resample_of_plan hplan hk ▸ h
    · exact resample_of_not_storable hplan hk ▸ drawn_of_outOfRange [_]

theorem seamless_drawn (fold? : Fold) (src : Source α) (s : Nat) : Drawn (seamless fold? src s) src s := by
  cases hplan : Tile.plan src.canvas (.square s) with
  | error e =>
    have heq : seamless fold? src s = ⟨[], .error e⟩ := by simp [seamless, hplan]
    exact heq ▸ drawn_of_plan_error hplan
  | ok tiles =>
    by_cases hk : src.canvas.Storable (Pixel.bytes α)
    · have h := drawn_of_gather hplan (Seamless.route fold? src.canvas) hk []
      rw [seamless_of_plan hplan hk]
      cases hg : (gather src tiles (Seamless.route fold? src.canvas)).result with
      | ok g =>
        rw [hg] at h
        exact h [.filled src.canvas tiles.length (g.modes.count true)]
      | error e =>
        rw [hg] at h
        exact h []
    · exact seamless_of_not_storable hplan hk ▸ drawn_of_outOfRange []

theorem Operation.draw_drawn (op : Operation) (src : Source α) (options : Options) :
    Drawn (op.draw src options) src options.tileSize := by
  cases op with
  | hammerTile => exact seamless_drawn Hammer.fold? src options.tileSize
  | polarToHammer => exact resample_drawn src _ _ options.tileSize
  | polarToMercator => exact resample_drawn src _ _ options.tileSize

end Drawing

end GlobeTexture
