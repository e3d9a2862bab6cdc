import GlobeTexture.Log
import GlobeTexture.Proofs.Progress
import GlobeTexture.Proofs.Totality

/-! # The log of a run

The log of a run tells all that its host hears, line by line under the label of the host, and between these lines what
the operation itself notes: that it runs, that tiles are planned for a redrawing, how many tiles of a filled texture were
copied unseen, and why it was abandoned. -/

namespace GlobeTexture

variable {μ α : Type}

/-! ### Lines -/

/-- Whether a line has a field for the label of a host, and this label in it. -/
def LogLine.carries (label : String) (l : LogLine) : Bool :=
  l.fields.any fun
    | ("label", .text s) => s == label
    | _ => false

theorem HostCall.carries_line (label : String) (c : HostCall) : (c.line label).carries label = true := by
  cases c with
  | remarked r => cases r <;> simp [line, LogLine.carries]
  | _ => simp [line, LogLine.carries]

theorem Note.not_carries_line (label : String) (n : Note) : n.line.carries label = false := by
  cases n <;> simp [line, LogLine.carries, Canvas.fields]

/-- The line of a progress report. -/
def progressLine (label : String) (x : Float) : LogLine :=
  HostCall.line label (.remarked (.progress x))

namespace Event

@[simp] theorem log_append (label : String) (es fs : List Event) : log label (es ++ fs) = log label es ++ log label fs :=
  List.filterMap_append

@[simp] theorem log_nil (label : String) : log label [] = [] :=
  rfl

@[simp] theorem log_note_cons (label : String) (n : Note) (es : List Event) :
    log label (note n :: es) = n.line :: log label es :=
  rfl

@[simp] theorem log_call_cons (label : String) (c : HostCall) (es : List Event) :
    log label (call c :: es) = c.line label :: log label es :=
  rfl

@[simp] theorem log_map_note (label : String) (ns : List Note) : log label (ns.map .note) = ns.map Note.line := by
  simp [log, List.filterMap_map, Function.comp_def, line?]

/-- The lines that carry the label are those of the calls to the host. -/
theorem filter_carries_log (label : String) (es : List Event) :
    (log label es).filter (LogLine.carries label) = (calls es).map (HostCall.line label) := by
  induction es with
  | nil => rfl
  | cons e es ih =>
    cases e with
    | read c => exact ih
    | call c =>
      rw [log_call_cons, List.filter_cons_of_pos (c.carries_line label), ih]
      rfl
    | note n =>
      rw [log_note_cons, List.filter_cons_of_neg (by simp [n.not_carries_line]), ih]
      rfl

theorem Plain.log_eq {es : List Event} (h : Plain es) (label : String) :
    log label es = (fractions es).map (progressLine label) := by
  induction es with
  | nil => rfl
  | cons e es ih =>
    obtain ⟨he, hes⟩ := List.forall_mem_cons.mp h
    rcases he with ⟨c, rfl⟩ | ⟨x, rfl⟩
    · exact ih hes
    · exact congrArg (progressLine label x :: ·) (ih hes)

end Event

/-! ### Notes of a drawing -/

theorem Seamless.modes_of_finished {fold? : Fold} {src : Source α} {size : TileSize} {tiles : List Tile}
    (hplan : Tile.plan src.canvas size = .ok tiles) {ms : List Bool} {ws : List (Cell × α)}
    (h : (route fold? src.canvas).Finished src tiles ms ws) :
    ms = tiles.map fun t => t.corners.all (inside fold? src.canvas) := by
  rw [← List.map_inj_right (fun _ _ => Option.some.inj), h.modes, List.map_map]
  exact List.map_congr_left fun t ht => tileInside?_eq hplan ht

namespace Operation

/-- The notes of an operation whose tiles are planned or not: a redrawing in another projection tells of its tiles. -/
def planningNotes (op : Operation) (k : Canvas) (plan : Except Failure (List Tile)) : List Note :=
  match op, plan with
  | polarToHammer, .ok tiles => [.resampling k tiles.length]
  | polarToMercator, .ok tiles => [.resampling k tiles.length]
  | _, _ => []

/-- The notes of an operation that has drawn: a filling tells of its tiles, and how many of them have all corners
    inside. -/
def drawingNotes (op : Operation) (k : Canvas) (tiles : List Tile) : List Note :=
  match op with
  | hammerTile => [.filled k tiles.length (tiles.countP fun t => t.corners.all (Seamless.inside Hammer.fold? k))]
  | polarToHammer => []
  | polarToMercator => []

theorem opening_redrawing (op : Operation) (k : Canvas) (tiles : List Tile) :
    op.redrawing.opening k tiles.length = op.planningNotes k (.ok tiles) := by
  cases op <;> rfl

theorem closing_redrawing_of_error (op : Operation) (k : Canvas) (n : Nat) (e : Failure) :
    op.redrawing.closing k n (.error e) = [] := by
  cases op <;> rfl

theorem closing_redrawing_of_finished (op : Operation) {src : Source α} {size : TileSize} {tiles : List Tile}
    (hplan : Tile.plan src.canvas size = .ok tiles) {ms : List op.redrawing.Mode} {ws : List (Cell × α)}
    (h : (op.redrawing.route src.canvas).Finished src tiles ms ws) :
    op.redrawing.closing src.canvas tiles.length (.ok ms) = op.drawingNotes src.canvas tiles := by
  cases op with
  | polarToHammer => rfl
  | polarToMercator => rfl
  | hammerTile =>
    have hmodes : (ms : List Bool) = _ := Seamless.modes_of_finished hplan h
    have hcount : List.count true (ms : List Bool) =
        tiles.countP fun t => t.corners.all (Seamless.inside Hammer.fold? src.canvas) := by
      rw [hmodes, List.count, List.countP_map]
      simp [Function.comp_def]
    exact congrArg (fun n => [Note.filled src.canvas tiles.length n]) hcount

section Draw
variable [Pixel α] (op : Operation) {src : Source α} {options : Options}

theorem events_draw_of_ok {r : Raster α} (h : (op.draw src options).result = .ok r) :
    ∃ tiles es, Tile.plan src.canvas (.square options.tileSize) = .ok tiles ∧ Event.Plain es ∧
      (op.draw src options).events = (op.planningNotes src.canvas (.ok tiles)).map .note ++ es ++
        (op.drawingNotes src.canvas tiles).map .note := by
  rw [op.draw_eq] at h ⊢
  rcases op.redrawing.draw_cases src options.tileSize with
    ⟨e, -, heq⟩ | ⟨tiles, -, -, heq⟩ | ⟨tiles, hplan, hk, heq⟩
  · rw [heq] at h
    cases h
  · rw [heq] at h
    cases h
  · have hne : ∀ t ∈ tiles, t.cells ≠ [] := fun t ht => Tile.cells_ne_nil_of_mem_plan hplan ht
    rw [heq] at h
    obtain ⟨g, hg, -⟩ := Failure.map_eq_ok_iff.mp h
    refine ⟨tiles, (gather src tiles (op.redrawing.route src.canvas)).events, hplan, gather_plain hne, ?_⟩
    rw [heq, hg, op.opening_redrawing]
    exact congrArg (_ ++ List.map Event.note ·) (op.closing_redrawing_of_finished hplan (finished_of_gather hne hg))

theorem events_draw_of_fault {f : Fault} (h : (op.draw src options).result = .error (.fault f)) :
    ∃ es, Event.Plain es ∧ (op.draw src options).events =
      (op.planningNotes src.canvas (Tile.plan src.canvas (.square options.tileSize))).map .note ++ es := by
  rw [op.draw_eq] at h ⊢
  rcases op.redrawing.draw_cases src options.tileSize with
    ⟨e, hplan, heq⟩ | ⟨tiles, -, -, heq⟩ | ⟨tiles, hplan, hk, heq⟩
  · refine ⟨[], Event.plain_nil, ?_⟩
    rw [heq, hplan]
    cases op <;> rfl
  · rw [heq] at h
    cases h
  · have hne : ∀ t ∈ tiles, t.cells ≠ [] := fun t ht => Tile.cells_ne_nil_of_mem_plan hplan ht
    rw [heq] at h
    have hg := Failure.map_eq_error_iff.mp h
    refine ⟨(gather src tiles (op.redrawing.route src.canvas)).events, gather_plain hne, ?_⟩
    rw [heq, hg, hplan, op.opening_redrawing]
    exact congrArg (_ ++ List.map Event.note ·) (op.closing_redrawing_of_error _ _ _) |>.trans (List.append_nil _)

end Draw

/-! ### Two cells -/

/-- Two cells side by side, the second of which cannot be read. -/
def tornPair : Source UInt32 :=
  (Source.numbered ⟨2, 1⟩).failing fun c => if c = ⟨1, 0⟩ then some (.unreadable "torn") else none

theorem read_tornPair {c : Cell} {f : Fault} :
    tornPair.read c = .error f ↔ c = ⟨1, 0⟩ ∧ f = .unreadable "torn" :=
  Source.read_numbered_failing_iff

theorem plan_pair : Tile.plan ⟨2, 1⟩ (.square 1) = .ok [⟨⟨0, 1⟩, ⟨0, 1⟩⟩, ⟨⟨0, 1⟩, ⟨1, 2⟩⟩] := by
  decide

theorem storable_pair : Canvas.Storable ⟨2, 1⟩ (Pixel.bytes UInt32) := by
  decide

theorem inside_rim : Seamless.inside Hammer.fold? ⟨2, 1⟩ ⟨1, 0⟩ = true := by
  decide +kernel

/-- The second cell is the middle of the canvas, so the first one is read there if it is outside. -/
theorem at?_pair (fold? : Fold) : (Seamless.route fold? ⟨2, 1⟩).at? ⟨2, 1⟩ (.square 1) ⟨0, 0⟩ =
    some (if Seamless.inside fold? ⟨2, 1⟩ ⟨0, 0⟩ then ⟨0, 0⟩ else ⟨1, 0⟩) := by
  cases hinside : Seamless.inside fold? ⟨2, 1⟩ ⟨0, 0⟩ with
  | true => exact Seamless.at?_of_inside plan_pair (by decide) hinside
  | false =>
    have hcorners : (Tile.around ⟨2, 1⟩ (.square 1) ⟨0, 0⟩).corners.all (Seamless.inside fold? ⟨2, 1⟩) = false := by
      simp [Tile.corners, Tile.around, Span.piece, TileSize.square, hinside]
    obtain ⟨⟨col, row⟩, ⟨hcol, hrow⟩, horigin, hend⟩ :=
      Seamless.exists_origin? fold? (k := ⟨2, 1⟩) (c := ⟨0, 0⟩) storable_pair.1 (by decide)
    rw [Seamless.at?_of_not_copied plan_pair (by decide) hcorners, horigin]
    obtain rfl : row = 0 := Nat.lt_one_iff.mp hrow
    rcases Nat.le_one_iff_eq_zero_or_eq_one.mp (Nat.le_of_lt_succ hcol) with rfl | rfl
    · rcases hend with hend | hend
      · exact absurd (hend.symm.trans hinside) (by decide)
      · exact absurd hend (by decide)
    · rfl

theorem readable_tornPair : (Seamless.route Hammer.fold? ⟨2, 1⟩).Readable tornPair ⟨⟨0, 1⟩, ⟨0, 1⟩⟩ ↔
    Seamless.inside Hammer.fold? ⟨2, 1⟩ ⟨0, 0⟩ = true := by
  have hat : (Seamless.route Hammer.fold? ⟨2, 1⟩).via? ⟨⟨0, 1⟩, ⟨0, 1⟩⟩ ⟨0, 0⟩ = _ := at?_pair Hammer.fold?
  have hcells : (⟨⟨0, 1⟩, ⟨0, 1⟩⟩ : Tile).cells = [⟨0, 0⟩] := by decide
  simp only [Route.Readable, hcells, List.forall_mem_singleton, Source.pixel_eq_ok_iff, hat]
  cases Seamless.inside Hammer.fold? ⟨2, 1⟩ ⟨0, 0⟩ <;> simp [tornPair, Source.failing, Source.numbered]

theorem run_pair (op : Operation) : (∃ r, (op.run (.numbered ⟨2, 1⟩) ⟨1⟩).result = .ok r) ∧
    Event.fractions (op.run (.numbered ⟨2, 1⟩) ⟨1⟩).events = [0.0, 0.5, 1.0] := by
  have hcomplete : (Source.numbered ⟨2, 1⟩).Complete := fun c _ => ⟨_, rfl⟩
  obtain ⟨r, hr, -⟩ := op.redrawing.draw_eq_ok hcomplete plan_pair storable_pair
  rw [← op.result_run ⟨1⟩] at hr
  have hreports : (op.run (.numbered ⟨2, 1⟩) ⟨1⟩).Reports (.numbered ⟨2, 1⟩) 1 ((1 ⌈/⌉ 1) * (2 ⌈/⌉ 1)) _ :=
    op.run_reports (by decide) (by simp [hr])
  exact ⟨⟨r, hr⟩, (hreports.complete (by decide) ⟨r, hr⟩).trans (by decide +kernel)⟩

theorem result_run_tornPair : (hammerTile.run tornPair ⟨1⟩).result = .error (.fault (.unreadable "torn")) := by
  have hdraws : Draws (hammerTile.redrawing.draw tornPair 1).result _ _ :=
    Redrawing.draw_draws _ plan_pair storable_pair
  have haddress := Seamless.at?_of_inside plan_pair (by decide) inside_rim
  rw [hammerTile.result_run]
  exact hdraws.eq_fault (fun c f hf => (read_tornPair.mp hf).2) (by decide) haddress
    (read_tornPair.mpr ⟨rfl, rfl⟩)

theorem fractions_run_tornPair : Event.fractions (hammerTile.run tornPair ⟨1⟩).events =
    if Seamless.inside Hammer.fold? ⟨2, 1⟩ ⟨0, 0⟩ then [0.0, 0.5] else [0.0] := by
  have hreports : (hammerTile.run tornPair ⟨1⟩).Reports tornPair 1 ((1 ⌈/⌉ 1) * (2 ⌈/⌉ 1)) _ :=
    hammerTile.run_reports (by decide) (by simp [result_run_tornPair])
  have hn : (1 ⌈/⌉ 1) * (2 ⌈/⌉ 1) = 2 := by decide
  obtain ⟨tiles, done, t, before, c, htiles, hhalted, hlt, hreported⟩ := hreports.stopped _ result_run_tornPair
  obtain rfl := Except.ok.inj (plan_pair.symm.trans htiles)
  have hdone : done.length = 0 ↔ ¬Seamless.inside Hammer.fold? ⟨2, 1⟩ ⟨0, 0⟩ = true :=
    List.length_eq_zero_iff.trans (hhalted.done_eq_nil_iff.trans (not_congr readable_tornPair))
  rw [hn] at hlt hreported
  rw [hreported]
  split
  · rename_i hinside
    have hone : done.length = 1 := by
      have := mt hdone.mp (not_not.mpr hinside)
      omega
    rw [hone]
    decide +kernel
  · rename_i houtside
    rw [hdone.mpr houtside]
    rfl

/-! ### Runs -/

section Run
variable [Pixel α] (op : Operation) {src : Source α} {options : Options} (label : String)

theorem log_run_of_ok {r : Raster α} (h : (op.run src options).result = .ok r) : ∃ tiles,
    Tile.plan src.canvas (.square options.tileSize) = .ok tiles ∧
    Event.log label (op.run src options).events =
      (Note.running op src.canvas).line :: HostCall.line label .opened ::
        ((op.planningNotes src.canvas (.ok tiles)).map Note.line ++
          (Event.fractions (op.run src options).events).map (progressLine label) ++
          (op.drawingNotes src.canvas tiles).map Note.line ++ [HostCall.line label .committed]) := by
  have hdraw : (op.draw src options).result = .ok r := by rwa [op.run_eq] at h
  obtain ⟨tiles, es, hplan, hplain, hevents⟩ := op.events_draw_of_ok hdraw
  refine ⟨tiles, hplan, ?_⟩
  rw [op.run_eq, Event.fractions_note_cons, op.fractions_conclude, op.events_conclude_of_ok hdraw, hevents]
  simp [hplain.log_eq]

theorem log_run_of_fault {f : Fault} (h : (op.run src options).result = .error (.fault f)) :
    Event.log label (op.run src options).events =
      (Note.running op src.canvas).line :: HostCall.line label .opened ::
        ((op.planningNotes src.canvas (Tile.plan src.canvas (.square options.tileSize))).map Note.line ++
          (Event.fractions (op.run src options).events).map (progressLine label) ++
          [(Note.abandoned op f).line, HostCall.line label (.remarked (.error f.message)),
            HostCall.line label .rolledBack]) := by
  have hdraw : (op.draw src options).result = .error (.fault f) := by rwa [op.run_eq] at h
  obtain ⟨es, hplain, hevents⟩ := op.events_draw_of_fault hdraw
  rw [op.run_eq, Event.fractions_note_cons, op.fractions_conclude, op.events_conclude_of_fault hdraw, hevents]
  simp [hplain.log_eq, abandon]

variable (src options) in
/-- The lines of a run's log that carry the label of its host are those of the calls the host receives, one for each. With
    the others the log is this: that the operation runs; the opening of the transaction; for a redrawing in another
    projection, its tiles, if they are planned; the progress; and on success, for a filling, its tiles and how many of them
    have all corners inside, then the commit, or on a fault that the operation is abandoned, the report of the fault and
    the rollback. -/
theorem log_run :
    (Event.log label (op.run src options).events).filter (LogLine.carries label) =
      (Event.calls (op.run src options).events).map (fun
        | .opened => ⟨.debug, "begin transaction", [("label", .text label)]⟩
        | .remarked (.progress x) => ⟨.trace, "progress", [("label", .text label), ("fraction", .fraction x)]⟩
        | .remarked (.error m) => ⟨.error, m, [("label", .text label)]⟩
        | .committed => ⟨.debug, "commit", [("label", .text label)]⟩
        | .rolledBack => ⟨.warn, "rollback", [("label", .text label)]⟩) ∧
    (∀ r, (op.run src options).result = .ok r → ∃ tiles,
      Tile.plan src.canvas (.square options.tileSize) = .ok tiles ∧
      Event.log label (op.run src options).events =
        ⟨.info, "running", [("operation", .text op.name), ("width", .count src.canvas.width),
          ("height", .count src.canvas.height)]⟩ ::
        ⟨.debug, "begin transaction", [("label", .text label)]⟩ ::
          ((match op with
            | hammerTile => []
            | polarToHammer | polarToMercator =>
              [⟨.debug, "warping raster", [("width", .count src.canvas.width), ("height", .count src.canvas.height),
                ("tiles", .count tiles.length)]⟩]) ++
            (Event.fractions (op.run src options).events).map (fun x =>
              ⟨.trace, "progress", [("label", .text label), ("fraction", .fraction x)]⟩) ++
            (match op with
            | hammerTile =>
              [⟨.debug, "filled hammer tiling", [("width", .count src.canvas.width), ("height", .count src.canvas.height),
                ("tiles", .count tiles.length),
                ("skipped", .count (tiles.countP fun t => t.corners.all (Seamless.inside Hammer.fold? src.canvas)))]⟩]
            | polarToHammer | polarToMercator => []) ++
            [⟨.debug, "commit", [("label", .text label)]⟩])) ∧
    ∀ f, (op.run src options).result = .error (.fault f) →
      Event.log label (op.run src options).events =
        ⟨.info, "running", [("operation", .text op.name), ("width", .count src.canvas.width),
          ("height", .count src.canvas.height)]⟩ ::
        ⟨.debug, "begin transaction", [("label", .text label)]⟩ ::
          ((match op, Tile.plan src.canvas (.square options.tileSize) with
            | polarToHammer, .ok tiles | polarToMercator, .ok tiles =>
              [⟨.debug, "warping raster", [("width", .count src.canvas.width), ("height", .count src.canvas.height),
                ("tiles", .count tiles.length)]⟩]
            | _, _ => []) ++
            (Event.fractions (op.run src options).events).map (fun x =>
              ⟨.trace, "progress", [("label", .text label), ("fraction", .fraction x)]⟩) ++
            [⟨.warn, "operation abandoned",
                [("operation", .text op.name), ("error", .text ("Computation failure: " ++ f.detail))]⟩,
              ⟨.error, "Computation failure: " ++ f.detail, [("label", .text label)]⟩,
              ⟨.warn, "rollback", [("label", .text label)]⟩]) := by
  refine ⟨(Event.filter_carries_log _ _).trans (List.map_congr_left fun c _ => ?_), fun r hr => ?_, fun f hf => ?_⟩
  · rcases c with _ | (_ | _) | _ | _ <;> rfl
  · obtain ⟨tiles, hplan, hlog⟩ := op.log_run_of_ok label hr
    refine ⟨tiles, hplan, hlog.trans ?_⟩
    cases op <;> rfl
  · refine (op.log_run_of_fault label hf).trans ?_
    cases op <;> cases Tile.plan src.canvas (.square options.tileSize) <;> rfl

end Run

/-- The logs of three runs on two tiles of one cell each. The second cell lies on the rim of the disc, so a filling copies
    its tile unseen; and if it cannot be read, the filling ends in its tile, or in the first tile already if the first cell
    is outside and gets its pixel from there as well. Whether it is outside is left to the sine and the cosine. -/
theorem log_run_two_tiles :
    let src : Source UInt32 := .numbered ⟨2, 1⟩
    let kept := Seamless.inside Hammer.fold? ⟨2, 1⟩ ⟨0, 0⟩
    Event.log "land" (hammerTile.run src ⟨1⟩).events =
      [⟨.info, "running", [("operation", .text "hammer-tile"), ("width", .count 2), ("height", .count 1)]⟩,
        ⟨.debug, "begin transaction", [("label", .text "land")]⟩,
        ⟨.trace, "progress", [("label", .text "land"), ("fraction", .fraction 0.0)]⟩,
        ⟨.trace, "progress", [("label", .text "land"), ("fraction", .fraction 0.5)]⟩,
        ⟨.trace, "progress", [("label", .text "land"), ("fraction", .fraction 1.0)]⟩,
        ⟨.debug, "filled hammer tiling", [("width", .count 2), ("height", .count 1), ("tiles", .count 2),
          ("skipped", .count (if kept then 2 else 1))]⟩,
        ⟨.debug, "commit", [("label", .text "land")]⟩] ∧
    Event.log "land" (polarToMercator.run src ⟨1⟩).events =
      [⟨.info, "running", [("operation", .text "polar-to-mercator"), ("width", .count 2), ("height", .count 1)]⟩,
        ⟨.debug, "begin transaction", [("label", .text "land")]⟩,
        ⟨.debug, "warping raster", [("width", .count 2), ("height", .count 1), ("tiles", .count 2)]⟩,
        ⟨.trace, "progress", [("label", .text "land"), ("fraction", .fraction 0.0)]⟩,
        ⟨.trace, "progress", [("label", .text "land"), ("fraction", .fraction 0.5)]⟩,
        ⟨.trace, "progress", [("label", .text "land"), ("fraction", .fraction 1.0)]⟩,
        ⟨.debug, "commit", [("label", .text "land")]⟩] ∧
    Event.log "land" (hammerTile.run tornPair ⟨1⟩).events =
      [⟨.info, "running", [("operation", .text "hammer-tile"), ("width", .count 2), ("height", .count 1)]⟩,
        ⟨.debug, "begin transaction", [("label", .text "land")]⟩] ++
      (if kept then [0.0, 0.5] else [0.0]).map (fun x =>
        ⟨.trace, "progress", [("label", .text "land"), ("fraction", .fraction x)]⟩) ++
      [⟨.warn, "operation abandoned",
          [("operation", .text "hammer-tile"), ("error", .text "Computation failure: torn")]⟩,
        ⟨.error, "Computation failure: torn", [("label", .text "land")]⟩,
        ⟨.warn, "rollback", [("label", .text "land")]⟩] := by
  intro src kept
  refine ⟨?_, ?_, ?_⟩
  · obtain ⟨⟨r, hr⟩, hfractions⟩ := run_pair hammerTile
    obtain ⟨tiles, htiles, hlog⟩ := (hammerTile.log_run src ⟨1⟩ "land").2.1 r hr
    obtain rfl := Except.ok.inj (plan_pair.symm.trans htiles)
    have hskipped : List.countP (fun t : Tile => t.corners.all (Seamless.inside Hammer.fold? src.canvas))
        [⟨⟨0, 1⟩, ⟨0, 1⟩⟩, ⟨⟨0, 1⟩, ⟨1, 2⟩⟩] = if kept then 2 else 1 := by
      cases hkept : Seamless.inside Hammer.fold? ⟨2, 1⟩ ⟨0, 0⟩ <;>
        simp [Tile.corners, src, Source.numbered, kept, hkept, inside_rim]
    rw [hlog, hfractions, hskipped]
    rfl
  · obtain ⟨⟨r, hr⟩, hfractions⟩ := run_pair polarToMercator
    obtain ⟨tiles, htiles, hlog⟩ := (polarToMercator.log_run src ⟨1⟩ "land").2.1 r hr
    obtain rfl := Except.ok.inj (plan_pair.symm.trans htiles)
    rw [hlog, hfractions]
    rfl
  · have hlog := (hammerTile.log_run tornPair ⟨1⟩ "land").2.2 _ result_run_tornPair
    rw [fractions_run_tornPair] at hlog
    exact hlog

end Operation

end GlobeTexture
