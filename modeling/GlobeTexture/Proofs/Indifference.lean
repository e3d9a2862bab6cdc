import GlobeTexture.Proofs.Redrawing
import GlobeTexture.Proofs.Transaction
import Mathlib.Control.Monad.Basic

/-! # Indifference to pixels

Two sources of one size that fail at the same cells in the same way cannot be told apart by what is done with them,
whatever their pixels are: the same cells are read in the same order, the host and the log hear the same, and the work
succeeds or fails alike. A pass is where pixels are read, so it is the pass that has to be followed on both sources; it
comes to the same tiles and cells, and stops at the same one. -/

namespace GlobeTexture

variable {μ α β : Type}

/-! ### Sources -/

/-- Sources of one size whose reads fail at the same cells, with the same faults. -/
structure Source.FailsLike (src : Source α) (src' : Source β) : Prop where
  canvas : src'.canvas = src.canvas
  read : ∀ c f, src'.read c = .error f ↔ src.read c = .error f

namespace Source.FailsLike

variable {src : Source α} {src' : Source β} (h : src.FailsLike src')
include h

theorem pixel_eq_error_iff {address? : Cell → Option Cell} {c : Cell} {e : Failure} :
    src'.pixel address? c = .error e ↔ src.pixel address? c = .error e := by
  simp only [Source.pixel_eq_error_iff, h.read]

theorem exists_pixel_iff {address? : Cell → Option Cell} {c : Cell} :
    (∃ x, src'.pixel address? c = .ok x) ↔ ∃ x, src.pixel address? c = .ok x := by
  cases hx : src.pixel address? c with
  | error e => simp [h.pixel_eq_error_iff.mpr hx]
  | ok x =>
    cases hx' : src'.pixel address? c with
    | error e =>
      rw [h.pixel_eq_error_iff.mp hx'] at hx
      cases hx
    | ok y => simp

/-! ### Passes -/

variable {route : Route μ} {tiles : List Tile}

theorem readable_iff {t : Tile} : route.Readable src' t ↔ route.Readable src t :=
  forall₂_congr fun _ _ => h.exists_pixel_iff

theorem halted {done : List Tile} {t : Tile} {before : List Cell} {c : Cell} {e : Failure}
    (hhalted : route.Halted src tiles done t before c e) : route.Halted src' tiles done t before c e where
  tiles := hhalted.tiles
  done u hu := h.readable_iff.mpr (hhalted.done u hu)
  cells := hhalted.cells
  before d hd := h.exists_pixel_iff.mpr (hhalted.before d hd)
  failed := h.pixel_eq_error_iff.mpr hhalted.failed

/-- A pass over the same tiles does the same, and treats the tiles in the same ways. -/
theorem gather (route : Route μ) (hne : ∀ t ∈ tiles, t.cells ≠ []) :
    (gather src' tiles route).events = (gather src tiles route).events ∧
      (gather src' tiles route).result.map Gathered.modes = (gather src tiles route).result.map Gathered.modes := by
  rcases route.readable_or_halted src tiles with hall | ⟨done, t, before, c, e, hhalted⟩
  · obtain ⟨ms, ws, hfin, heq⟩ := gather_of_readable hne hall
    obtain ⟨ms', ws', hfin', heq'⟩ := gather_of_readable hne fun t ht => h.readable_iff.mpr (hall t ht)
    have hmodes : ms' = ms := by
      rw [← List.map_inj_right (fun _ _ => Option.some.inj), hfin'.modes, hfin.modes]
    rw [heq, heq', hmodes]
    exact ⟨rfl, rfl⟩
  · rw [gather_of_halted hne hhalted, gather_of_halted hne (h.halted hhalted)]
    exact ⟨rfl, rfl⟩

end Source.FailsLike

/-! ### Drawings -/

/-- Work that takes the same course: it does the same, down to each read, each call of the host and each note for the
    log, and it makes a raster of the same size or fails in the same way. -/
structure Traced.SameCourse [Pixel α] [Pixel β] (work : Traced (Raster α)) (work' : Traced (Raster β)) : Prop where
  events : work'.events = work.events
  outcome : (∃ r r', work.result = .ok r ∧ work'.result = .ok r' ∧ r'.canvas = r.canvas) ∨
    ∃ e, work.result = .error e ∧ work'.result = .error e

section Course
variable [Pixel α] [Pixel β]

theorem Traced.SameCourse.of_error_iff {work : Traced (Raster α)} {work' : Traced (Raster β)} {k : Canvas}
    (hevents : work'.events = work.events) (herror : ∀ e, work'.result = .error e ↔ work.result = .error e)
    (hk : ∀ {r}, work.result = .ok r → r.canvas = k) (hk' : ∀ {r}, work'.result = .ok r → r.canvas = k) :
    work.SameCourse work' := by
  refine ⟨hevents, ?_⟩
  cases hwork : work.result with
  | error e => exact Or.inr ⟨e, rfl, (herror e).mpr hwork⟩
  | ok r =>
    cases hwork' : work'.result with
    | error e =>
      rw [(herror e).mp hwork'] at hwork
      cases hwork
    | ok r' => exact Or.inl ⟨r, r', rfl, rfl, (hk' hwork').trans (hk hwork).symm⟩

theorem Traced.SameCourse.error_iff {work : Traced (Raster α)} {work' : Traced (Raster β)}
    (h : work.SameCourse work') (e : Failure) : work'.result = .error e ↔ work.result = .error e := by
  rcases h.outcome with ⟨r, r', hr, hr', -⟩ | ⟨f, hf, hf'⟩
  · simp [hr, hr']
  · simp [hf, hf']

variable {src : Source α} {src' : Source β} (h : src.FailsLike src')
  (hroom : src.canvas.Storable (Pixel.bytes α) ↔ src.canvas.Storable (Pixel.bytes β))
include h hroom

theorem Redrawing.draw_sameCourse (m : Redrawing) (s : Nat) : (m.draw src s).SameCourse (m.draw src' s) := by
  have hcanvas : ∀ {r}, (m.draw src' s).result = .ok r → r.canvas = src.canvas := fun hr =>
    ((m.draw_drawn src' s).canvas hr).trans h.canvas
  suffices hcourse : (m.draw src' s).events = (m.draw src s).events ∧
      ∀ e, (m.draw src' s).result = .error e ↔ (m.draw src s).result = .error e from
    .of_error_iff hcourse.1 hcourse.2 (m.draw_drawn src s).canvas hcanvas
  rcases m.draw_cases src s with ⟨e, hplan, heq⟩ | ⟨tiles, hplan, hk, heq⟩ | ⟨tiles, hplan, hk, heq⟩ <;>
    rw [← h.canvas] at hplan
  · rw [heq, m.draw_of_plan_error hplan]
    simp
  · have hk' : ¬src'.canvas.Storable (Pixel.bytes β) := h.canvas ▸ mt hroom.mpr hk
    rw [heq, m.draw_of_not_storable hplan hk', h.canvas]
    simp
  · have hk' : src'.canvas.Storable (Pixel.bytes β) := h.canvas ▸ hroom.mp hk
    obtain ⟨hevents, hmodes⟩ := h.gather (m.route src.canvas) fun t ht => Tile.cells_ne_nil_of_mem_plan hplan ht
    rw [heq, m.draw_of_plan hplan hk']
    refine ⟨?_, fun e => ?_⟩
    · dsimp only
      rw [h.canvas, hevents, hmodes]
    · rw [Failure.map_eq_error_iff, Failure.map_eq_error_iff, h.canvas, ← Failure.map_eq_error_iff, hmodes,
        Failure.map_eq_error_iff]

theorem Operation.run_sameCourse (op : Operation) (options : Options) :
    (op.run src options).SameCourse (op.run src' options) := by
  have hdraw : (op.draw src options).SameCourse (op.draw src' options) := by
    rw [op.draw_eq, op.draw_eq]
    exact op.redrawing.draw_sameCourse h hroom options.tileSize
  rw [op.run_eq, op.run_eq, h.canvas]
  exact ⟨congrArg _ (op.events_conclude_congr hdraw.events hdraw.error_iff), hdraw.outcome⟩

/-- On sources of one size that fail at the same cells by the same faults, whatever their pixels are elsewhere, each run
    of an operation, each redrawing in another projection and each filling takes the same course, if there is room for
    a raster of either kind of pixels or of neither, as there is for pixels of one kind. -/
theorem run_resample_seamless_sameCourse (s : Nat) :
    (∀ op : Operation, (op.run src ⟨s⟩).SameCourse (op.run src' ⟨s⟩)) ∧
    (∀ source target : Projection, (resample src source target s).SameCourse (resample src' source target s)) ∧
    ∀ fold? : Fold, (seamless fold? src s).SameCourse (seamless fold? src' s) :=
  ⟨fun op => op.run_sameCourse h hroom ⟨s⟩,
    fun source target => (Redrawing.resample source target).draw_sameCourse h hroom s,
    fun fold? => (Redrawing.seamless fold?).draw_sameCourse h hroom s⟩

end Course

/-- Two sources with one unreadable cell and no pixel in common: the fault that ends the work on one of them ends it on
    the other. -/
theorem run_resample_seamless_sameCourse_torn :
    let faults : Cell → Option Fault := fun c => if c = ⟨1, 1⟩ then some (.unreadable "torn") else none
    let src : Source UInt32 := (Source.numbered ⟨3, 2⟩).failing faults
    let src' : Source UInt32 := Source.failing ⟨⟨3, 2⟩, fun _ => .ok 7⟩ faults
    src.FailsLike src' ∧ (∀ c ∈ src.canvas.cells, c ≠ ⟨1, 1⟩ → src.read c ≠ src'.read c) ∧
      (seamless (fun _ => none) src 2).result = .error (.fault (.unreadable "torn")) ∧
      (seamless (fun _ => none) src' 2).result = .error (.fault (.unreadable "torn")) ∧
      ∀ op : Operation, (op.run src' ⟨2⟩).events = (op.run src ⟨2⟩).events := by
  intro faults src src'
  have hlike : src.FailsLike src' := by
    refine ⟨rfl, fun c f => ?_⟩
    by_cases hc : c = ⟨1, 1⟩ <;> simp [src, src', faults, Source.failing, Source.numbered, hc]
  obtain ⟨hrun, -, hseamless⟩ := run_resample_seamless_sameCourse hlike Iff.rfl 2
  have hfault : (seamless (fun _ => none) src 2).result = .error (.fault (.unreadable "torn")) := by decide +kernel
  exact ⟨hlike, by decide, hfault, ((hseamless _).error_iff _).mpr hfault, fun op => (hrun op).events⟩

/-- On a canvas of no cells whose width is not a signed word two sources fail alike, since nothing is ever read, and
    still a run on either of them ends neither with a raster nor with a fault: none of this size can be stored. -/
theorem run_without_outcome :
    let src : Source UInt32 := .numbered ⟨Word.signedLimit, 0⟩
    let src' : Source UInt32 := ⟨⟨Word.signedLimit, 0⟩, fun _ => .ok 7⟩
    src.FailsLike src' ∧ ∀ op : Operation,
      ((∀ r, (op.run src ⟨64⟩).result ≠ .ok r) ∧ ∀ f, (op.run src ⟨64⟩).result ≠ .error (.fault f)) ∧
      (∀ r, (op.run src' ⟨64⟩).result ≠ .ok r) ∧ ∀ f, (op.run src' ⟨64⟩).result ≠ .error (.fault f) := by
  intro src src'
  refine ⟨⟨rfl, fun c f => by simp [src, src', Source.numbered]⟩, fun op => ?_⟩
  have hplan : Tile.plan ⟨Word.signedLimit, 0⟩ (.square 64) = .ok [] := rfl
  have hk : ¬Canvas.Storable ⟨Word.signedLimit, 0⟩ (Pixel.bytes UInt32) := by decide
  have hdraw : op.redrawing.draw src 64 = _ := op.redrawing.draw_of_not_storable hplan hk
  have hdraw' : op.redrawing.draw src' 64 = _ := op.redrawing.draw_of_not_storable hplan hk
  rw [op.run_eq, op.run_eq, op.draw_eq, op.draw_eq, hdraw, hdraw']
  simp

end GlobeTexture
