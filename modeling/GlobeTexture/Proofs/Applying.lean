import GlobeTexture.Proofs.Totality
import GlobeTexture.Proofs.Transaction

/-! # Applying and running

An operation is applied to a layer as it is run on the pixels of the layer. The layer takes whatever is drawn from its
own pixels, so putting it there is no further way to fail. -/

namespace GlobeTexture

variable {α : Type}

theorem Source.Complete.eq_zeroTile_of_blames {src : Source α} (hsrc : src.Complete) {es : List Event} {s : Nat}
    {f : Fault} (hreads : ∀ c ∈ Event.reads es, c ∈ src.canvas) (h : src.Blames es s f) : f = .zeroTile := by
  rcases h with ⟨_, hf⟩ | ⟨_, c, hlast, hread⟩
  · exact hf
  · obtain ⟨x, hx⟩ := hsrc c (hreads c (List.mem_of_getLast? hlast))
    rw [hx] at hread
    cases hread

namespace Operation

variable [Pixel α] (op : Operation) (options : Options) (l : Layer α)

theorem replace_of_draw {r : Raster α} (h : (op.draw l.pixels.view.source options).result = .ok r) :
    l.replace r = .ok ({ l with pixels := r }, l.pixels) :=
  if_pos ((op.draw_drawn l.pixels.view.source options).canvas h)

theorem eq_zeroTile_of_draw {f : Fault} (h : (op.draw l.pixels.view.source options).result = .error (.fault f)) :
    f = .zeroTile := by
  have hblames := (op.draw_drawn l.pixels.view.source options).fault h
  refine l.pixels.view.source_complete.eq_zeroTile_of_blames (fun c hc => ?_) hblames
  rw [op.draw_eq] at hc
  exact op.redrawing.draw_reads_mem hc

theorem events_conclude_redrawn :
    (op.conclude (l.redrawn (op.draw l.pixels.source options))).events =
      (op.conclude (op.draw l.pixels.source options)).events :=
  op.events_conclude_congr rfl fun _ => Failure.map_eq_error_iff

theorem result_applied_eq_map_run :
    (op.applied l options).result =
      (op.run l.pixels.source options).result.map fun r => { l with pixels := r } := by
  rw [applied_eq, run_eq]
  rfl

/-- But for the note it begins with, an application to a layer does what a run on the pixels of the layer does, call
    by call and read by read. The layer it makes has the pixels that the run returns, and it fails as the run does and
    then leaves the layer as it is. Whatever is drawn from a layer is taken by it, so no fault comes from its size. -/
theorem applied_like_run :
    (∃ es, (op.applied l options).events = .note (.applying op l.name) :: es ∧
      (op.run l.pixels.source options).events = .note (.running op l.pixels.canvas) :: es) ∧
    Event.calls (op.applied l options).events = Event.calls (op.run l.pixels.source options).events ∧
    ((∃ l', (op.applied l options).result = .ok l') ↔ ∃ r, (op.run l.pixels.source options).result = .ok r) ∧
    (∀ l', (op.applied l options).result = .ok l' →
      l.after (op.applied l options) = l' ∧ l'.name = l.name ∧
        (op.run l.pixels.source options).result = .ok l'.pixels) ∧
    (∀ e, (op.applied l options).result = .error e ↔ (op.run l.pixels.source options).result = .error e) ∧
    (∀ e, (op.applied l options).result = .error e → l.after (op.applied l options) = l) ∧
    (∀ r, (op.draw l.pixels.view.source options).result = .ok r →
      l.replace r = .ok ({ l with pixels := r }, l.pixels)) ∧
    ∀ f, (op.applied l options).result = .error (.fault f) → f = .zeroTile := by
  have hresult := op.result_applied_eq_map_run options l
  have hevents : ∃ es, (op.applied l options).events = .note (.applying op l.name) :: es ∧
      (op.run l.pixels.source options).events = .note (.running op l.pixels.canvas) :: es := by
    rw [applied_eq, run_eq, events_conclude_redrawn]
    exact ⟨_, rfl, rfl⟩
  refine ⟨hevents, ?_, ?_, fun l' hl' => ?_, fun e => ?_, fun e he => Layer.after_of_error he,
    fun r => op.replace_of_draw options l, fun f hf => ?_⟩
  · obtain ⟨es, happlied, hrun⟩ := hevents
    rw [happlied, hrun, Event.calls_note_cons, Event.calls_note_cons]
  · rw [hresult]
    constructor
    · rintro ⟨l', hl'⟩
      obtain ⟨r, hr, -⟩ := Failure.map_eq_ok_iff.mp hl'
      exact ⟨r, hr⟩
    · rintro ⟨r, hr⟩
      exact ⟨_, Failure.map_eq_ok_iff.mpr ⟨r, hr, rfl⟩⟩
  · refine ⟨Layer.after_of_ok hl', ?_⟩
    rw [hresult] at hl'
    obtain ⟨r, hr, rfl⟩ := Failure.map_eq_ok_iff.mp hl'
    exact ⟨rfl, hr⟩
  · rw [hresult]
    exact Failure.map_eq_error_iff
  · rw [hresult, run_eq] at hf
    exact op.eq_zeroTile_of_draw options l (Failure.map_eq_error_iff.mp hf)

end Operation

end GlobeTexture
