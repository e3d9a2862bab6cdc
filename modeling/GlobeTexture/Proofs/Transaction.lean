import GlobeTexture.Proofs.Reporting

/-! # Operations in transactions

An operation opens a transaction, reports nothing but its progress while it draws, and closes the transaction once: by
a commit if it has drawn, and by giving it up after a report of the fault if it has not. -/

namespace GlobeTexture

variable {α β : Type}

theorem Layer.after_of_ok [Pixel α] {l l' : Layer α} {work : Traced (Layer α)} (h : work.result = .ok l') :
    l.after work = l' := by
  rw [after, h]

theorem Layer.after_of_error [Pixel α] {l : Layer α} {work : Traced (Layer α)} {e : Failure}
    (h : work.result = .error e) : l.after work = l := by
  rw [after, h]

/-- A layer with the pixels that some work makes, as far as it makes any. -/
def Layer.redrawn [Pixel α] (l : Layer α) (work : Traced (Raster α)) : Traced (Layer α) where
  events := work.events
  result := work.result.map fun r => { l with pixels := r }

theorem Layer.redrawn_eq_ok [Pixel α] {l l' : Layer α} {work : Traced (Raster α)}
    (h : (l.redrawn work).result = .ok l') : l'.name = l.name ∧ work.result = .ok l'.pixels := by
  obtain ⟨r, hwork, rfl⟩ := Failure.map_eq_ok_iff.mp h
  exact ⟨rfl, hwork⟩

/-- Pixels of the size of a layer can be put in place of its own. -/
theorem Layer.bind_replace [Pixel α] {l : Layer α} {work : Traced (Raster α)}
    (h : ∀ {r}, work.result = .ok r → r.canvas = l.pixels.canvas) :
    (do
      let pixels ← work
      let (l, _) ← Traced.lift (Failure.ofExcept (l.replace pixels))
      return l) = l.redrawn work := by
  unfold redrawn
  cases hwork : work.result with
  | error e =>
    rw [Traced.bind_of_error hwork]
    rfl
  | ok r =>
    have hreplace : l.replace r = .ok ({ l with pixels := r }, l.pixels) := if_pos (h hwork)
    rw [Traced.bind_of_ok hwork, hreplace]
    simp [Failure.ofExcept, Except.map]

/-- Work that succeeds or meets a fault in a transaction of its own. -/
structure Traced.Transacted (work : Traced β) : Prop where
  commit : ∀ b, work.result = .ok b →
    ∃ xs : List Float, Event.calls work.events =
      .opened :: xs.map (fun x => .remarked (.progress x)) ++ [.committed]
  abandon : ∀ f, work.result = .error (.fault f) →
    ∃ xs : List Float, Event.calls work.events =
      .opened :: xs.map (fun x => .remarked (.progress x)) ++
        [.remarked (.error ("Computation failure: " ++ f.detail)), .rolledBack]

namespace Operation

/-! ### Concluding -/

@[simp] theorem result_conclude (op : Operation) (work : Traced β) : (op.conclude work).result = work.result := by
  unfold conclude Traced.onFault
  split <;> rfl

theorem events_conclude_of_ok (op : Operation) {work : Traced β} {b : β} (h : work.result = .ok b) :
    (op.conclude work).events = .call .opened :: work.events ++ [.call .committed] := by
  simp only [conclude, Traced.onFault, Traced.guarded, h]
  rfl

theorem events_conclude_of_fault (op : Operation) {work : Traced β} {f : Fault} (h : work.result = .error (.fault f)) :
    (op.conclude work).events = .call .opened :: (work.events ++ op.abandon f) ++ [.call .rolledBack] := by
  simp only [conclude, Traced.onFault, Traced.guarded, h]
  rfl

theorem events_conclude_of_outOfRange (op : Operation) {work : Traced β} (h : work.result = .error .outOfRange) :
    (op.conclude work).events = .call .opened :: work.events ++ [.call .rolledBack] := by
  simp only [conclude, Traced.onFault, Traced.guarded, h]
  rfl

/-- How work is concluded depends on what it did and on how it failed, not on what it made. -/
theorem events_conclude_congr {γ : Type} (op : Operation) {work : Traced β} {work' : Traced γ}
    (hevents : work'.events = work.events) (hfailure : ∀ e, work'.result = .error e ↔ work.result = .error e) :
    (op.conclude work').events = (op.conclude work).events := by
  cases hwork : work.result with
  | ok b =>
    cases hwork' : work'.result with
    | ok c => rw [op.events_conclude_of_ok hwork, op.events_conclude_of_ok hwork', hevents]
    | error e =>
      rw [(hfailure e).mp hwork'] at hwork
      cases hwork
  | error e =>
    have hwork' := (hfailure e).mpr hwork
    cases e with
    | fault f => rw [op.events_conclude_of_fault hwork, op.events_conclude_of_fault hwork', hevents]
    | outOfRange => rw [op.events_conclude_of_outOfRange hwork, op.events_conclude_of_outOfRange hwork', hevents]

/-- Work that reports nothing but progress is concluded by one transaction; a note before it is no call. -/
theorem conclude_transacted (op : Operation) {work : Traced β} (h : Event.Quiet work.events) (n : Note) :
    (⟨.note n :: (op.conclude work).events, work.result⟩ : Traced β).Transacted := by
  refine ⟨fun b (hb : work.result = .ok b) => ⟨Event.fractions work.events, ?_⟩,
    fun f (hf : work.result = .error (.fault f)) => ⟨Event.fractions work.events, ?_⟩⟩
  · rw [events_conclude_of_ok op hb, Event.calls_note_cons, Event.calls_append, Event.calls_call_cons, h.calls_eq,
      List.map_map]
    rfl
  · have habandon : Event.calls (op.abandon f) = [.remarked (.error ("Computation failure: " ++ f.detail))] := rfl
    rw [events_conclude_of_fault op hf, Event.calls_note_cons, Event.calls_append, Event.calls_call_cons,
      Event.calls_append, h.calls_eq, List.map_map, habandon, List.cons_append, List.append_assoc]
    rfl

@[simp] theorem reads_conclude (op : Operation) (work : Traced β) :
    Event.reads (op.conclude work).events = Event.reads work.events := by
  unfold conclude Traced.onFault
  split <;> simp [Traced.guarded, abandon]

@[simp] theorem fractions_conclude (op : Operation) (work : Traced β) :
    Event.fractions (op.conclude work).events = Event.fractions work.events := by
  have hstart : HostCall.opened.fraction? = none := rfl
  have hend (e : Ending) : e.call.fraction? = none := by cases e <;> rfl
  have habandon (f : Fault) : Event.fractions (op.abandon f) = [] := rfl
  unfold conclude Traced.onFault
  split <;> simp [Traced.guarded, Event.fractions_call_cons, hstart, hend, habandon]

theorem blames_conclude_iff (op : Operation) {work : Traced β} {src : Source α} {s : Nat} {f : Fault} (n : Note) :
    src.Blames (.note n :: (op.conclude work).events) s f ↔ src.Blames work.events s f := by
  rw [Source.Blames, Event.reads_note_cons, reads_conclude, Source.Blames]

variable [Pixel α] (op : Operation) (options : Options)

/-! ### Running and applying -/

theorem run_eq (src : Source α) :
    op.run src options =
      ⟨.note (.running op src.canvas) :: (op.conclude (op.draw src options)).events, (op.draw src options).result⟩ := by
  rw [run, Traced.emit_bind, result_conclude]

theorem applied_eq (l : Layer α) :
    op.applied l options =
      ⟨.note (.applying op l.name) :: (op.conclude (l.redrawn (op.draw l.pixels.source options))).events,
        (l.redrawn (op.draw l.pixels.source options)).result⟩ := by
  have hview : l.pixels.view.source = l.pixels.source := rfl
  rw [applied, Traced.emit_bind, hview, Layer.bind_replace (op.draw_drawn l.pixels.source options).canvas,
    result_conclude]

/-- A run and an application of an operation each make one transaction of it. What they return is what is drawn, or
    the fault of drawing as it is. A layer keeps its name and its size; its pixels become what is drawn from them, or
    stay what they are. -/
theorem run_and_applied_transacted :
    (∀ src : Source α, (op.run src options).Transacted ∧
      (op.run src options).result = (op.draw src options).result ∧
      ∀ f, (op.run src options).result = .error (.fault f) →
        src.Blames (op.run src options).events options.tileSize f) ∧
    ∀ l : Layer α, (op.applied l options).Transacted ∧
      (∀ l', (op.applied l options).result = .ok l' →
        l.after (op.applied l options) = l' ∧ l'.name = l.name ∧ l'.pixels.canvas = l.pixels.canvas ∧
          (op.draw l.pixels.source options).result = .ok l'.pixels) ∧
      ∀ f, (op.applied l options).result = .error (.fault f) →
        l.after (op.applied l options) = l ∧ (op.draw l.pixels.source options).result = .error (.fault f) ∧
          l.pixels.source.Blames (op.applied l options).events options.tileSize f := by
  refine ⟨fun src => ?_, fun l => ?_⟩
  · have hdrawn := op.draw_drawn src options
    rw [run_eq]
    refine ⟨op.conclude_transacted hdrawn.quiet _, rfl, fun f hf => ?_⟩
    exact (op.blames_conclude_iff _).mpr (hdrawn.fault hf)
  · have hdrawn := op.draw_drawn l.pixels.source options
    have hquiet : Event.Quiet (l.redrawn (op.draw l.pixels.source options)).events := hdrawn.quiet
    rw [applied_eq]
    refine ⟨op.conclude_transacted hquiet _, fun l' hl' => ?_, fun f hf => ?_⟩
    · obtain ⟨hname, hdraw⟩ := Layer.redrawn_eq_ok hl'
      exact ⟨Layer.after_of_ok hl', hname, hdrawn.canvas hdraw, hdraw⟩
    · have hdraw := Failure.map_eq_error_iff.mp hf
      exact ⟨Layer.after_of_error hf, hdraw, (op.blames_conclude_iff _).mpr (hdrawn.fault hdraw)⟩

example : Event.calls (hammerTile.run (.numbered ⟨4, 4⟩) ⟨0⟩).events =
    [.opened, .remarked (.error "Computation failure: Tile size must be > 0"), .rolledBack] := rfl

end Operation

end GlobeTexture
