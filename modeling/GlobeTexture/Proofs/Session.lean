import GlobeTexture.Proofs.Record
import GlobeTexture.Proofs.Redrawing
import GlobeTexture.Session

/-! # Sessions of any length

Whatever is done in a session, and however much of it fails, the layer keeps its name and its size, it changes only in
a step that succeeds, and the host is left with a record of whole transactions, one after another. -/

namespace GlobeTexture

/-! ### Reads -/

namespace Source

variable {β : Type} (src : Source β)

theorem quiet_fetch (c : Cell) : Event.Quiet (src.fetch c).events := by
  simp [fetch, Event.Quiet]

theorem quiet_fetch? (c? : Option Cell) : Event.Quiet (src.fetch? c?).events := by
  cases c? with
  | none => exact Event.quiet_nil
  | some c => exact src.quiet_fetch c

theorem quiet_sample (p : Point) : Event.Quiet (src.sample p).events :=
  src.quiet_fetch? _

end Source

/-! ### Layers -/

variable {α : Type} [Pixel α]

/-- Layers of one name and one size. -/
structure Layer.Alike (l l' : Layer α) : Prop where
  name : l'.name = l.name
  canvas : l'.pixels.canvas = l.pixels.canvas

namespace Layer.Alike

theorem refl (l : Layer α) : l.Alike l :=
  ⟨rfl, rfl⟩

theorem trans {l l' l'' : Layer α} (h : l.Alike l') (h' : l'.Alike l'') : l.Alike l'' :=
  ⟨h'.name.trans h.name, h'.canvas.trans h.canvas⟩

end Layer.Alike

theorem Layer.replace_alike {l l' : Layer α} {r old : Raster α} (h : l.replace r = .ok (l', old)) : l.Alike l' := by
  rw [replace] at h
  split at h
  · rename_i hk
    cases h
    exact ⟨rfl, hk⟩
  · cases h

theorem Redrawing.redrawn_alike (m : Redrawing) {l l' : Layer α} {s : Nat}
    (h : (l.redrawn (m.draw l.pixels.source s)).result = .ok l') : l.Alike l' := by
  obtain ⟨hname, hdraw⟩ := Layer.redrawn_eq_ok h
  exact ⟨hname, (m.draw_drawn l.pixels.source s).canvas hdraw⟩

theorem Layer.resampled_eq (l : Layer α) (source target : Projection) (s : Nat) :
    l.resampled source target s = l.redrawn ((Redrawing.resample source target).draw l.pixels.source s) :=
  Layer.bind_replace (resample_drawn l.pixels.source source target s).canvas

theorem Operation.result_applied (op : Operation) (options : Options) (l : Layer α) :
    (op.applied l options).result = (l.redrawn (op.redrawing.draw l.pixels.source options.tileSize)).result := by
  rw [applied_eq, op.draw_eq]

/-! ### Steps -/

/-- Steps that put other pixels into the layer. -/
def Step.rewrites : Step α → Bool
  | apply .. | replace _ | resample .. | restore => true
  | _ => false

namespace Session

theorem working_cases (s : Session α) {work : Traced (Layer α)} (h : ∀ l', work.result = .ok l' → s.layer.Alike l') :
    (s.working work).1 = s ∨ (∃ a, (s.working work).2.result = .ok a) ∧
      ∃ l', (s.layer.Alike l' ∨ l' = s.saved) ∧ (s.working work).1 = { s with layer := l' } := by
  cases hwork : work.result with
  | ok l' =>
    refine Or.inr ⟨⟨.done, ?_⟩, l', Or.inl (h l' hwork), ?_⟩
    · simp [working, hwork, Except.map]
    · rw [working, Layer.after_of_ok hwork]
  | error e => exact Or.inl (by rw [working, Layer.after_of_error hwork])

-- The outcome is a variable, so that the answer of a step is never computed to see that its events are those of `work`.
theorem settled_of_quiet {β : Type} {outcome : Session α × Traced (Answer α)} {s' : Session α} {f : β → Answer α}
    {work : Traced β} (h : outcome = (s', f <$> work)) (hquiet : Event.Quiet work.events) :
    HostCall.Settled (Event.recorded outcome.2.events) := by
  rw [h, Traced.events_map, hquiet.recorded_eq]
  exact HostCall.settled_nil

variable [DecidableEq α]

/-- What a step can do to a session: nothing, or if it succeeds, put other pixels into the layer or save it. -/
theorem step_cases (s : Session α) (st : Step α) :
    (s.step st).1 = s ∨ (∃ a, (s.step st).2.result = .ok a) ∧
      ((st.rewrites = true ∧ ∃ l', (s.layer.Alike l' ∨ l' = s.saved) ∧ (s.step st).1 = { s with layer := l' }) ∨
        (s.step st).1 = { s with saved := s.layer }) := by
  cases st with
  | apply op options =>
    have halike : ∀ l', (op.applied s.layer options).result = .ok l' → s.layer.Alike l' := by
      intro l' h
      rw [op.result_applied] at h
      exact op.redrawing.redrawn_alike h
    exact (s.working_cases halike).imp_right fun ⟨hok, hl'⟩ => ⟨hok, Or.inl ⟨rfl, hl'⟩⟩
  | replace pixels =>
    cases hreplace : s.layer.replace pixels with
    | ok new =>
      refine Or.inr ⟨⟨.raster new.2, ?_⟩, Or.inl ⟨rfl, new.1, Or.inl (Layer.replace_alike hreplace), ?_⟩⟩ <;>
        simp [step, hreplace]
    | error f => exact Or.inl (by simp [step, hreplace])
  | resample source target tileSize =>
    have halike : ∀ l', (s.layer.resampled source target tileSize).result = .ok l' → s.layer.Alike l' := by
      intro l' h
      rw [Layer.resampled_eq] at h
      exact Redrawing.redrawn_alike _ h
    exact (s.working_cases halike).imp_right fun ⟨hok, hl'⟩ => ⟨hok, Or.inl ⟨rfl, hl'⟩⟩
  | save => exact Or.inr ⟨⟨.done, rfl⟩, Or.inr rfl⟩
  | restore => exact Or.inr ⟨⟨.done, rfl⟩, Or.inl ⟨rfl, s.saved, Or.inr rfl, rfl⟩⟩
  | name | run | get | sample | same | transaction => exact Or.inl rfl

/-- A step leaves whole transactions in the record: one of its own, or none. -/
theorem step_settled (s : Session α) (st : Step α) : HostCall.Settled (Event.recorded (s.step st).2.events) := by
  cases st with
  | apply op options =>
    obtain ⟨b, hb⟩ := op.recorded_applied options s.layer
    simp only [step, working, Traced.events_map, hb]
    exact HostCall.settled_block b
  | run op options faults =>
    obtain ⟨b, hb⟩ := op.recorded_run options (s.layer.pixels.source.failing faults)
    simp only [step, Traced.events_map, hb]
    exact HostCall.settled_block b
  | transaction remarks ending =>
    rw [step, Event.recorded_transaction]
    exact HostCall.settled_block _
  | resample source target tileSize =>
    -- Nothing but progress is reported here, and outside of any transaction.
    refine settled_of_quiet (by rw [step, working]) ?_
    rw [Layer.resampled_eq]
    exact (resample_drawn s.layer.pixels.source source target tileSize).quiet
  | get c => exact settled_of_quiet (by rw [step]) (s.layer.pixels.source.quiet_fetch c)
  | sample p => exact settled_of_quiet (by rw [step]) (s.layer.pixels.source.quiet_sample p)
  | replace pixels =>
    rw [step]
    split <;> exact HostCall.settled_nil
  | name | save | restore | same => exact HostCall.settled_nil

/-! ### Sessions -/

/-- The session after steps that are taken whatever is answered, and the events on the way. -/
def play (s : Session α) : List (Step α) → Session α × List Event
  | [] => (s, [])
  | st :: steps =>
    let rest := (s.step st).1.play steps
    (rest.1, (s.step st).2.events ++ rest.2)

/-- The layer and its saved copy have the name and the size of `l`. -/
structure Keeps (s : Session α) (l : Layer α) : Prop where
  layer : l.Alike s.layer
  saved : l.Alike s.saved

omit [DecidableEq α] in
theorem start_keeps (l : Layer α) : (start l).Keeps l :=
  ⟨.refl l, .refl l⟩

theorem Keeps.step {s : Session α} {l : Layer α} (h : s.Keeps l) (st : Step α) : (s.step st).1.Keeps l := by
  rcases s.step_cases st with heq | ⟨-, ⟨-, l', hl', heq⟩ | heq⟩
  · rwa [heq]
  · rw [heq]
    -- A layer that is put back is the saved one, so the invariant speaks of both.
    rcases hl' with halike | rfl
    · exact ⟨h.layer.trans halike, h.saved⟩
    · exact ⟨h.saved, h.saved⟩
  · rw [heq]
    exact ⟨h.layer, h.layer⟩

theorem Keeps.play {s : Session α} {l : Layer α} (h : s.Keeps l) (steps : List (Step α)) :
    (s.play steps).1.Keeps l := by
  induction steps generalizing s with
  | nil => exact h
  | cons st steps ih => exact ih (h.step st)

theorem play_settled (s : Session α) (steps : List (Step α)) :
    HostCall.Settled (Event.recorded (s.play steps).2) := by
  induction steps generalizing s with
  | nil => exact HostCall.settled_nil
  | cons st steps ih =>
    rw [play, Event.recorded_append]
    exact (s.step_settled st).append (ih _)

/-- A layer changes only in a step that succeeds in putting other pixels into it. -/
theorem of_step_layer_ne {s : Session α} {st : Step α} (h : (s.step st).1.layer ≠ s.layer) :
    st.rewrites = true ∧ ∃ a, (s.step st).2.result = .ok a := by
  rcases s.step_cases st with heq | ⟨hok, ⟨hst, -, -, -⟩ | heq⟩
  · exact absurd (congrArg layer heq) h
  · exact ⟨hst, hok⟩
  · exact absurd (congrArg layer heq) h

/-- After any steps of a session the layer has its name and its size still, and the next step changes it only if it
    puts other pixels into it and succeeds. The host has a record of whole transactions: none was opened in another,
    none is open, and as many were opened as were committed or given up. -/
theorem play_invariant (l : Layer α) (steps : List (Step α)) :
    let s := ((start l).play steps).1
    let log := Event.recorded ((start l).play steps).2
    s.layer.name = l.name ∧ s.layer.pixels.canvas = l.pixels.canvas ∧
      (∀ st, (s.step st).1.layer ≠ s.layer → st.rewrites = true ∧ ∃ a, (s.step st).2.result = .ok a) ∧
      (∃ bs : List Block, log = bs.flatMap Block.calls ∧
        Event.records ((start l).play steps).2 = bs.flatMap Block.lines) ∧
      log.foldlM HostCall.next? false = some false ∧
      log.countP (· matches .opened) = log.countP (· matches .committed) + log.countP (· matches .rolledBack) := by
  intro s log
  have hkeeps : s.Keeps l := (start_keeps l).play steps
  have hsettled : HostCall.Settled log := (start l).play_settled steps
  refine ⟨hkeeps.layer.name, hkeeps.layer.canvas, fun st => of_step_layer_ne, ?_, hsettled.foldlM_next?,
    hsettled.countP_opened⟩
  obtain ⟨bs, hbs⟩ := hsettled
  refine ⟨bs, hbs, ?_⟩
  rw [Event.records_eq_recorded, show Event.recorded _ = _ from hbs, List.filterMap_flatMap]
  simp only [HostCall.filterMap_record?_block]

example : Event.records ((start (⟨"land", .replicate ⟨1, 1⟩ (by decide) 0⟩ : Layer UInt32)).play
      [.apply .hammerTile ⟨0⟩, .transaction [.progress 0.5, .error "lost"] .commit]).2 =
    ["begin", "error: Computation failure: Tile size must be > 0", "rollback", "begin", "error: lost", "commit"] := rfl

end Session

end GlobeTexture
