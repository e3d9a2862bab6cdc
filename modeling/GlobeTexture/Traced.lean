import GlobeTexture.Event

/-! # Traced computations

A traced computation is its outcome together with the events on the way to it. In a sequence the events
follow one another, and nothing happens after a failure. -/

namespace GlobeTexture

/-- An outcome, and the events on the way to it. -/
structure Traced (α : Type) where
  events : List Event
  result : Except Failure α

namespace Traced

variable {α β : Type}

instance : Monad Traced where
  pure a := ⟨[], .ok a⟩
  bind x f :=
    match x.result with
    | .ok a =>
      let y := f a
      ⟨x.events ++ y.events, y.result⟩
    | .error e => ⟨x.events, .error e⟩

/-- One event. -/
def emit (e : Event) : Traced Unit :=
  ⟨[e], .ok ()⟩

/-- An outcome without events. -/
def lift (x : Except Failure α) : Traced α :=
  ⟨[], x⟩

/-- The failure of leaving the range of words, unless `p` holds. -/
def require (p : Prop) [Decidable p] : Traced (PLift p) :=
  lift (if h : p then .ok ⟨h⟩ else .error .outOfRange)

/-- Adds events if the computation ends in a fault. -/
def onFault (x : Traced α) (after : Fault → List Event) : Traced α :=
  match x.result with
  | .error (.fault f) => ⟨x.events ++ after f, x.result⟩
  | _ => x

/-- Runs a computation in a transaction of its own, which is committed on success and given up
    otherwise. -/
def guarded (x : Traced α) : Traced α :=
  let ending : Ending := match x.result with
    | .ok _ => .commit
    | .error _ => .drop
  ⟨.call .opened :: x.events ++ [.call ending.call], x.result⟩

@[simp] theorem pure_def (a : α) : (pure a : Traced α) = ⟨[], .ok a⟩ :=
  rfl

theorem bind_of_ok {x : Traced α} {a : α} (h : x.result = .ok a) (f : α → Traced β) :
    x >>= f = ⟨x.events ++ (f a).events, (f a).result⟩ := by
  simp only [bind, h]

theorem bind_of_error {x : Traced α} {e : Failure} (h : x.result = .error e) (f : α → Traced β) :
    x >>= f = ⟨x.events, .error e⟩ := by
  simp only [bind, h]

@[simp] theorem lift_ok_bind (a : α) (f : α → Traced β) : lift (.ok a) >>= f = f a :=
  rfl

@[simp] theorem lift_error_bind (e : Failure) (f : α → Traced β) : lift (.error e) >>= f = ⟨[], .error e⟩ :=
  rfl

@[simp] theorem emit_bind (e : Event) (f : Unit → Traced β) : emit e >>= f = ⟨e :: (f ()).events, (f ()).result⟩ :=
  rfl

theorem require_of_pos {p : Prop} [Decidable p] (h : p) : require p = lift (.ok ⟨h⟩) := by
  rw [require, dif_pos h]

theorem require_of_neg {p : Prop} [Decidable p] (h : ¬p) : require p = lift (.error .outOfRange) := by
  rw [require, dif_neg h]

@[simp] theorem events_map (f : α → β) (x : Traced α) : (f <$> x).events = x.events := by
  obtain ⟨es, r⟩ := x
  cases r with
  | ok a => exact List.append_nil es
  | error e => rfl

@[simp] theorem result_map (f : α → β) (x : Traced α) : (f <$> x).result = x.result.map f := by
  obtain ⟨es, r⟩ := x
  cases r <;> rfl

/-- A sequence succeeds exactly when both of its parts do. -/
theorem bind_result_eq_ok_iff {x : Traced α} {f : α → Traced β} {b : β} :
    (x >>= f).result = .ok b ↔ ∃ a, x.result = .ok a ∧ (f a).result = .ok b := by
  cases h : x.result with
  | ok a => simp [bind_of_ok h]
  | error e => simp [bind_of_error h]

end Traced

end GlobeTexture
