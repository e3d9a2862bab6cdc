import GlobeTexture.Operation.Run

/-! # Sessions

A session is work on one layer, step by step, beside a saved copy of it. A step changes the layer if it
succeeds; if it fails, the layer stays as it was and the session goes on. -/

namespace GlobeTexture

/-- A layer at work, and the copy saved last. -/
structure Session (α : Type) [Pixel α] where
  layer : Layer α
  saved : Layer α

/-- What can be done in a session. -/
inductive Step (α : Type) [Pixel α] where
  | name
  | apply (op : Operation) (options : Options)
  | replace (pixels : Raster α)
  /-- Redraws the layer in another projection, without a transaction. -/
  | resample (source target : Projection) (tileSize : Nat)
  /-- Runs an operation on the pixels of the layer, some of which may fail to be read; the layer is not
      changed. -/
  | run (op : Operation) (options : Options) (faults : Cell → Option Fault)
  | get (cell : Cell)
  | sample (position : Point)
  | save
  | restore
  /-- Asks whether the layer equals its saved copy. -/
  | same
  | transaction (remarks : List Remark) (ending : Ending)

/-- What a step answers. -/
inductive Answer (α : Type) [Pixel α] where
  | done
  | text (s : String)
  | pixel (a : α)
  | raster (r : Raster α)
  | truth (b : Bool)

namespace Session

variable {α : Type} [Pixel α]

/-- A session on a layer, which is its own saved copy at first. -/
def start (l : Layer α) : Session α :=
  ⟨l, l⟩

/-- The session after some work on its layer. -/
def working (s : Session α) (work : Traced (Layer α)) : Session α × Traced (Answer α) :=
  ({ s with layer := s.layer.after work }, (fun _ => .done) <$> work)

/-- One step: the session after it, and its answer. -/
def step [DecidableEq α] (s : Session α) : Step α → Session α × Traced (Answer α)
  | .name => (s, pure (.text s.layer.name))
  | .apply op options => s.working (op.applied s.layer options)
  | .replace pixels =>
    match s.layer.replace pixels with
    | .ok (l, old) => ({ s with layer := l }, pure (.raster old))
    | .error f => (s, Traced.lift (.error (.fault f)))
  | .resample source target tileSize => s.working (s.layer.resampled source target tileSize)
  | .run op options faults => (s, .raster <$> op.run (s.layer.pixels.source.failing faults) options)
  | .get c => (s, .pixel <$> s.layer.pixels.source.fetch c)
  | .sample p => (s, .pixel <$> s.layer.pixels.source.sample p)
  | .save => ({ s with saved := s.layer }, pure .done)
  | .restore => ({ s with layer := s.saved }, pure .done)
  | .same => (s, pure (.truth (decide (s.layer = s.saved))))
  | .transaction remarks ending => (s, ⟨(transaction remarks ending).map .call, .ok .done⟩)

end Session

end GlobeTexture
