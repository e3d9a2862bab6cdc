import GlobeTexture.Fault
import GlobeTexture.Host
import GlobeTexture.Operation

/-! # Events

All that a computation does on its way, in one order: the pixels it reads, the calls it makes to its host
and the notes it leaves for the log. Each of them is a view of the one stream. -/

namespace GlobeTexture

/-- A note for the log. -/
inductive Note where
  | running (operation : Operation) (canvas : Canvas)
  | applying (operation : Operation) (layer : String)
  /-- A texture is about to be redrawn in so many tiles. -/
  | resampling (canvas : Canvas) (tiles : Nat)
  /-- A Hammer texture has been filled, and `skipped` of its tiles were copied unseen. -/
  | filled (canvas : Canvas) (tiles skipped : Nat)
  | abandoned (operation : Operation) (fault : Fault)
deriving DecidableEq, Repr

/-- One thing that a computation does. -/
inductive Event where
  | read (cell : Cell)
  | call (call : HostCall)
  | note (note : Note)

namespace Event

/-- A report of the fraction done. -/
def progress (fraction : Float) : Event :=
  call (.remarked (.progress fraction))

/-- The cell that is read. -/
def read? : Event → Option Cell
  | read c => some c
  | _ => none

/-- The call that is made. -/
def call? : Event → Option HostCall
  | call c => some c
  | _ => none

/-- The cells that are read, in order. -/
def reads (es : List Event) : List Cell :=
  es.filterMap read?

/-- The calls that are made to the host, in order. -/
def calls (es : List Event) : List HostCall :=
  es.filterMap call?

/-- The fractions that are reported, in order. -/
def fractions (es : List Event) : List Float :=
  (calls es).filterMap HostCall.fraction?

/-- A host's record of the events. -/
def records (es : List Event) : List String :=
  (calls es).filterMap HostCall.record?

end Event

end GlobeTexture
