import GlobeTexture.Event

/-! # The log

A log line has a level, a text and further fields. Notes of a computation become log lines, and so do the
calls to a host that logs them under a label. Reads leave no line. -/

namespace GlobeTexture

/-- How important a log line is. -/
inductive Level where
  | trace
  | debug
  | info
  | warn
  | error
deriving DecidableEq, Repr

/-- The level as it is written. -/
def Level.text : Level → String
  | trace => "TRACE"
  | debug => "DEBUG"
  | info => "INFO"
  | warn => "WARN"
  | error => "ERROR"

/-- The value of a field of a log line. -/
inductive FieldValue where
  | count (n : Nat)
  | fraction (x : Float)
  | text (s : String)

/-- A line of the log. -/
structure LogLine where
  level : Level
  message : String
  fields : List (String × FieldValue)

/-- The fields of a size. -/
def Canvas.fields (k : Canvas) : List (String × FieldValue) :=
  [("width", .count k.width), ("height", .count k.height)]

/-- The line of a note. -/
def Note.line : Note → LogLine
  | running op k => ⟨.info, "running", ("operation", .text op.name) :: k.fields⟩
  | applying op layer => ⟨.info, "applying", [("operation", .text op.name), ("layer", .text layer)]⟩
  | resampling k tiles => ⟨.debug, "warping raster", k.fields ++ [("tiles", .count tiles)]⟩
  | filled k tiles skipped =>
    ⟨.debug, "filled hammer tiling", k.fields ++ [("tiles", .count tiles), ("skipped", .count skipped)]⟩
  | abandoned op f => ⟨.warn, "operation abandoned", [("operation", .text op.name), ("error", .text f.message)]⟩

/-- The line of a call to a host with a label. -/
def HostCall.line (label : String) : HostCall → LogLine
  | opened => ⟨.debug, "begin transaction", [("label", .text label)]⟩
  | remarked (.progress f) => ⟨.trace, "progress", [("label", .text label), ("fraction", .fraction f)]⟩
  | remarked (.error m) => ⟨.error, m, [("label", .text label)]⟩
  | committed => ⟨.debug, "commit", [("label", .text label)]⟩
  | rolledBack => ⟨.warn, "rollback", [("label", .text label)]⟩

namespace Event

/-- The line of an event, if it leaves one. -/
def line? (label : String) : Event → Option LogLine
  | read _ => none
  | call c => some (c.line label)
  | note n => some n.line

/-- The log of some events, with calls going to a host with a label. -/
def log (label : String) (es : List Event) : List LogLine :=
  es.filterMap (line? label)

end Event

end GlobeTexture
