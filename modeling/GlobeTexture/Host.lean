/-! # Hosts

A host is the program that an operation works for. It keeps a transaction open around each operation and
hears how far the work has come and what went wrong. The calls it receives are values here, in the order in
which they are made. -/

namespace GlobeTexture

/-- What a host is told while a transaction is open. -/
inductive Remark where
  /-- The fraction of the work that is done. -/
  | progress (fraction : Float)
  | error (message : String)

/-- A call to a host. -/
inductive HostCall where
  | opened
  | remarked (remark : Remark)
  | committed
  | rolledBack

namespace HostCall

/-- The fraction that a call reports. -/
def fraction? : HostCall → Option Float
  | remarked (.progress f) => some f
  | _ => none

/-- The entry of a call in a host's record of events; progress is not an event. -/
def record? : HostCall → Option String
  | opened => some "begin"
  | remarked (.progress _) => none
  | remarked (.error m) => some s!"error: {m}"
  | committed => some "commit"
  | rolledBack => some "rollback"

end HostCall

/-- How a transaction ends: by a commit, or because it is given up. -/
inductive Ending where
  | commit
  | drop
deriving DecidableEq, Repr

/-- The call that closes a transaction. -/
def Ending.call : Ending → HostCall
  | commit => .committed
  | drop => .rolledBack

/-- The calls of a transaction in which only remarks are made. -/
def transaction (remarks : List Remark) (ending : Ending) : List HostCall :=
  .opened :: remarks.map .remarked ++ [ending.call]

end GlobeTexture
