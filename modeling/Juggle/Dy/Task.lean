import Juggle.Utils.ChunkSlab

/-! Tasks of the dynamic wheel and the registry that holds them (`dy/stat.rs`,
`dy/dyn_future.rs`, `dy/registry.rs`). The boxed future is user code; it appears as
an identity that no other task ever gets. -/
namespace Juggle.Dy
open Juggle.Utils

abbrev TaskKey := Nat
abbrev Tid := Nat

inductive StopReason where
  | none
  | suspended
  | cancelled
  deriving DecidableEq

def StopReason.isPollAllowed (r : StopReason) : Bool := decide (r = .none)

inductive TaskName where
  | static (s : String)
  | dynamic (s : String)
  | none
  deriving DecidableEq

def TaskName.asStr : TaskName → Option String
  | .static s => some s
  | .dynamic s => some s
  | .none => Option.none

structure SpawnParams where
  suspended : Bool
  name : TaskName

/-- `runnable` is the atomic flag behind the task's wakers. -/
structure DynamicFuture where
  tid : Tid
  runnable : Bool
  name : TaskName
  stopReason : StopReason
  polling : Bool

namespace DynamicFuture

def new (tid : Tid) (params : SpawnParams) : DynamicFuture where
  tid := tid
  runnable := true
  name := params.name
  stopReason := if params.suspended then .suspended else .none
  polling := false

def setStopReason (val : StopReason) (task : DynamicFuture) : DynamicFuture :=
  { task with stopReason := val }

def setRunnable (value : Bool) (task : DynamicFuture) : DynamicFuture :=
  { task with runnable := value }

def setPolling (value : Bool) (task : DynamicFuture) : DynamicFuture :=
  { task with polling := value }

end DynamicFuture

/-- `borrows` lists the tasks behind the living `BorrowRef`s. A debug build keeps
their number in `borrow_flag`; a release build keeps nothing. `iterateFlag` is
only raised by `iter` and `retain`, which the wheel's scheduler does not call. -/
structure Registry where
  slab : ChunkSlab TaskKey DynamicFuture
  borrows : List Tid
  iterateFlag : Nat

namespace Registry

def new : Registry := ⟨ChunkSlab.new, [], 0⟩

def borrowFlag (r : Registry) : Nat := r.borrows.length

/-- Lookup through a reference that is dropped before any user code runs. -/
def get (r : Registry) (key : TaskKey) : Option DynamicFuture := r.slab.get key

/-- A reference from `get` that stays alive. -/
def borrow (r : Registry) (tid : Tid) : Registry := { r with borrows := tid :: r.borrows }

def release (r : Registry) (tid : Tid) : Registry := { r with borrows := r.borrows.erase tid }

def insert (r : Registry) (val : DynamicFuture) : Option TaskKey × Registry :=
  match r.slab.insert val with
  | (.ok key, slab) => (some key, { r with slab := slab })
  -- the panics of the slab, none of which a well formed one reaches
  | (.error _, slab) => (none, { r with slab := slab })

/-- The release build: the borrow flags are not looked at. -/
def remove (r : Registry) (key : TaskKey) : Option DynamicFuture × Registry :=
  let (val, slab) := r.slab.remove key
  (val, { r with slab := slab })

def count (r : Registry) : Nat := r.slab.len

def capacity (r : Registry) : Nat := r.slab.capacity

def update (r : Registry) (key : TaskKey) (f : DynamicFuture → DynamicFuture) : Registry :=
  { r with slab := r.slab.update key f }

end Registry
end Juggle.Dy
