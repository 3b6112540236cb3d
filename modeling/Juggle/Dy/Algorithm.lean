import Juggle.Dy.Task

/-! The handle operations of `dy/unordered_algorithm.rs`. Each one is a function from
the scheduler to its answer and the scheduler it leaves behind. -/
namespace Juggle.Dy

abbrev Waker := Nat

structure UnorderedAlgorithm where
  registry : Registry
  lastWaker : Option Waker
  current : Option TaskKey
  suspendedCount : Nat

inductive State where
  | runnable
  | suspended
  | waiting
  | cancelled
  | inactive
  deriving DecidableEq

namespace UnorderedAlgorithm

def new : UnorderedAlgorithm := ⟨Registry.new, none, none, 0⟩

def incSuspended (alg : UnorderedAlgorithm) : UnorderedAlgorithm :=
  { alg with suspendedCount := alg.suspendedCount + 1 }

/-- A subtraction on `usize`; it is never applied at zero. -/
def decSuspended (alg : UnorderedAlgorithm) : UnorderedAlgorithm :=
  { alg with suspendedCount := alg.suspendedCount - 1 }

def setStopReason (alg : UnorderedAlgorithm) (key : TaskKey) (val : StopReason) :
    UnorderedAlgorithm :=
  { alg with registry := alg.registry.update key (DynamicFuture.setStopReason val) }

def register (alg : UnorderedAlgorithm) (dynamic : DynamicFuture) :
    Option TaskKey × UnorderedAlgorithm :=
  let suspended := decide (dynamic.stopReason = .suspended)
  let (key, registry) := alg.registry.insert dynamic
  let alg := { alg with registry := registry }
  (key, if suspended && key.isSome then alg.incSuspended else alg)

def resume (alg : UnorderedAlgorithm) (key : TaskKey) : Bool × UnorderedAlgorithm :=
  match alg.registry.get key with
  | some task =>
    if task.stopReason = .suspended then (true, (alg.setStopReason key .none).decSuspended)
    else (false, alg)
  | none => (false, alg)

def suspend (alg : UnorderedAlgorithm) (key : TaskKey) : Bool × UnorderedAlgorithm :=
  match alg.registry.get key with
  | some task =>
    if task.stopReason = .none then (true, (alg.setStopReason key .suspended).incSuspended)
    else (false, alg)
  | none => (false, alg)

def cancel (alg : UnorderedAlgorithm) (key : TaskKey) : Bool × UnorderedAlgorithm :=
  match alg.registry.get key with
  | some task =>
    if task.stopReason ≠ .cancelled then
      let after := alg.setStopReason key .cancelled
      (true, if task.stopReason = .suspended then after.decSuspended else after)
    else (false, alg)
  | none => (false, alg)

def getState (alg : UnorderedAlgorithm) (key : TaskKey) : State :=
  match alg.registry.get key with
  | some task =>
    match task.stopReason with
    | .cancelled => .cancelled
    | .suspended => .suspended
    | .none => if task.runnable then .runnable else .waiting
  | none => .inactive

def getByName (alg : UnorderedAlgorithm) (name : String) : Option TaskKey :=
  (List.range alg.registry.capacity).find? fun k =>
    match alg.registry.get k with
    | some task => decide (task.name.asStr = some name)
    | none => false

def registeredCount (alg : UnorderedAlgorithm) : Nat := alg.registry.count

end UnorderedAlgorithm
end Juggle.Dy
