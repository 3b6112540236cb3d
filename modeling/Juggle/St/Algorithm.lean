import Juggle.St.Task
import Juggle.Utils.Usize

/-! The handle operations of `st/algorithm.rs`. Counters wrap around as in a release
build; two marks that are not in the source remember that one of them did. -/
namespace Juggle.St
open Juggle.Utils

abbrev Waker := Nat

structure StaticAlgorithm where
  registry : List StaticFuture
  lastWaker : Option Waker
  current : Option TaskKey
  suspendedCount : Nat
  unfinishedCount : Nat
  currentGeneration : Nat
  suspendedWrapped : Bool
  unfinishedWrapped : Bool

inductive State where
  | runnable
  | suspended
  | waiting
  | cancelled
  | inactive
  deriving DecidableEq

namespace StaticAlgorithm

def fromRawConfig (config : List StaticParams) : StaticAlgorithm where
  registry := config.map StaticFuture.new
  lastWaker := none
  current := none
  suspendedCount := 0
  unfinishedCount := usizeMax
  currentGeneration := 0
  suspendedWrapped := false
  unfinishedWrapped := false

def incSuspended (alg : StaticAlgorithm) : StaticAlgorithm :=
  { alg with
    suspendedCount := wrappingInc alg.suspendedCount
    suspendedWrapped := alg.suspendedWrapped || alg.suspendedCount == usizeMax }

def decSuspended (alg : StaticAlgorithm) : StaticAlgorithm :=
  { alg with
    suspendedCount := wrappingDec alg.suspendedCount
    suspendedWrapped := alg.suspendedWrapped || alg.suspendedCount == 0 }

def incUnfinished (alg : StaticAlgorithm) : StaticAlgorithm :=
  { alg with
    unfinishedCount := wrappingInc alg.unfinishedCount
    unfinishedWrapped := alg.unfinishedWrapped || alg.unfinishedCount == usizeMax }

def decUnfinished (alg : StaticAlgorithm) : StaticAlgorithm :=
  { alg with
    unfinishedCount := wrappingDec alg.unfinishedCount
    unfinishedWrapped := alg.unfinishedWrapped || alg.unfinishedCount == 0 }

def get (alg : StaticAlgorithm) (key : TaskKey) : Option StaticFuture := alg.registry[key]?

/-- Writing to the cells and flags of a task. -/
def update (alg : StaticAlgorithm) (key : TaskKey) (f : StaticFuture → StaticFuture) :
    StaticAlgorithm :=
  { alg with registry := alg.registry.modify key f }

def setStopReason (alg : StaticAlgorithm) (key : TaskKey) (val : StopReason) : StaticAlgorithm :=
  alg.update key (StaticFuture.setStopReason val)

def getRegisteredCount (alg : StaticAlgorithm) : Nat := alg.registry.length

def getName (alg : StaticAlgorithm) (key : TaskKey) : Option String :=
  (alg.get key).bind StaticFuture.name

def getByName (alg : StaticAlgorithm) (name : String) : Option TaskKey :=
  alg.registry.findIdx? (fun t => decide (t.name = some name))

def resume (alg : StaticAlgorithm) (key : TaskKey) : Bool × StaticAlgorithm :=
  match alg.get key with
  | some task =>
    if task.stopReason = .suspended then (true, (alg.setStopReason key .none).decSuspended)
    else (false, alg)
  | none => (false, alg)

def suspend (alg : StaticAlgorithm) (key : TaskKey) : Bool × StaticAlgorithm :=
  match alg.get key with
  | some task =>
    match task.stopReason with
    | .none => (true, (alg.setStopReason key .suspended).incSuspended)
    | .restart => (true, (alg.setStopReason key .restartSuspended).incSuspended)
    | _ => (false, alg)
  | none => (false, alg)

/-- The counter that a restart of a task with this stop reason adjusts. -/
def restartCounts (alg : StaticAlgorithm) : StopReason → StaticAlgorithm
  | .suspended => alg.decSuspended
  | .restartSuspended => alg.decSuspended
  | .cancelled => alg.incUnfinished
  | .finished => alg.incUnfinished
  | _ => alg

def restart (alg : StaticAlgorithm) (key : TaskKey) : Bool × StaticAlgorithm :=
  match alg.get key with
  | some task =>
    if task.stopReason = .restart then (true, alg)
    else (true, (alg.restartCounts task.stopReason).update key
      (fun t => (t.setStopReason .restart).setEnded false))
  | none => (false, alg)

def cancel (alg : StaticAlgorithm) (key : TaskKey) : Bool × StaticAlgorithm :=
  match alg.get key with
  | some task =>
    if task.stopReason ≠ .cancelled then
      let after := alg.setStopReason key .cancelled
      (true, if task.stopReason = .suspended then after.decSuspended else after)
    else (false, alg)
  | none => (false, alg)

def getState (alg : StaticAlgorithm) (key : TaskKey) : State :=
  match alg.get key with
  | some task =>
    match task.stopReason with
    | .finished => .inactive
    | .cancelled => .cancelled
    | .suspended => .suspended
    | .restartSuspended => .suspended
    | .restart => .runnable
    | .none => if task.runnable then .runnable else .waiting
  | none => .inactive

end StaticAlgorithm
end Juggle.St
