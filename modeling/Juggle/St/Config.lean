import Mathlib.Logic.Basic

/-! Storage of one static task (`st/config.rs`). `handle_task` runs user code at up to three
places and is cut there: a stage says which user code runs, or that it returns. -/
namespace Juggle.St

-- A value of the task's future type.
abbrev FutureId := Nat

inductive InitFlag where
  | uninit
  | created (value : FutureId)
  | dropped
  deriving DecidableEq

inductive Status where
  | poll
  | restartTask
  | cancelTask
  | uninitTask
  deriving DecidableEq

inductive Stage where
  | dropOld (value : FutureId)
  | init
  | poll (value : FutureId)
  | dropDone (value : FutureId)
  | leave (isReady : Bool)
  deriving DecidableEq

namespace Stage

def userCode : Stage → Bool
  | .leave _ => false
  | _ => true

end Stage

def InitFlag.value : InitFlag → Option FutureId
  | .created v => some v
  | _ => none

/-- The flag is moved away from `created` before the destructor runs, in case it unwinds. -/
def handleTask (flag : InitFlag) : Status → InitFlag × Stage
  | .poll =>
    match flag with
    | .uninit => (.uninit, .init)
    | .dropped => (.dropped, .leave true)
    | .created v => (.created v, .poll v)
  | .restartTask =>
    match flag with
    | .created v => (.uninit, .dropOld v)
    | other => (other, .init)
  | .cancelTask =>
    match flag with
    | .created v => (.dropped, .dropOld v)
    | .uninit => (.dropped, .leave true)
    | .dropped => (.dropped, .leave true)
  | .uninitTask =>
    match flag with
    | .created v => (.uninit, .dropOld v)
    | .dropped => (.uninit, .leave true)
    | .uninit => (.uninit, .leave true)

def afterDrop : Status → Stage
  | .restartTask => .init
  | _ => .leave true

def afterInit (v : FutureId) : InitFlag × Stage := (.created v, .poll v)

def afterPoll (v : FutureId) (isReady : Bool) : InitFlag × Stage :=
  if isReady then (.dropped, .dropDone v) else (.created v, .leave false)

/-- A call that is to drop the task leaves no value behind, whatever it found. -/
theorem handleTask_no_value (flag : InitFlag) {status : Status} (drops : status ≠ .poll) :
    (handleTask flag status).1.value = none := by
  cases status with
  | poll => exact absurd rfl drops
  | restartTask => cases flag <;> rfl
  | cancelTask => cases flag <;> rfl
  | uninitTask => cases flag <;> rfl

end Juggle.St
