import Juggle.St.Config

/-! Static tasks (`st/mod.rs`, `st/stt_future.rs`). -/
namespace Juggle.St

abbrev TaskKey := Nat

inductive StopReason where
  | none
  | suspended
  | cancelled
  | finished
  | restart
  | restartSuspended
  deriving DecidableEq

structure StaticParams where
  suspended : Bool
  name : Option String

/-- `hasFlags` tells whether the cell of the flags was set; `runnable` is the atomic in
it. `ended` is not in the source: `beat_once` has dropped the future of the task, as
finished or as cancelled, and no restart was asked for since. -/
structure StaticFuture where
  startSuspended : Bool
  name : Option String
  hasFlags : Bool
  runnable : Bool
  stopReason : StopReason
  polling : Bool
  flag : InitFlag
  ended : Bool

namespace StaticFuture

def new (params : StaticParams) : StaticFuture where
  startSuspended := params.suspended
  name := params.name
  hasFlags := false
  runnable := true
  stopReason := .none
  polling := false
  flag := .uninit
  ended := false

def setStopReason (val : StopReason) (task : StaticFuture) : StaticFuture :=
  { task with stopReason := val }

def setRunnable (value : Bool) (task : StaticFuture) : StaticFuture :=
  { task with runnable := value }

def setPolling (value : Bool) (task : StaticFuture) : StaticFuture :=
  { task with polling := value }

def setFlag (flag : InitFlag) (task : StaticFuture) : StaticFuture :=
  { task with flag := flag }

def setEnded (value : Bool) (task : StaticFuture) : StaticFuture :=
  { task with ended := value }

def init (task : StaticFuture) : StaticFuture :=
  { task with hasFlags := true, runnable := true }

def resetReason (defaults : Bool) (task : StaticFuture) : StopReason :=
  if task.startSuspended && defaults then .suspended else .none

/-- The answer of the source, `start_suspended`, is read off the task itself. -/
def reset (defaults : Bool) (task : StaticFuture) : StaticFuture :=
  { task with
    stopReason := task.resetReason defaults
    runnable := true
    ended := if defaults then false else task.ended }

end StaticFuture
end Juggle.St
