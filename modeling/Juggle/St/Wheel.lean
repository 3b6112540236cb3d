import Juggle.St.Algorithm
import Juggle.Lib.Run

/-! The static wheel in motion: `st/algorithm.rs`, `poll_protected` and its callers in
`st/stt_future.rs`, the lock of `st/wheel.rs`. A step does at most one atomic access; what
user code and other threads do arrives as events. -/
namespace Juggle.St
open Juggle.Utils

-- `second` tells the call of `beat_once` made after the waker was registered.
structure Beat where
  second : Bool
  anyPoll : Bool
  deriving DecidableEq

inductive Verdict where
  | pending
  | ready (finished : Bool)
  deriving DecidableEq

/-- Who called `poll_protected`. `cleanup` is that of a `dispose`, which may run because of a
panic; `init` comes with the number of suspended tasks so far. -/
inductive Caller where
  | cancelled (b : Beat)
  | restart (b : Beat)
  | restartSuspended (b : Beat)
  | pollLocal (b : Beat) (restart : Bool)
  | cleanup (unwinding : Bool)
  | init (suspended : Nat)
  deriving DecidableEq

namespace Caller

def status : Caller → Status
  | .cancelled _ => .cancelTask
  | .restart _ => .uninitTask
  | .restartSuspended _ => .uninitTask
  | .pollLocal _ false => .poll
  | .pollLocal _ true => .restartTask
  | .cleanup _ => .uninitTask
  | .init _ => .uninitTask

end Caller

/-- Where the thread that owns the wheel stands. `clear` and `finish` are before the calls of
`last_waker.clear()`, `check` is after the `Restart` arm, `back` after `poll_protected`. In
`sweep`, `dispose` and `init` it is at the head of a loop. -/
inductive Pc where
  | unlocked
  | idle
  | clear
  | sweep (b : Beat) (key : TaskKey)
  | check (b : Beat) (key : TaskKey)
  | chosen (b : Beat) (key : TaskKey) (restart : Bool)
  | inTask (c : Caller) (key : TaskKey) (stage : Stage)
  | back (c : Caller) (key : TaskKey) (isReady : Bool)
  | register
  | finish (finished : Bool)
  | returned (r : Verdict)
  | dispose (unwinding : Bool) (key : TaskKey)
  | init (suspended : Nat) (key : TaskKey)
  deriving DecidableEq

inductive WakePc where
  | notify
  | invoke (w : Waker)
  | store
  deriving DecidableEq

structure WakeCall where
  target : TaskKey
  pc : WakePc

/-- `wakes` are the calls of `wake` on other threads, `woken` the wakers invoked in this call
of `poll_internal`; `session` counts the sessions that have ended. -/
structure Wheel where
  alg : StaticAlgorithm
  pc : Pc
  waker : Waker
  wakes : List WakeCall
  woken : List Waker
  nextFuture : FutureId
  session : Nat

inductive Call where
  | suspend (key : TaskKey)
  | resume (key : TaskKey)
  | restart (key : TaskKey)
  | cancel (key : TaskKey)
  | current
  | getName (key : TaskKey)
  | getByName (name : String)
  | registeredCount
  deriving DecidableEq

inductive Event where
  -- through a handle obtained in the given session
  | call (session : Nat) (c : Call)
  -- by the owning thread's own user code
  | wake (target : TaskKey)
  | wakeBegin (target : TaskKey)
  | wakeStep (i : Nat)
  | poll (w : Waker)
  -- the next step of the wheel's own code
  | run
  | dropped
  | created
  | done (isReady : Bool)
  | panic
  -- `try_lock` on the released lock
  | lock
  | drop

namespace Wheel

def new (config : List StaticParams) : Wheel where
  alg := StaticAlgorithm.fromRawConfig config
  pc := .unlocked
  waker := 0
  wakes := []
  woken := []
  nextFuture := 0
  session := 0

def get (s : Wheel) (key : TaskKey) : Option StaticFuture := s.alg.get key

def withAlg (s : Wheel) (f : StaticAlgorithm → StaticAlgorithm) : Wheel := { s with alg := f s.alg }

def update (s : Wheel) (key : TaskKey) (f : StaticFuture → StaticFuture) : Wheel :=
  s.withAlg (fun alg => alg.update key f)

def setLastWaker (s : Wheel) (w : Option Waker) : Wheel :=
  s.withAlg (fun alg => { alg with lastWaker := w })

def setCurrent (s : Wheel) (key : Option TaskKey) : Wheel :=
  s.withAlg (fun alg => { alg with current := key })

def goto (s : Wheel) (pc : Pc) : Wheel := { s with pc := pc }

def notifyWake (s : Wheel) : Wheel :=
  match s.alg.lastWaker with
  | some w => { s.setLastWaker none with woken := w :: s.woken }
  | none => s

def storeRunnable (s : Wheel) (target : TaskKey) : Wheel :=
  s.update target (StaticFuture.setRunnable true)

def wakeStep (s : Wheel) (i : Nat) : Option Wheel :=
  match s.wakes[i]? with
  | none => none
  | some ⟨target, .notify⟩ =>
    let next := match s.alg.lastWaker with
      | some w => .invoke w
      | none => .store
    some { s.setLastWaker none with wakes := s.wakes.set i ⟨target, next⟩ }
  | some ⟨target, .invoke w⟩ =>
    some { s with woken := w :: s.woken, wakes := s.wakes.set i ⟨target, .store⟩ }
  | some ⟨target, .store⟩ =>
    some { s.storeRunnable target with wakes := s.wakes.eraseIdx i }

def isValid (s : Wheel) (session : Nat) : Bool :=
  decide (session % (usizeMax + 1) = s.alg.currentGeneration)

def perform (s : Wheel) : Call → Wheel
  | .suspend key => { s with alg := (s.alg.suspend key).2 }
  | .resume key => { s with alg := (s.alg.resume key).2 }
  | .restart key => { s with alg := (s.alg.restart key).2 }
  | .cancel key => { s with alg := (s.alg.cancel key).2 }
  | .current => s
  | .getName _ => s
  | .getByName _ => s
  | .registeredCount => s

def live (s : Wheel) : Bool :=
  match s.pc with
  | .unlocked => false
  | .init _ _ => false
  | .inTask (.init _) _ _ => false
  | .back (.init _) _ _ => false
  | _ => true

/-- Where user code of the owning thread runs. -/
def userCode (s : Wheel) : Bool :=
  match s.pc with
  | .unlocked => true
  | .idle => true
  | .returned _ => true
  | .inTask _ _ stage => stage.userCode
  | _ => false

/-- After user code has acted, the wheel has no fresh answer any more. -/
def settle (s : Wheel) : Wheel :=
  match s.pc with
  | .returned _ => s.goto .idle
  | _ => s

def call (s : Wheel) (session : Nat) (c : Call) : Option Wheel :=
  if s.userCode && (decide (session < s.session) || (s.live && decide (session = s.session))) then
    some (if s.isValid session then (s.perform c).settle else s.settle)
  else none

def wake (s : Wheel) (target : TaskKey) : Option Wheel :=
  if s.userCode then some (s.notifyWake.storeRunnable target).settle else none

/-- `poll_protected` returns; `poll_local`'s caller drops its guard on `current`. -/
def leave (s : Wheel) (c : Caller) (key : TaskKey) (isReady : Bool) : Wheel :=
  let s := s.update key (StaticFuture.setPolling false)
  match c with
  | .pollLocal _ _ => (s.setCurrent none).goto (.back c key isReady)
  | _ => s.goto (.back c key isReady)

def atStage (s : Wheel) (c : Caller) (key : TaskKey) : Stage → Wheel
  | .leave isReady => s.leave c key isReady
  | stage => s.goto (.inTask c key stage)

def pollProtected (s : Wheel) (c : Caller) (key : TaskKey) : Wheel :=
  match s.get key with
  | none => s.goto .idle
  | some task =>
    -- "Recursive call to task control function is not allowed."
    if task.polling then (s.setCurrent none).goto .idle
    else
      let (flag, stage) := handleTask task.flag c.status
      (s.update key (fun t => (t.setPolling true).setFlag flag)).atStage c key stage

def dropped (s : Wheel) : Option Wheel :=
  match s.pc with
  | .inTask c key (.dropOld _) => some (s.atStage c key (afterDrop c.status))
  | .inTask c key (.dropDone _) => some (s.leave c key true)
  | _ => none

def created (s : Wheel) : Option Wheel :=
  match s.pc with
  | .inTask c key .init =>
    let (flag, stage) := afterInit s.nextFuture
    some (({ s with nextFuture := s.nextFuture + 1 }.update key
      (StaticFuture.setFlag flag)).atStage c key stage)
  | _ => none

def done (s : Wheel) (isReady : Bool) : Option Wheel :=
  match s.pc with
  | .inTask c key (.poll v) =>
    let (flag, stage) := afterPoll v isReady
    some ((s.update key (StaticFuture.setFlag flag)).atStage c key stage)
  | _ => none

-- The call needs `&mut` access to the wheel, so no other one is running.
def poll (s : Wheel) (w : Waker) : Option Wheel :=
  match s.pc with
  | .idle => some { s with waker := w, woken := [], pc := .clear }
  | .returned _ => some { s with waker := w, woken := [], pc := .clear }
  | _ => none

def beginBeat (s : Wheel) (second : Bool) : Wheel := s.goto (.sweep ⟨second, false⟩ 0)

def visit (s : Wheel) (b : Beat) (key : TaskKey) (task : StaticFuture) : Wheel :=
  match task.stopReason with
  | .none => if task.runnable then s.goto (.chosen b key false) else s.goto (.sweep b (key + 1))
  | .cancelled => (s.update key (StaticFuture.setEnded true)).pollProtected (.cancelled b) key
  | .restart => (s.update key (StaticFuture.setStopReason .none)).pollProtected (.restart b) key
  | .restartSuspended =>
    (s.update key (StaticFuture.setStopReason .suspended)).pollProtected (.restartSuspended b) key
  | .finished => s.goto (.sweep b (key + 1))
  | .suspended => s.goto (.sweep b (key + 1))

def pollLocal (s : Wheel) (b : Beat) (key : TaskKey) (restart : Bool) : Wheel :=
  ((s.setCurrent (some key)).update key (StaticFuture.setRunnable false)).pollProtected
    (.pollLocal { b with anyPoll := true } restart) key

/-- What `poll_internal` does with the result of `beat_once`. -/
def endBeat (s : Wheel) (b : Beat) : Wheel :=
  match b.second, b.anyPoll with
  | false, true => s.beginBeat false
  | false, false => s.goto .register
  | true, true => s.goto .clear
  | true, false =>
    let cnt := s.alg.unfinishedCount
    if cnt = 0 ∨ cnt = s.alg.suspendedCount then s.goto (.finish (decide (cnt = 0)))
    else s.goto (.returned .pending)

-- The guard of `dispose` and the lock guard around it.
def release (s : Wheel) : Wheel :=
  { s with
    alg := { s.alg with currentGeneration := wrappingInc s.alg.currentGeneration }
    session := s.session + 1
    pc := .unlocked }

def dispose (s : Wheel) (unwinding : Bool) : Wheel :=
  if s.alg.unfinishedCount = 0 then s.release else s.goto (.dispose unwinding 0)

-- The loop of a first `init`, and whether it panicked on flags that were set before.
def firstInit : List StaticFuture → List StaticFuture × Bool
  | [] => ([], false)
  | task :: tasks =>
    if task.hasFlags then (task :: tasks, true)
    else
      let (rest, panicked) := firstInit tasks
      (task.init.reset true :: rest, panicked)

/-- The counters that `init` sets at its end; the marks only remember this session. -/
def started (s : Wheel) (suspended : Nat) : Wheel :=
  { s with
    alg := { s.alg with
      suspendedCount := suspended
      unfinishedCount := s.alg.registry.length
      suspendedWrapped := false
      unfinishedWrapped := false }
    pc := .idle }

def lock (s : Wheel) : Option Wheel :=
  match s.pc with
  | .unlocked =>
    if s.alg.unfinishedCount = usizeMax then
      let (registry, panicked) := firstInit s.alg.registry
      let s := s.withAlg (fun alg => { alg with registry := registry })
      -- the panic unwinds through the wheel object, which is dropped
      some (if panicked then s.dispose true
        else s.started (s.alg.registry.countP StaticFuture.startSuspended))
    else some (s.goto (.init 0 0))
  | _ => none

def drop (s : Wheel) : Option Wheel :=
  match s.pc with
  | .idle => some (s.dispose false)
  | .returned _ => some (s.dispose false)
  | _ => none

/-- What the caller of `poll_protected` does next. -/
def resume (s : Wheel) (c : Caller) (key : TaskKey) (isReady : Bool) : Wheel :=
  match c with
  | .cancelled b => (s.withAlg StaticAlgorithm.decUnfinished).goto (.sweep b (key + 1))
  | .restart b => (s.update key (StaticFuture.reset false)).goto (.check b key)
  | .restartSuspended b => (s.update key (StaticFuture.reset false)).goto (.sweep b (key + 1))
  | .pollLocal b _ =>
    if isReady then
      ((s.update key (fun t => (t.setStopReason .finished).setEnded true)).withAlg
        StaticAlgorithm.decUnfinished).goto (.sweep b (key + 1))
    else s.goto (.sweep b (key + 1))
  | .cleanup unwinding =>
    (s.update key (StaticFuture.setStopReason .cancelled)).goto (.dispose unwinding (key + 1))
  | .init suspended =>
    let more := (s.get key).any StaticFuture.startSuspended
    (s.update key (StaticFuture.reset true)).goto
      (.init (if more then suspended + 1 else suspended) (key + 1))

def run (s : Wheel) : Option Wheel :=
  match s.pc with
  | .clear => some ((s.setLastWaker none).beginBeat false)
  | .sweep b key =>
    match s.get key with
    | some task => some (s.visit b key task)
    | none => some (s.endBeat b)
  | .check b key =>
    match s.get key with
    | some task =>
      some (if task.runnable then s.goto (.chosen b key true) else s.goto (.sweep b (key + 1)))
    | none => none
  | .chosen b key restart => some (s.pollLocal b key restart)
  | .back c key isReady => some (s.resume c key isReady)
  | .register => some ((s.setLastWaker (some s.waker)).beginBeat true)
  | .finish finished => some ((s.setLastWaker none).goto (.returned (.ready finished)))
  | .dispose unwinding key =>
    some (if key < s.alg.registry.length then s.pollProtected (.cleanup unwinding) key else s.release)
  | .init suspended key =>
    some (if key < s.alg.registry.length then s.pollProtected (.init suspended) key
      else s.started suspended)
  | _ => none

def panic (s : Wheel) : Option Wheel :=
  match s.pc with
  | .inTask c key stage =>
    if stage.userCode then
      let s := s.update key (StaticFuture.setPolling false)
      match c with
      | .pollLocal _ _ => some ((s.setCurrent none).goto .idle)
      -- the emergency loop goes on; a second panic in it aborts the program
      | .cleanup false =>
        some ((s.update key (StaticFuture.setStopReason .cancelled)).goto (.dispose true (key + 1)))
      | .cleanup true => none
      -- the wheel object made by `try_lock` is dropped
      | .init _ => some (s.dispose true)
      | _ => some (s.goto .idle)
    else none
  | _ => none

def step (s : Wheel) : Event → Option Wheel
  | .call session c => s.call session c
  | .wake target => s.wake target
  | .wakeBegin target => some { s with wakes := s.wakes ++ [⟨target, .notify⟩] }
  | .wakeStep i => s.wakeStep i
  | .poll w => s.poll w
  | .run => s.run
  | .dropped => s.dropped
  | .created => s.created
  | .done isReady => s.done isReady
  | .panic => s.panic
  | .lock => s.lock
  | .drop => s.drop

end Wheel
end Juggle.St
