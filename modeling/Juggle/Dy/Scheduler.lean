import Juggle.Dy.Wheel

/-! The scheduler with queues of `dy/algorithm.rs`, the alternative to
`UnorderedAlgorithm`: the handle operations, `poll_internal` and what it calls. As for
the wheel a step does at most one atomic access, and what user code and other threads
do arrives as events. Destructors of futures neither call handles nor unwind here: a
future is dropped in the step that removes its task. -/
namespace Juggle.Dy

/-- The release build: the borrow flags are not looked at. -/
def Registry.retain (r : Registry) (func : TaskKey → DynamicFuture → Bool) : Registry :=
  { r with slab := r.slab.retain func }

/-- The fields of `SchedulerAlgorithm` and of its `Control`. -/
structure SchedulerAlgorithm where
  runnable : List TaskKey × List TaskKey
  whichBuffer : Bool
  registry : Registry
  lastWaker : Option Waker
  current : Option TaskKey
  suspendedCount : Nat
  deferred : List TaskKey
  scanRegistry : Bool

namespace SchedulerAlgorithm

def new : SchedulerAlgorithm where
  runnable := ([], [])
  whichBuffer := false
  registry := Registry.new
  lastWaker := none
  current := none
  suspendedCount := 0
  deferred := []
  scanRegistry := false

def get (alg : SchedulerAlgorithm) (key : TaskKey) : Option DynamicFuture := alg.registry.get key

def update (alg : SchedulerAlgorithm) (key : TaskKey) (f : DynamicFuture → DynamicFuture) :
    SchedulerAlgorithm :=
  { alg with registry := alg.registry.update key f }

def setStopReason (alg : SchedulerAlgorithm) (key : TaskKey) (val : StopReason) :
    SchedulerAlgorithm :=
  alg.update key (DynamicFuture.setStopReason val)

def isCancelled (alg : SchedulerAlgorithm) (key : TaskKey) : Bool :=
  match alg.get key with
  | some task => decide (task.stopReason = .cancelled)
  | none => false

def incSuspended (alg : SchedulerAlgorithm) : SchedulerAlgorithm :=
  { alg with suspendedCount := alg.suspendedCount + 1 }

/-- A subtraction on `usize`; it is never applied at zero. -/
def decSuspended (alg : SchedulerAlgorithm) : SchedulerAlgorithm :=
  { alg with suspendedCount := alg.suspendedCount - 1 }

/-! The arguments `from` and `to` of `beat_once`, as `poll_internal` chooses them. -/

def fromQueue (alg : SchedulerAlgorithm) : List TaskKey :=
  if alg.whichBuffer then alg.runnable.2 else alg.runnable.1

def toQueue (alg : SchedulerAlgorithm) : List TaskKey :=
  if alg.whichBuffer then alg.runnable.1 else alg.runnable.2

def setFrom (alg : SchedulerAlgorithm) (queue : List TaskKey) : SchedulerAlgorithm :=
  { alg with runnable :=
      if alg.whichBuffer then (alg.runnable.1, queue) else (queue, alg.runnable.2) }

def setTo (alg : SchedulerAlgorithm) (queue : List TaskKey) : SchedulerAlgorithm :=
  { alg with runnable :=
      if alg.whichBuffer then (queue, alg.runnable.2) else (alg.runnable.1, queue) }

def setDeferred (alg : SchedulerAlgorithm) (keys : List TaskKey) : SchedulerAlgorithm :=
  { alg with deferred := keys }

def setCurrent (alg : SchedulerAlgorithm) (key : Option TaskKey) : SchedulerAlgorithm :=
  { alg with current := key }

/-! Handle operations. -/

def enqueueRunnable (alg : SchedulerAlgorithm) (key : TaskKey) (checkAbsent : Bool) :
    SchedulerAlgorithm :=
  if alg.whichBuffer then
    if checkAbsent && alg.runnable.1.contains key then alg
    else { alg with runnable := (alg.runnable.1 ++ [key], alg.runnable.2) }
  else
    if checkAbsent && alg.runnable.2.contains key then alg
    else { alg with runnable := (alg.runnable.1, alg.runnable.2 ++ [key]) }

def register (alg : SchedulerAlgorithm) (dynamic : DynamicFuture) :
    Option TaskKey × SchedulerAlgorithm :=
  let suspended := decide (dynamic.stopReason = .suspended)
  match alg.registry.insert dynamic with
  | (some key, registry) =>
    let alg := { alg with registry := registry }
    (some key, if suspended then alg.incSuspended else alg.enqueueRunnable key false)
  | (none, registry) => (none, { alg with registry := registry })

/-- The branch of `resume` that goes to a runnable queue. -/
def enqueues (alg : SchedulerAlgorithm) (key : TaskKey) (task : DynamicFuture) : Bool :=
  task.runnable || decide (alg.current = some key)

def resume (alg : SchedulerAlgorithm) (key : TaskKey) : Bool × SchedulerAlgorithm :=
  match alg.get key with
  | some task =>
    if task.stopReason = .suspended then
      let after := (alg.setStopReason key .none).decSuspended
      (true,
        if alg.enqueues key task then after.enqueueRunnable key true
        else if after.deferred.contains key then after
        else after.setDeferred (after.deferred ++ [key]))
    else (false, alg)
  | none => (false, alg)

def suspend (alg : SchedulerAlgorithm) (key : TaskKey) : Bool × SchedulerAlgorithm :=
  match alg.get key with
  | some task =>
    if task.stopReason = .none then
      let after := (alg.setStopReason key .suspended).incSuspended
      (true, if task.runnable then after else after.setDeferred (after.deferred.erase key))
    else (false, alg)
  | none => (false, alg)

def cancel (alg : SchedulerAlgorithm) (key : TaskKey) : Bool × SchedulerAlgorithm :=
  match alg.get key with
  | some task =>
    if task.stopReason ≠ .cancelled then
      let after := alg.setStopReason key .cancelled
      (true,
        if task.stopReason = .suspended then { after.decSuspended with scanRegistry := true }
        else after)
    else (false, alg)
  | none => (false, alg)

def getState (alg : SchedulerAlgorithm) (key : TaskKey) : State :=
  match alg.get key with
  | some task =>
    match task.stopReason with
    | .cancelled => .cancelled
    | .suspended => .suspended
    | .none => if task.runnable then .runnable else .waiting
  | none => .inactive

def getByName (alg : SchedulerAlgorithm) (name : String) : Option TaskKey :=
  (alg.registry.slab.iter.find? fun e => decide (e.2.name.asStr = some name)).map Prod.fst

def registeredCount (alg : SchedulerAlgorithm) : Nat := alg.registry.count

/-! The parts of `Control`. Where they answer `none` an `unwrap` or `expect` has failed. -/

/-- `registry.remove(key).expect("Internal Error: task not found.")`. -/
def removeTask (alg : SchedulerAlgorithm) (key : TaskKey) : Option SchedulerAlgorithm :=
  match alg.registry.remove key with
  | (some _, registry) => some { alg with registry := registry }
  | (none, _) => none

/-- The closure of `drain_runnable`: whether the element is retained. -/
def drainElem (alg : SchedulerAlgorithm) (elem : TaskKey) : Option (Bool × SchedulerAlgorithm) :=
  match alg.get elem with
  | none => none
  | some task =>
    if task.stopReason = .suspended then some (false, alg)
    else if task.stopReason = .cancelled then (alg.removeTask elem).map fun after => (false, after)
    else if task.runnable then some (false, alg.setFrom (alg.fromQueue ++ [elem]))
    else some (true, alg)

/-- `Guard::drop` of `rotate_once`. -/
def dropGuard (alg : SchedulerAlgorithm) (key : TaskKey) : SchedulerAlgorithm :=
  let alg := alg.setCurrent none
  if alg.fromQueue.head? = some key then alg.setFrom alg.fromQueue.tail
  else alg.setTo (alg.toQueue.erase key)

/-- The rest of an iteration of `rotate_once` once the guard is gone. -/
def afterPoll (alg : SchedulerAlgorithm) (key : TaskKey) (isReady : Bool) :
    Option SchedulerAlgorithm :=
  match alg.get key with
  | none => none
  | some task =>
    if isReady || decide (task.stopReason = .cancelled) then alg.removeTask key
    else if task.stopReason ≠ .suspended then
      if task.runnable then some (alg.setTo (alg.toQueue ++ [key]))
      else some (alg.setDeferred (alg.deferred ++ [key]))
    else some alg

/-- What `rotate_once` does after its loop. -/
def scan (alg : SchedulerAlgorithm) : Option SchedulerAlgorithm :=
  if alg.scanRegistry then
    if alg.toQueue.all (fun key => (alg.get key).isSome) then
      let swept := alg.setTo (alg.toQueue.filter fun key => !alg.isCancelled key)
      some { swept with
        scanRegistry := false
        registry := swept.registry.retain fun _ v => decide (v.stopReason ≠ .cancelled) }
    else none
  else some alg

end SchedulerAlgorithm

inductive Rotate where
  | wait
  | goOn
  deriving DecidableEq

inductive Scheduler.Pc where
  | idle
  | clear
  /-- in `drain_runnable`, which found `prev` keys and has looked at `index` of those left -/
  | drain (second : Bool) (prev index : Nat)
  | register
  /-- before the `last_waker.clear()` of `process_tasks` -/
  | unregister
  /-- at the head of the loop in `rotate_once` -/
  | rotate
  | polling (key : TaskKey)
  /-- behind the loop in `rotate_once` -/
  | scan
  | turn (beatResult : Rotate)
  | returned (v : Verdict)
  /-- an `unwrap` or `expect` has panicked -/
  | broken
  deriving DecidableEq

structure Scheduler where
  alg : SchedulerAlgorithm
  pc : Scheduler.Pc
  waker : Waker
  nextTid : Tid

namespace Scheduler

/-- `notify` and `store` are the two accesses of a `wake` on another thread. -/
inductive Event where
  | call (c : Call)
  | notify
  | store (target : TaskRef)
  | poll (w : Waker)
  | run
  | done (isReady : Bool)
  | panic

def new : Scheduler where
  alg := SchedulerAlgorithm.new
  pc := .idle
  waker := 0
  nextTid := 0

def goto (s : Scheduler) (pc : Pc) : Scheduler := { s with pc := pc }

def setLastWaker (s : Scheduler) (w : Option Waker) : Scheduler :=
  { s with alg := { s.alg with lastWaker := w } }

def proceed (s : Scheduler) (pc : Pc) : Option SchedulerAlgorithm → Scheduler
  | some alg => { s with alg := alg, pc := pc }
  | none => s.goto .broken

def storeRunnable (s : Scheduler) (target : TaskRef) : Scheduler :=
  match s.alg.get target.key with
  | some task =>
    if task.tid = target.tid then
      { s with alg := s.alg.update target.key (DynamicFuture.setRunnable true) }
    else s
  | none => s

def perform (s : Scheduler) : Call → Scheduler
  | .register params =>
    { s with
      alg := (s.alg.register (DynamicFuture.new s.nextTid params)).2
      nextTid := s.nextTid + 1 }
  | .suspend key => { s with alg := (s.alg.suspend key).2 }
  | .resume key => { s with alg := (s.alg.resume key).2 }
  | .cancel key => { s with alg := (s.alg.cancel key).2 }
  | .getState _ => s
  | .getByName _ => s
  | .registeredCount => s
  | .wake target => (s.setLastWaker none).storeRunnable target

def call (s : Scheduler) (c : Call) : Option Scheduler :=
  match s.pc with
  | .idle => some (s.perform c)
  | .returned _ => some ((s.perform c).goto .idle)
  | .polling _ => some (s.perform c)
  | _ => none

def poll (s : Scheduler) (w : Waker) : Option Scheduler :=
  match s.pc with
  | .idle => some { s with waker := w, pc := .clear }
  | .returned _ => some { s with waker := w, pc := .clear }
  | _ => none

def beginDrain (s : Scheduler) (second : Bool) : Scheduler :=
  s.goto (.drain second s.alg.deferred.length 0)

/-- What `process_tasks` does with the answer of `drain_runnable`. -/
def endDrain (s : Scheduler) (second : Bool) (prev : Nat) : Scheduler :=
  let drained := decide (prev ≠ s.alg.deferred.length)
  if second then s.goto (if drained then .unregister else .turn .wait)
  else if !drained && s.alg.fromQueue.isEmpty && s.alg.toQueue.isEmpty then s.goto .register
  else s.goto .rotate

def drain (s : Scheduler) (second : Bool) (prev index : Nat) : Scheduler :=
  match s.alg.deferred[index]? with
  | none => s.endDrain second prev
  | some elem =>
    match s.alg.drainElem elem with
    | none => s.goto .broken
    | some (true, alg) => { s with alg := alg, pc := .drain second prev (index + 1) }
    | some (false, alg) =>
      { s with alg := alg.setDeferred (alg.deferred.eraseIdx index), pc := .drain second prev index }

/-- `current` is set, then `poll_local` raises `polling` and lowers `runnable`. -/
def pollLocal (s : Scheduler) (key : TaskKey) (task : DynamicFuture) : Scheduler :=
  if task.polling then
    -- "Recursive call to DynamicFuture::poll_local is not allowed."
    { s with alg := s.alg.dropGuard key, pc := .idle }
  else
    { s with
      alg := (s.alg.setCurrent (some key)).update key
        (fun t => (t.setPolling true).setRunnable false)
      pc := .polling key }

/-- One iteration of the loop in `rotate_once`, up to the user code. -/
def visit (s : Scheduler) (runKey : TaskKey) : Scheduler :=
  match s.alg.get runKey with
  -- "Internal Error: unknown task in queue."
  | none => s.goto .broken
  | some task =>
    if task.stopReason ≠ .none then
      -- `continue` leaves the key at the front of the queue
      if task.stopReason = .cancelled then s.proceed .rotate (s.alg.removeTask runKey)
      else s
    else s.pollLocal runKey task

def endBeat (s : Scheduler) (beatResult : Rotate) : Scheduler :=
  let alg := { s.alg with whichBuffer := !s.alg.whichBuffer }
  let s := { s with alg := alg }
  if beatResult = .wait then s.goto (.returned .pending)
  else if alg.runnable.1.isEmpty && alg.runnable.2.isEmpty && alg.deferred.isEmpty then
    s.goto (.returned (.ready (decide (alg.suspendedCount = 0))))
  else s.goto .clear

def run (s : Scheduler) : Option Scheduler :=
  match s.pc with
  | .clear =>
    let s := s.setLastWaker none
    some (if s.alg.deferred.isEmpty then s.goto .rotate else s.beginDrain false)
  | .drain second prev index => some (s.drain second prev index)
  | .register => some ((s.setLastWaker (some s.waker)).beginDrain true)
  | .unregister => some ((s.setLastWaker none).goto .rotate)
  | .rotate =>
    match s.alg.fromQueue.head? with
    | some runKey => some (s.visit runKey)
    | none => some (s.goto .scan)
  | .scan => some (s.proceed (.turn .goOn) s.alg.scan)
  | .turn beatResult => some (s.endBeat beatResult)
  | _ => none

/-- The guards of the poll are dropped, first the one of `poll_local`. -/
def unguarded (s : Scheduler) (key : TaskKey) : Scheduler :=
  { s with alg := (s.alg.update key (DynamicFuture.setPolling false)).dropGuard key }

def done (s : Scheduler) (isReady : Bool) : Option Scheduler :=
  match s.pc with
  | .polling key =>
    let s := s.unguarded key
    some (s.proceed .rotate (s.alg.afterPoll key isReady))
  | _ => none

def panic (s : Scheduler) : Option Scheduler :=
  match s.pc with
  | .polling key => some ((s.unguarded key).goto .idle)
  | _ => none

def step (s : Scheduler) : Event → Option Scheduler
  | .call c => s.call c
  | .notify => some (s.setLastWaker none)
  | .store target => some (s.storeRunnable target)
  | .poll w => s.poll w
  | .run => s.run
  | .done isReady => s.done isReady
  | .panic => s.panic

end Scheduler
end Juggle.Dy
