import Juggle.Dy.Algorithm
import Juggle.Lib.Run

/-! The dynamic wheel in motion: `poll_internal` and `beat_once` of
`dy/unordered_algorithm.rs`, `poll_local` and `wake` of `dy/dyn_future.rs`. A step does at
most one atomic access. What user code and other threads do arrives as events. -/
namespace Juggle.Dy

/-- One call of `beat_once`. `second` tells the call made after the waker was
registered. `late` is not in the source: it records that a destructor run by this
call left work at a key the sweep has passed or will not reach. -/
structure Beat where
  second : Bool
  anyPoll : Bool
  cap : Nat
  late : Bool
  deriving DecidableEq

inductive Verdict where
  | pending
  | ready (finished : Bool)
  deriving DecidableEq

/-- Where the polling thread stands. `clear` and `finish` are before the two calls of
`last_waker.clear()`; in `polling` and `dropping` the task's poll or destructor runs. -/
inductive Pc where
  | idle
  | clear
  | sweep (b : Beat) (key : TaskKey)
  | chosen (b : Beat) (key : TaskKey) (tid : Tid)
  | polling (b : Beat) (key : TaskKey) (tid : Tid)
  | removing (b : Beat) (key : TaskKey) (tid : Tid)
  | dropping (b : Beat) (key : TaskKey) (tid : Tid)
  | register
  | finish (finished : Bool)
  | returned (r : Verdict)
  deriving DecidableEq

namespace Pc

def cursor : Pc → Option (Beat × TaskKey)
  | .sweep b key => some (b, key)
  | .chosen b key _ => some (b, key)
  | .polling b key _ => some (b, key)
  | .removing b key _ => some (b, key)
  | .dropping b key _ => some (b, key)
  | _ => none

def pollingAt : Pc → Option TaskKey
  | .polling _ key _ => some key
  | _ => none

end Pc

-- Tasks never move, so a waker's key goes with the identity of its task.
structure TaskRef where
  key : TaskKey
  tid : Tid
  deriving DecidableEq

inductive WakePc where
  | notify
  | invoke (w : Waker)
  | store
  deriving DecidableEq

structure WakeCall where
  target : TaskRef
  pc : WakePc

/-- `outer` and `inner` are the open `with_name` closures of the code outside and of the
task code now running, each with the task whose name it holds. `wakes` are the calls of
`wake` on other threads, `woken` the wakers invoked in this call of `poll_internal`. -/
structure Wheel where
  alg : UnorderedAlgorithm
  pc : Pc
  waker : Waker
  outer : List (Option Tid)
  inner : List (Option Tid)
  wakes : List WakeCall
  woken : List Waker
  nextTid : Tid
  beats : Nat

inductive Call where
  | register (params : SpawnParams)
  | suspend (key : TaskKey)
  | resume (key : TaskKey)
  | cancel (key : TaskKey)
  | getState (key : TaskKey)
  | getByName (name : String)
  | registeredCount
  -- a waker invoked by the polling thread's own user code
  | wake (target : TaskRef)

inductive Event where
  | call (c : Call)
  | withName (key : TaskKey)
  | withNameEnd
  | wakeBegin (target : TaskRef)
  | wakeStep (i : Nat)
  | poll (w : Waker)
  -- the next step of `poll_internal`
  | run
  | done (isReady : Bool)
  | dropped
  | panic

namespace Wheel

def new : Wheel where
  alg := UnorderedAlgorithm.new
  pc := .idle
  waker := 0
  outer := []
  inner := []
  wakes := []
  woken := []
  nextTid := 0
  beats := 0

def get (s : Wheel) (key : TaskKey) : Option DynamicFuture := s.alg.registry.get key

def withRegistry (s : Wheel) (f : Registry → Registry) : Wheel :=
  { s with alg := { s.alg with registry := f s.alg.registry } }

def update (s : Wheel) (key : TaskKey) (f : DynamicFuture → DynamicFuture) : Wheel :=
  s.withRegistry (fun r => r.update key f)

def setLastWaker (s : Wheel) (w : Option Waker) : Wheel :=
  { s with alg := { s.alg with lastWaker := w } }

def setCurrent (s : Wheel) (key : Option TaskKey) : Wheel :=
  { s with alg := { s.alg with current := key } }

def goto (s : Wheel) (pc : Pc) : Wheel := { s with pc := pc }

-- `InnerSyncFlags::wake` takes the registered waker and invokes it, then stores the flag.
def storeRunnable (s : Wheel) (target : TaskRef) : Wheel :=
  match s.get target.key with
  | some task =>
    if task.tid = target.tid then s.update target.key (DynamicFuture.setRunnable true) else s
  | none => s

def notifyWake (s : Wheel) : Wheel :=
  match s.alg.lastWaker with
  | some w => { s.setLastWaker none with woken := w :: s.woken }
  | none => s

def wake (s : Wheel) (target : TaskRef) : Wheel := s.notifyWake.storeRunnable target

def wakeStep (s : Wheel) (i : Nat) : Option Wheel :=
  match s.wakes[i]? with
  | none => none
  | some ⟨target, .notify⟩ =>
    let next := match s.alg.lastWaker with
      | some w => .invoke w
      | none => .store
    some { s.setLastWaker none with wakes := s.wakes.set i ⟨target, next⟩ }
  | some ⟨target, .invoke w⟩ =>
    some { s with woken := w :: s.woken, wakes := s.wakes.set i ⟨target, .store⟩ }
  | some ⟨target, .store⟩ =>
    some { s.storeRunnable target with wakes := s.wakes.eraseIdx i }

def perform (s : Wheel) : Call → Wheel
  | .register params =>
    { s with
      alg := (s.alg.register (DynamicFuture.new s.nextTid params)).2
      nextTid := s.nextTid + 1 }
  | .suspend key => { s with alg := (s.alg.suspend key).2 }
  | .resume key => { s with alg := (s.alg.resume key).2 }
  | .cancel key => { s with alg := (s.alg.cancel key).2 }
  | .getState _ => s
  | .getByName _ => s
  | .registeredCount => s
  | .wake target => s.wake target

/-- The sweep acts on the task at this key when it comes there: it removes it or polls it. -/
def hasWork (s : Wheel) (key : TaskKey) : Bool :=
  match s.get key with
  | some task =>
    decide (task.stopReason = .cancelled) || (task.stopReason.isPollAllowed && task.runnable)
  | none => false

def target (s : Wheel) : Call → Option TaskKey
  | .register params => (s.alg.register (DynamicFuture.new s.nextTid params)).1
  | .suspend key => some key
  | .resume key => some key
  | .cancel key => some key
  | .wake target => some target.key
  | _ => none

/-- The call leaves work at a key that the sweep standing at `key` does not come to. -/
def isLate (s : Wheel) (b : Beat) (key : TaskKey) (c : Call) : Bool :=
  match s.target c with
  | some k => (decide (k ≤ key) || decide (b.cap ≤ k)) && (s.perform c).hasWork k
  | none => false

def call (s : Wheel) (c : Call) : Option Wheel :=
  match s.pc with
  | .idle => some (s.perform c)
  | .returned _ => some ((s.perform c).goto .idle)
  | .polling _ _ _ => some (s.perform c)
  | .dropping b key tid =>
    some ((s.perform c).goto (.dropping { b with late := b.late || s.isLate b key c } key tid))
  | _ => none

def borrowOpt (s : Wheel) : Option Tid → Wheel
  | some tid => s.withRegistry (fun r => r.borrow tid)
  | none => s

def releaseOpt (s : Wheel) : Option Tid → Wheel
  | some tid => s.withRegistry (fun r => r.release tid)
  | none => s

-- Up to the call of the closure; `withNameEnd` is the rest.
def withName (s : Wheel) (key : TaskKey) : Option Wheel :=
  let ref := (s.get key).map DynamicFuture.tid
  match s.pc with
  | .idle => some { s.borrowOpt ref with outer := ref :: s.outer }
  | .returned _ => some { s.borrowOpt ref with outer := ref :: s.outer, pc := .idle }
  | .polling _ _ _ => some { s.borrowOpt ref with inner := ref :: s.inner }
  | .dropping _ _ _ => some { s.borrowOpt ref with inner := ref :: s.inner }
  | _ => none

def withNameEnd (s : Wheel) : Option Wheel :=
  match s.pc, s.outer, s.inner with
  | .idle, ref :: rest, _ => some { s.releaseOpt ref with outer := rest }
  | .returned _, ref :: rest, _ => some { s.releaseOpt ref with outer := rest, pc := .idle }
  | .polling _ _ _, _, ref :: rest => some { s.releaseOpt ref with inner := rest }
  | .dropping _ _ _, _, ref :: rest => some { s.releaseOpt ref with inner := rest }
  | _, _, _ => none

/-- Unwinding leaves the closures opened by the panicking code. -/
def closeInner (s : Wheel) : Wheel :=
  { s.inner.foldl releaseOpt s with inner := [] }

-- The call needs `&mut` access to the wheel, so no other one is running.
def poll (s : Wheel) (w : Waker) : Option Wheel :=
  match s.pc with
  | .idle => some { s with waker := w, woken := [], pc := .clear }
  | .returned _ => some { s with waker := w, woken := [], pc := .clear }
  | _ => none

/-- The range of the sweep is fixed by the capacity at its start. -/
def beginBeat (s : Wheel) (second : Bool) : Wheel :=
  { s with pc := .sweep ⟨second, false, s.alg.registry.capacity, false⟩ 0, beats := s.beats + 1 }

def visit (s : Wheel) (b : Beat) (key : TaskKey) : Wheel :=
  match s.get key with
  | none => s.goto (.sweep b (key + 1))
  | some task =>
    if ¬ task.stopReason.isPollAllowed then
      if task.stopReason = .cancelled then s.goto (.removing b key task.tid)
      else s.goto (.sweep b (key + 1))
    else if ¬ task.runnable then s.goto (.sweep b (key + 1))
    else (s.withRegistry (fun r => r.borrow task.tid)).goto (.chosen b key task.tid)

def pollLocal (s : Wheel) (b : Beat) (key : TaskKey) (tid : Tid) : Wheel :=
  match s.get key with
  | none => s.goto .idle
  | some task =>
    if task.polling then
      -- "Recursive call to DynamicFuture::poll_local is not allowed."
      ((s.setCurrent none).withRegistry (fun r => r.release tid)).goto .idle
    else
      ((s.setCurrent (some key)).update key
        (fun t => (t.setPolling true).setRunnable false)).goto
          (.polling { b with anyPoll := true } key tid)

def done (s : Wheel) (isReady : Bool) : Option Wheel :=
  match s.pc, s.inner with
  | .polling b key tid, [] =>
    let s := ((s.update key (DynamicFuture.setPolling false)).setCurrent none).withRegistry
      (fun r => r.release tid)
    some (s.goto (if isReady then .removing b key tid else .sweep b (key + 1)))
  | _, _ => none

def remove (s : Wheel) (b : Beat) (key : TaskKey) : Wheel :=
  match s.alg.registry.remove key with
  | (some task, registry) =>
    (s.withRegistry (fun _ => registry)).goto (.dropping b key task.tid)
  -- "Internal Error: task not found."
  | (none, registry) => (s.withRegistry (fun _ => registry)).goto .idle

/-- What `poll_internal` does with the result of `beat_once`. -/
def endBeat (s : Wheel) (b : Beat) : Wheel :=
  match b.second, b.anyPoll with
  | false, true => s.beginBeat false
  | false, false => s.goto .register
  | true, true => s.goto .clear
  | true, false =>
    let cnt := s.alg.registry.count
    if cnt = 0 ∨ cnt = s.alg.suspendedCount then s.goto (.finish (decide (cnt = 0)))
    else s.goto (.returned .pending)

def run (s : Wheel) : Option Wheel :=
  match s.pc with
  | .clear => some ((s.setLastWaker none).beginBeat false)
  | .sweep b key => some (if key < b.cap then s.visit b key else s.endBeat b)
  | .chosen b key tid => some (s.pollLocal b key tid)
  | .removing b key _ => some (s.remove b key)
  | .register => some ((s.setLastWaker (some s.waker)).beginBeat true)
  | .finish finished => some ((s.setLastWaker none).goto (.returned (.ready finished)))
  | _ => none

def dropped (s : Wheel) : Option Wheel :=
  match s.pc, s.inner with
  | .dropping b key _, [] => some (s.goto (.sweep b (key + 1)))
  | _, _ => none

def panic (s : Wheel) : Option Wheel :=
  match s.pc with
  | .polling _ key tid =>
    some (((((s.closeInner).update key (DynamicFuture.setPolling false)).setCurrent none).withRegistry
      (fun r => r.release tid)).goto .idle)
  | .dropping _ _ _ => some (s.closeInner.goto .idle)
  | _ => none

def step (s : Wheel) : Event → Option Wheel
  | .call c => s.call c
  | .withName key => s.withName key
  | .withNameEnd => s.withNameEnd
  | .wakeBegin target => some { s with wakes := s.wakes ++ [⟨target, .notify⟩] }
  | .wakeStep i => s.wakeStep i
  | .poll w => s.poll w
  | .run => s.run
  | .done isReady => s.done isReady
  | .dropped => s.dropped
  | .panic => s.panic

end Wheel
end Juggle.Dy
