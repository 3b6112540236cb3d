import Mathlib.Data.List.Perm.Basic
import Mathlib.Logic.Function.Basic
import Juggle.Dy.Scheduler
import Juggle.Utils.SlabMap

/-! What the scheduler with queues does to one key. The abstract side keeps the task
bound to the key and how often the key stands in each container; every part of the
code changes it at one key only, but for the scan and for the turn of the queues. -/
namespace Juggle.Dy
open Juggle.Utils

/-- What stands at one key. -/
@[ext] structure Spot where
  task : Option DynamicFuture
  inFrom : Nat
  inTo : Nat
  inDeferred : Nat

namespace Spot

def write (f : DynamicFuture → DynamicFuture) (p : Spot) : Spot := { p with task := p.task.map f }

def setTask (task : Option DynamicFuture) (p : Spot) : Spot := { p with task := task }

def setFrom (n : Nat) (p : Spot) : Spot := { p with inFrom := n }

def setTo (n : Nat) (p : Spot) : Spot := { p with inTo := n }

def setDeferred (n : Nat) (p : Spot) : Spot := { p with inDeferred := n }

def spawned (task : DynamicFuture) (p : Spot) : Spot :=
  let q := p.setTask (some task)
  if task.stopReason = .suspended then q else q.setTo (p.inTo + 1)

def resumed (current : Bool) (p : Spot) : Spot :=
  match p.task with
  | some task =>
    if task.stopReason = .suspended then
      let q := p.write (DynamicFuture.setStopReason .none)
      if task.runnable || current then q.setTo (max 1 p.inTo)
      else q.setDeferred (max 1 p.inDeferred)
    else p
  | none => p

def suspended (p : Spot) : Spot :=
  match p.task with
  | some task =>
    if task.stopReason = .none then
      let q := p.write (DynamicFuture.setStopReason .suspended)
      if task.runnable then q else q.setDeferred (p.inDeferred - 1)
    else p
  | none => p

def cancelled (p : Spot) : Spot :=
  match p.task with
  | some task =>
    if task.stopReason ≠ .cancelled then p.write (DynamicFuture.setStopReason .cancelled) else p
  | none => p

def woken (tid : Tid) (p : Spot) : Spot :=
  match p.task with
  | some task => if task.tid = tid then p.write (DynamicFuture.setRunnable true) else p
  | none => p

/-- The key leaves `deferred`, unless its task goes on waiting. -/
def drained (p : Spot) : Spot :=
  let q := p.setDeferred (p.inDeferred - 1)
  match p.task with
  | some task =>
    if task.stopReason = .suspended then q
    else if task.stopReason = .cancelled then q.setTask none
    else if task.runnable then q.setFrom (p.inFrom + 1)
    else p
  | none => p

def pollBegun (p : Spot) : Spot := p.write fun t => (t.setPolling true).setRunnable false

/-- The poll is over and the key is off the front of its queue. -/
def unguarded (p : Spot) : Spot :=
  (p.write (DynamicFuture.setPolling false)).setFrom (p.inFrom - 1)

def polled (isReady : Bool) (p : Spot) : Spot :=
  match p.task with
  | some task =>
    if isReady || decide (task.stopReason = .cancelled) then p.setTask none
    else if task.stopReason ≠ .suspended then
      if task.runnable then p.setTo (p.inTo + 1) else p.setDeferred (p.inDeferred + 1)
    else p
  | none => p

def polling (p : Spot) : Bool := p.task.any DynamicFuture.polling

def isCancelled (p : Spot) : Bool := p.task.any fun task => decide (task.stopReason = .cancelled)

def swept (p : Spot) : Spot := if p.isCancelled then (p.setTask none).setTo 0 else p

def turned (p : Spot) : Spot := (p.setFrom p.inTo).setTo p.inFrom

end Spot

namespace SchedulerAlgorithm

def spot (alg : SchedulerAlgorithm) (key : TaskKey) : Spot where
  task := alg.get key
  inFrom := alg.fromQueue.count key
  inTo := alg.toQueue.count key
  inDeferred := alg.deferred.count key

/-! What the setters of the model leave alone. -/

@[simp] theorem fromQueue_setFrom (alg : SchedulerAlgorithm) (queue : List TaskKey) :
    (alg.setFrom queue).fromQueue = queue := by
  cases h : alg.whichBuffer <;> simp [setFrom, fromQueue, h]

@[simp] theorem toQueue_setFrom (alg : SchedulerAlgorithm) (queue : List TaskKey) :
    (alg.setFrom queue).toQueue = alg.toQueue := by
  cases h : alg.whichBuffer <;> simp [setFrom, toQueue, h]

@[simp] theorem toQueue_setTo (alg : SchedulerAlgorithm) (queue : List TaskKey) :
    (alg.setTo queue).toQueue = queue := by
  cases h : alg.whichBuffer <;> simp [setTo, toQueue, h]

@[simp] theorem fromQueue_setTo (alg : SchedulerAlgorithm) (queue : List TaskKey) :
    (alg.setTo queue).fromQueue = alg.fromQueue := by
  cases h : alg.whichBuffer <;> simp [setTo, fromQueue, h]

/-- `enqueue_runnable` adds to the queue that is `to` in the beat under way, or in the
next one. -/
theorem enqueueRunnable_eq (alg : SchedulerAlgorithm) (key : TaskKey) (checkAbsent : Bool) :
    alg.enqueueRunnable key checkAbsent =
      if checkAbsent && alg.toQueue.contains key then alg
      else alg.setTo (alg.toQueue ++ [key]) := by
  cases h : alg.whichBuffer <;> simp [enqueueRunnable, toQueue, setTo, h]

/-- The element that `retain` drops from a vector. -/
theorem count_eraseIdx {keys : List TaskKey} {index : Nat} {elem : TaskKey}
    (found : keys[index]? = some elem) (k : TaskKey) :
    (keys.eraseIdx index).count k = keys.count k - if elem = k then 1 else 0 := by
  obtain ⟨bound, rfl⟩ := List.getElem?_eq_some_iff.mp found
  have whole := (List.getElem_cons_eraseIdx_perm bound).count_eq k
  rw [List.count_cons] at whole
  simp only [beq_iff_eq] at whole
  omega

theorem count_push (queue : List TaskKey) (key k : TaskKey) :
    (queue ++ [key]).count k = queue.count k + if key = k then 1 else 0 := by
  rw [List.count_append, List.count_singleton]
  simp only [beq_iff_eq]

theorem count_push_other (queue : List TaskKey) {key k : TaskKey} (other : k ≠ key) :
    (queue ++ [key]).count k = queue.count k := by
  rw [count_push, if_neg (Ne.symm other), Nat.add_zero]

/-- A part of the code that changes the spot of one key only. -/
structure Moves (alg : SchedulerAlgorithm) (key : TaskKey) (p : Spot) (after : SchedulerAlgorithm) :
    Prop where
  wf : after.registry.slab.WellFormed
  spots : after.spot = Function.update alg.spot key p
  current : after.current = alg.current

/-- Handles do not touch the queue the beat works on. -/
structure Handled (alg : SchedulerAlgorithm) (key : TaskKey) (p : Spot)
    (after : SchedulerAlgorithm) : Prop extends Moves alg key p after where
  fromQueue : after.fromQueue = alg.fromQueue

theorem Moves.here {alg after : SchedulerAlgorithm} {key : TaskKey} {p : Spot}
    (moves : Moves alg key p after) : after.spot key = p := by
  rw [moves.spots, Function.update_self]

theorem Moves.other {alg after : SchedulerAlgorithm} {key k : TaskKey} {p : Spot}
    (moves : Moves alg key p after) (other : k ≠ key) : after.spot k = alg.spot k := by
  rw [moves.spots, Function.update_of_ne other]

theorem Moves.trans {alg mid after : SchedulerAlgorithm} {key : TaskKey} {p q : Spot}
    (first : Moves alg key p mid) (second : Moves mid key q after) : Moves alg key q after where
  wf := second.wf
  spots := by rw [second.spots, first.spots, Function.update_idem]
  current := second.current.trans first.current

theorem Handled.trans {alg mid after : SchedulerAlgorithm} {key : TaskKey} {p q : Spot}
    (first : Handled alg key p mid) (second : Handled mid key q after) : Handled alg key q after where
  toMoves := first.toMoves.trans second.toMoves
  fromQueue := second.fromQueue.trans first.fromQueue

/-- Nothing happens, which may be said of any key. -/
theorem Handled.refl {alg : SchedulerAlgorithm} (wf : alg.registry.slab.WellFormed) (key : TaskKey) :
    Handled alg key (alg.spot key) alg :=
  ⟨⟨wf, (Function.update_eq_self key alg.spot).symm, rfl⟩, rfl⟩

/-! One lemma for each way in which the code edits a container or the registry. -/

section Edits
variable {alg : SchedulerAlgorithm} (wf : alg.registry.slab.WellFormed)
include wf

theorem update_handled (key : TaskKey) (f : DynamicFuture → DynamicFuture) :
    Handled alg key ((alg.spot key).write f) (alg.update key f) where
  wf := ChunkSlab.update_wellFormed wf key f
  current := rfl
  fromQueue := rfl
  spots := by
    refine Function.eq_update_iff.mpr ⟨?_, fun k other => ?_⟩
    · have here : (alg.update key f).get key = (alg.get key).map f :=
        ChunkSlab.get_update_self alg.registry.slab key f
      exact Spot.ext here rfl rfl rfl
    · have there : (alg.update key f).get k = alg.get k :=
        ChunkSlab.get_update_other alg.registry.slab f other
      exact Spot.ext there rfl rfl rfl

theorem setFrom_moves {queue : List TaskKey} {key : TaskKey} {n : Nat}
    (here : queue.count key = n)
    (others : ∀ k, k ≠ key → queue.count k = alg.fromQueue.count k) :
    Moves alg key ((alg.spot key).setFrom n) (alg.setFrom queue) where
  wf := wf
  current := rfl
  spots := by
    refine Function.eq_update_iff.mpr ⟨?_, fun k other => ?_⟩
    · exact Spot.ext rfl (by simp [spot, Spot.setFrom, here]) (by simp [spot, Spot.setFrom]) rfl
    · exact Spot.ext rfl (by simp [spot, others k other]) (by simp [spot]) rfl

theorem setTo_handled {queue : List TaskKey} {key : TaskKey} {n : Nat}
    (here : queue.count key = n)
    (others : ∀ k, k ≠ key → queue.count k = alg.toQueue.count k) :
    Handled alg key ((alg.spot key).setTo n) (alg.setTo queue) where
  wf := wf
  current := rfl
  fromQueue := fromQueue_setTo alg queue
  spots := by
    refine Function.eq_update_iff.mpr ⟨?_, fun k other => ?_⟩
    · exact Spot.ext rfl (by simp [spot, Spot.setTo]) (by simp [spot, Spot.setTo, here]) rfl
    · exact Spot.ext rfl (by simp [spot]) (by simp [spot, others k other]) rfl

theorem setDeferred_handled {keys : List TaskKey} {key : TaskKey} {n : Nat}
    (here : keys.count key = n) (others : ∀ k, k ≠ key → keys.count k = alg.deferred.count k) :
    Handled alg key ((alg.spot key).setDeferred n) (alg.setDeferred keys) where
  wf := wf
  current := rfl
  fromQueue := rfl
  spots := Function.eq_update_iff.mpr
    ⟨Spot.ext rfl rfl rfl here, fun k other => Spot.ext rfl rfl rfl (others k other)⟩

theorem removeTask_handled {key : TaskKey} {task : DynamicFuture} (found : alg.get key = some task) :
    ∃ after, alg.removeTask key = some after ∧ after.deferred = alg.deferred ∧
      Handled alg key ((alg.spot key).setTask none) after := by
  obtain ⟨slab, removed, spec⟩ := ChunkSlab.remove_some wf found
  have eq : alg.removeTask key = some { alg with registry := { alg.registry with slab := slab } } := by
    simp only [removeTask, Registry.remove, removed]
  refine ⟨_, eq, rfl, ⟨spec.wf, Function.eq_update_iff.mpr ⟨?_, fun k other => ?_⟩, rfl⟩, rfl⟩
  · exact Spot.ext spec.gone rfl rfl rfl
  · exact Spot.ext (spec.others k other) rfl rfl rfl

end Edits

/-! The operations, each as the abstract one on its key. -/

section Operations
variable {alg : SchedulerAlgorithm} (wf : alg.registry.slab.WellFormed)
include wf

theorem enqueue_handled (key : TaskKey) (checkAbsent : Bool) :
    Handled alg key
      ((alg.spot key).setTo
        (if checkAbsent then max 1 (alg.spot key).inTo else (alg.spot key).inTo + 1))
      (alg.enqueueRunnable key checkAbsent) := by
  rw [enqueueRunnable_eq]
  by_cases present : (checkAbsent && alg.toQueue.contains key) = true
  · rw [if_pos present]
    simp only [Bool.and_eq_true, List.contains_iff_mem] at present
    have stands : 0 < (alg.spot key).inTo := List.count_pos_iff.mpr present.2
    have same : max 1 (alg.spot key).inTo = (alg.spot key).inTo := by omega
    rw [if_pos present.1, same]
    exact .refl wf key
  · rw [if_neg present]
    refine setTo_handled wf ?_ (fun k other => count_push_other alg.toQueue other)
    rw [count_push, if_pos rfl]
    cases checkAbsent with
    | false => rfl
    | true =>
      have absent : (alg.spot key).inTo = 0 := List.count_eq_zero.mpr (by simpa using present)
      have absent' : alg.toQueue.count key = 0 := absent
      simp [absent, absent']

theorem defer_handled (key : TaskKey) :
    Handled alg key ((alg.spot key).setDeferred (max 1 (alg.spot key).inDeferred))
      (if alg.deferred.contains key then alg else alg.setDeferred (alg.deferred ++ [key])) := by
  by_cases present : alg.deferred.contains key = true
  · have stands : 0 < (alg.spot key).inDeferred :=
      List.count_pos_iff.mpr (List.contains_iff_mem.mp present)
    have same : max 1 (alg.spot key).inDeferred = (alg.spot key).inDeferred := by omega
    rw [if_pos present, same]
    exact .refl wf key
  · rw [if_neg present]
    refine setDeferred_handled wf ?_ (fun k other => count_push_other alg.deferred other)
    have absent : (alg.spot key).inDeferred = 0 := List.count_eq_zero.mpr (by simpa using present)
    have absent' : alg.deferred.count key = 0 := absent
    rw [count_push, if_pos rfl, absent, absent']
    rfl

/-- `set_stop_reason` together with a change of fields that no spot shows. -/
theorem setStopReason_handled (key : TaskKey) (val : StopReason) {after : SchedulerAlgorithm}
    (registry : after.registry = (alg.setStopReason key val).registry)
    (runnable : after.runnable = alg.runnable) (which : after.whichBuffer = alg.whichBuffer)
    (deferred : after.deferred = alg.deferred) (current : after.current = alg.current) :
    Handled alg key ((alg.spot key).write (DynamicFuture.setStopReason val)) after := by
  have base := update_handled wf key (DynamicFuture.setStopReason val)
  have fromQueue : after.fromQueue = alg.fromQueue := by simp only [fromQueue, runnable, which]
  have toQueue : after.toQueue = alg.toQueue := by simp only [toQueue, runnable, which]
  have same : after.spot = (alg.setStopReason key val).spot := by
    funext k
    have task : after.get k = (alg.setStopReason key val).get k := by simp only [get, registry]
    exact Spot.ext task (congrArg (List.count k) fromQueue) (congrArg (List.count k) toQueue)
      (congrArg (List.count k) deferred)
  exact ⟨⟨registry ▸ base.wf, same.trans base.spots, current⟩, fromQueue⟩

theorem resume_handled (key : TaskKey) :
    Handled alg key ((alg.spot key).resumed (decide (alg.current = some key)))
      (alg.resume key).2 := by
  unfold resume Spot.resumed
  cases found : alg.get key with
  | none => simpa only [spot, found] using Handled.refl wf key
  | some task =>
    have here : (alg.spot key).task = some task := found
    simp only [here]
    by_cases suspended : task.stopReason = .suspended
    · rw [if_pos suspended, if_pos suspended]
      have base : Handled alg key _ (alg.setStopReason key .none).decSuspended :=
        setStopReason_handled wf key .none rfl rfl rfl rfl rfl
      by_cases joins : alg.enqueues key task = true
      · have joins' : (task.runnable || decide (alg.current = some key)) = true := joins
        rw [if_pos joins, if_pos joins']
        have more := base.trans (enqueue_handled base.wf key true)
        rw [base.here] at more
        exact more
      · have joins' : ¬ (task.runnable || decide (alg.current = some key)) = true := joins
        rw [if_neg joins, if_neg joins']
        have more := base.trans (defer_handled base.wf key)
        rw [base.here] at more
        exact more
    · rw [if_neg suspended, if_neg suspended]
      exact .refl wf key

theorem suspend_handled (key : TaskKey) :
    Handled alg key (alg.spot key).suspended (alg.suspend key).2 := by
  unfold suspend Spot.suspended
  cases found : alg.get key with
  | none => simpa only [spot, found] using Handled.refl wf key
  | some task =>
    have here : (alg.spot key).task = some task := found
    simp only [here]
    by_cases free : task.stopReason = .none
    · rw [if_pos free, if_pos free]
      have base : Handled alg key _ (alg.setStopReason key .suspended).incSuspended :=
        setStopReason_handled wf key .suspended rfl rfl rfl rfl rfl
      by_cases runnable : task.runnable = true
      · rw [if_pos runnable, if_pos runnable]
        exact base
      · rw [if_neg runnable, if_neg runnable]
        have here' := List.count_erase_self (a := key) (l := alg.deferred)
        have more := base.trans
          (setDeferred_handled base.wf here' (fun k other => List.count_erase_of_ne other))
        rw [base.here] at more
        exact more
    · rw [if_neg free, if_neg free]
      exact .refl wf key

theorem cancel_handled (key : TaskKey) :
    Handled alg key (alg.spot key).cancelled (alg.cancel key).2 := by
  unfold cancel Spot.cancelled
  cases found : alg.get key with
  | none => simpa only [spot, found] using Handled.refl wf key
  | some task =>
    have here : (alg.spot key).task = some task := found
    simp only [here]
    by_cases live : task.stopReason ≠ .cancelled
    · rw [if_pos live, if_pos live]
      refine setStopReason_handled wf key .cancelled ?_ ?_ ?_ ?_ ?_
      all_goals split <;> rfl
    · rw [if_neg live, if_neg live]
      exact .refl wf key

theorem register_handled (task : DynamicFuture) :
    ∃ key, (alg.register task).1 = some key ∧ alg.get key = none ∧
      Handled alg key ((alg.spot key).spawned task) (alg.register task).2 := by
  obtain ⟨key, slab, inserted, spec⟩ := ChunkSlab.insert_spec wf task rfl
  let bound : SchedulerAlgorithm := { alg with registry := { alg.registry with slab := slab } }
  have base : Handled alg key ((alg.spot key).setTask (some task)) bound := by
    refine ⟨⟨spec.wf, Function.eq_update_iff.mpr ⟨?_, fun k other => ?_⟩, rfl⟩, rfl⟩
    · exact Spot.ext spec.bound rfl rfl rfl
    · exact Spot.ext (spec.others k other) rfl rfl rfl
  refine ⟨key, ?_, spec.fresh, ?_⟩
  · simp only [register, Registry.insert, inserted]
  · simp only [register, Registry.insert, inserted, Spot.spawned, decide_eq_true_eq]
    by_cases suspended : task.stopReason = .suspended
    · rw [if_pos suspended, if_pos suspended]
      exact ⟨⟨base.wf, base.spots, rfl⟩, rfl⟩
    · rw [if_neg suspended, if_neg suspended]
      have more := base.trans (enqueue_handled base.wf key false)
      rw [base.here] at more
      exact more

/-- One element of `drain_runnable`, whose key stands at `index` of `deferred`. -/
theorem drainElem_moves {index : Nat} {elem : TaskKey} (place : alg.deferred[index]? = some elem)
    (known : (alg.get elem).isSome = true) :
    ∃ keep after, alg.drainElem elem = some (keep, after) ∧
      Moves alg elem (alg.spot elem).drained
        (if keep then after else after.setDeferred (after.deferred.eraseIdx index)) := by
  obtain ⟨task, found⟩ := Option.isSome_iff_exists.mp known
  have here : (alg.spot elem).task = some task := found
  have leave : ∀ {p : Spot} {after : SchedulerAlgorithm}, Moves alg elem p after →
      after.deferred = alg.deferred →
      Moves alg elem (p.setDeferred ((alg.spot elem).inDeferred - 1))
        (after.setDeferred (after.deferred.eraseIdx index)) := by
    intro p after moves same
    have place' : after.deferred[index]? = some elem := same ▸ place
    have here' : (after.deferred.eraseIdx index).count elem = (alg.spot elem).inDeferred - 1 := by
      rw [count_eraseIdx place', if_pos rfl, same]
      rfl
    have others : ∀ k, k ≠ elem →
        (after.deferred.eraseIdx index).count k = after.deferred.count k := by
      intro k other
      rw [count_eraseIdx place', if_neg (Ne.symm other), Nat.sub_zero]
    have more := moves.trans (setDeferred_handled moves.wf here' others).toMoves
    rw [moves.here] at more
    exact more
  unfold drainElem Spot.drained
  simp only [found, here]
  by_cases suspended : task.stopReason = .suspended
  · rw [if_pos suspended, if_pos suspended]
    exact ⟨false, alg, rfl, leave (Handled.refl wf elem).toMoves rfl⟩
  · rw [if_neg suspended, if_neg suspended]
    by_cases cancelled : task.stopReason = .cancelled
    · rw [if_pos cancelled, if_pos cancelled]
      obtain ⟨after, removed, same, moves⟩ := removeTask_handled wf found
      exact ⟨false, after, by rw [removed]; rfl, leave moves.toMoves same⟩
    · rw [if_neg cancelled, if_neg cancelled]
      by_cases runnable : task.runnable = true
      · rw [if_pos runnable, if_pos runnable]
        refine ⟨false, _, rfl, leave (setFrom_moves wf ?_ ?_) rfl⟩
        · rw [count_push, if_pos rfl]
          rfl
        · exact fun k other => count_push_other alg.fromQueue other
      · rw [if_neg runnable, if_neg runnable]
        exact ⟨true, alg, rfl, (Handled.refl wf elem).toMoves⟩

theorem afterPoll_handled {key : TaskKey} {task : DynamicFuture} (found : alg.get key = some task)
    (isReady : Bool) :
    ∃ after, alg.afterPoll key isReady = some after ∧
      Handled alg key ((alg.spot key).polled isReady) after := by
  have here : (alg.spot key).task = some task := found
  unfold afterPoll Spot.polled
  simp only [found, here]
  by_cases ended : (isReady || decide (task.stopReason = .cancelled)) = true
  · rw [if_pos ended, if_pos ended]
    obtain ⟨after, removed, same, moves⟩ := removeTask_handled wf found
    exact ⟨after, removed, moves⟩
  · rw [if_neg ended, if_neg ended]
    by_cases awake : task.stopReason ≠ .suspended
    · rw [if_pos awake, if_pos awake]
      by_cases runnable : task.runnable = true
      · rw [if_pos runnable, if_pos runnable]
        refine ⟨_, rfl, setTo_handled wf ?_ (fun k other => count_push_other alg.toQueue other)⟩
        rw [count_push, if_pos rfl]
        rfl
      · rw [if_neg runnable, if_neg runnable]
        refine ⟨_, rfl, setDeferred_handled wf ?_ (fun k other => count_push_other alg.deferred other)⟩
        rw [count_push, if_pos rfl]
        rfl
    · rw [if_neg awake, if_neg awake]
      exact ⟨alg, rfl, .refl wf key⟩

end Operations

/-- The guards of a poll whose key is still at the front. -/
theorem unguarded_spec {s : Scheduler} (wf : s.alg.registry.slab.WellFormed) {key : TaskKey}
    (front : s.alg.fromQueue.head? = some key) :
    (s.unguarded key).alg.registry.slab.WellFormed ∧ (s.unguarded key).alg.current = none ∧
      (s.unguarded key).alg.fromQueue = s.alg.fromQueue.tail ∧
      (s.unguarded key).alg.spot = Function.update s.alg.spot key (s.alg.spot key).unguarded := by
  have base := update_handled wf key (DynamicFuture.setPolling false)
  let cleared := (s.alg.update key (DynamicFuture.setPolling false)).setCurrent none
  have front' : cleared.fromQueue.head? = some key := front
  have eq : (s.unguarded key).alg = cleared.setFrom cleared.fromQueue.tail := if_pos front'
  have here : cleared.fromQueue.tail.count key = (s.alg.spot key).inFrom - 1 := by
    rw [List.count_tail, front', if_pos (beq_self_eq_true _)]
    rfl
  have others : ∀ k, k ≠ key → cleared.fromQueue.tail.count k = cleared.fromQueue.count k := by
    intro k other
    rw [List.count_tail, front', if_neg (by simpa using Ne.symm other), Nat.sub_zero]
  have wf' : cleared.registry.slab.WellFormed := base.wf
  have popped := setFrom_moves wf' here others
  have at_key : cleared.spot key = _ := base.here
  have spots : cleared.spot = _ := base.spots
  rw [eq]
  refine ⟨popped.wf, popped.current, fromQueue_setFrom cleared _, ?_⟩
  rw [popped.spots, at_key, spots, Function.update_idem]
  rfl

theorem isCancelled_spot (alg : SchedulerAlgorithm) (key : TaskKey) :
    (alg.spot key).isCancelled = alg.isCancelled key := by
  simp only [Spot.isCancelled, isCancelled, spot]
  cases alg.get key <;> rfl

theorem retain_live {alg : SchedulerAlgorithm} (wf : alg.registry.slab.WellFormed) (key : TaskKey) :
    (alg.registry.slab.retain fun _ v => decide (v.stopReason ≠ .cancelled)).get key =
      if alg.isCancelled key then none else alg.get key := by
  have found : alg.registry.slab.get key = alg.get key := rfl
  rw [(ChunkSlab.retain_spec wf fun _ v => decide (v.stopReason ≠ .cancelled)).2 key, found]
  rw [← isCancelled_spot, Spot.isCancelled, spot]
  cases alg.get key with
  | none => rfl
  | some task => by_cases cancelled : task.stopReason = .cancelled <;> simp [cancelled]

/-- What the scan does at each key: a task is bound to one key, so none of its cancelled
tasks is missed in the registry, but `deferred` is not looked at. -/
theorem scan_spec {alg : SchedulerAlgorithm} (wf : alg.registry.slab.WellFormed)
    (known : alg.scanRegistry = true → ∀ key ∈ alg.toQueue, (alg.get key).isSome = true) :
    ∃ after, alg.scan = some after ∧ after.registry.slab.WellFormed ∧
      after.current = alg.current ∧ after.fromQueue = alg.fromQueue ∧
      ∀ key, after.spot key =
        if alg.scanRegistry then (alg.spot key).swept else alg.spot key := by
  unfold scan
  by_cases asked : alg.scanRegistry = true
  · rw [if_pos asked, if_pos (List.all_eq_true.mpr (known asked))]
    refine ⟨_, rfl, (ChunkSlab.retain_spec wf _).1, rfl, fromQueue_setTo alg _, fun key => ?_⟩
    have task := retain_live wf key
    have from_eq := congrArg (List.count key)
      (fromQueue_setTo alg (alg.toQueue.filter fun key => !alg.isCancelled key))
    have to_eq := congrArg (List.count key)
      (toQueue_setTo alg (alg.toQueue.filter fun key => !alg.isCancelled key))
    rw [if_pos asked, Spot.swept, isCancelled_spot]
    by_cases cancelled : alg.isCancelled key = true
    · rw [if_pos cancelled] at task ⊢
      have gone : (alg.toQueue.filter fun key => !alg.isCancelled key).count key = 0 :=
        List.count_eq_zero.mpr (by simp [cancelled])
      exact Spot.ext task from_eq (to_eq.trans gone) rfl
    · rw [if_neg cancelled] at task ⊢
      have kept := List.count_filter (p := fun key => !alg.isCancelled key) (l := alg.toQueue)
        (by simp [cancelled] : (!alg.isCancelled key) = true)
      exact Spot.ext task from_eq (to_eq.trans kept) rfl
  · rw [if_neg asked]
    exact ⟨alg, rfl, wf, rfl, rfl, fun key => (if_neg asked).symm⟩

theorem turn_spot (alg : SchedulerAlgorithm) (key : TaskKey) :
    ({ alg with whichBuffer := !alg.whichBuffer } : SchedulerAlgorithm).spot key =
      (alg.spot key).turned := by
  cases which : alg.whichBuffer <;>
    simp [spot, get, fromQueue, toQueue, Spot.turned, Spot.setFrom, Spot.setTo, which]

end SchedulerAlgorithm

end Juggle.Dy
