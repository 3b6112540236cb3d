import Juggle.Dy.Queues
import Juggle.Lib.Play

/-! When a rotation of the scheduler with queues ends: exactly if every key that the loop
of `rotate_once` finds at the front of `from` belongs to a task that may be polled. -/
namespace Juggle.Dy
open Juggle.Utils Juggle.Runs

namespace Scheduler

/-- The loop of `rotate_once` is running. -/
def Pc.rotating : Pc → Bool
  | .rotate => true
  | .polling _ => true
  | _ => false

/-- The steps of the thread that polls: its own code goes on or its user code returns. -/
def Event.advances : Event → Bool
  | .run => true
  | .done _ => true
  | _ => false

/-- The key that the step takes off the queue. -/
def taken (s : Scheduler) (e : Event) : List TaskKey :=
  match s.pc, e with
  | .polling key, .done _ => [key]
  | _, _ => []

/-- The keys taken off during the first steps of a play. -/
def takenBy (p : Play step) : Nat → List TaskKey
  | 0 => []
  | n + 1 => takenBy p n ++ taken (p.state n) (p.event n)

/-- Each single poll terminates: its future returns, and the thread is not stopped. -/
structure PollsReturn (p : Play step) : Prop where
  calm : ∀ n, p.event n ≠ .panic
  goesOn : ∀ n, (p.state n).pc.rotating = true → ∃ m, n ≤ m ∧ (p.event m).advances = true

/-- The loop comes to its end with an empty queue, each key that was in it having been
taken off once, in their order. -/
def RotationEnds (p : Play step) : Prop :=
  ∃ m, (p.state m).pc = .scan ∧ (p.state m).alg.fromQueue = [] ∧
    (∀ n < m, (p.state n).pc.rotating = true) ∧
    ∀ n ≤ m, (p.state 0).alg.fromQueue = takenBy p n ++ (p.state n).alg.fromQueue

/-- A key at the front of `from` belongs to a registered task that is not stopped. -/
def FrontOpen (s : Scheduler) : Prop :=
  s.pc = .rotate → ∀ key ∈ s.alg.fromQueue.head?,
    (s.alg.get key).map DynamicFuture.stopReason = some .none

instance decidableFrontOpen (s : Scheduler) : Decidable (FrontOpen s) :=
  inferInstanceAs (Decidable (s.pc = .rotate → ∀ key ∈ s.alg.fromQueue.head?,
    (s.alg.get key).map DynamicFuture.stopReason = some .none))

/-- A step inside the loop. -/
inductive RotateStep (s : Scheduler) (e : Event) (t : Scheduler) : Prop where
  | aside (idle : e.advances = false) (pc : t.pc = s.pc)
      (queue : t.alg.fromQueue = s.alg.fromQueue)
  | begins (key : TaskKey) (event : e = .run) (pc : s.pc = .rotate) (pc' : t.pc = .polling key)
      (queue : t.alg.fromQueue = s.alg.fromQueue)
  | ends (key : TaskKey) (isReady : Bool) (event : e = .done isReady) (pc : s.pc = .polling key)
      (front : s.alg.fromQueue.head? = some key) (pc' : t.pc = .rotate)
      (queue : t.alg.fromQueue = s.alg.fromQueue.tail)
  | leaves (event : e = .run) (pc : s.pc = .rotate) (pc' : t.pc = .scan)
      (empty : s.alg.fromQueue = []) (empty' : t.alg.fromQueue = [])

theorem perform_fromQueue {s : Scheduler} (wf : s.alg.registry.slab.WellFormed) (c : Call) :
    (s.perform c).alg.fromQueue = s.alg.fromQueue := by
  rcases perform_request wf c with same | ⟨key, q, _, handled⟩
  · rw [same]
  · exact handled.fromQueue

/-- Another thread wakes a task, which may happen at any point of the loop. -/
theorem notify_step {s t : Scheduler} (h : s.step .notify = some t) : RotateStep s .notify t := by
  cases h
  exact .aside rfl rfl rfl

theorem store_step {s t : Scheduler} {target : TaskRef} (wf : s.alg.registry.slab.WellFormed)
    (h : s.step (.store target) = some t) : RotateStep s (.store target) t := by
  cases h
  exact .aside rfl (storeRunnable_pc s target) (storeRunnable_handled wf target).fromQueue

theorem rotate_step {s t : Scheduler} {e : Event} (sound : Sound s) (pc : s.pc = .rotate)
    (frontOpen : FrontOpen s) (h : s.step e = some t) : RotateStep s e t := by
  cases e with
  | call c => simp [step, call, pc] at h
  | notify => exact notify_step h
  | store target => exact store_step sound.wf h
  | poll w => simp [step, poll, pc] at h
  | run =>
    simp only [step, run, pc] at h
    cases front : s.alg.fromQueue.head? with
    | none =>
      have empty := List.head?_eq_none_iff.mp front
      rw [front] at h
      cases h
      exact .leaves rfl pc rfl empty empty
    | some key =>
      obtain ⟨task, found, free⟩ := Option.map_eq_some_iff.mp (frontOpen pc key front)
      rw [front] at h
      simp only [visit, found, free, ne_eq, not_true_eq_false, if_false,
        pollLocal_eq sound pc found, Option.some.injEq] at h
      cases h
      exact .begins key rfl pc rfl rfl
  | done isReady => simp [step, done, pc] at h
  | panic => simp [step, panic, pc] at h

theorem polling_step {s t : Scheduler} {e : Event} {key : TaskKey} (sound : Sound s)
    (pc : s.pc = .polling key) (calm : e ≠ .panic) (h : s.step e = some t) : RotateStep s e t := by
  cases e with
  | call c =>
    simp only [step, call, pc, Option.some.injEq] at h
    cases h
    exact .aside rfl (perform_pc s c) (perform_fromQueue sound.wf c)
  | notify => exact notify_step h
  | store target => exact store_step sound.wf h
  | poll w => simp [step, poll, pc] at h
  | run => simp [step, run, pc] at h
  | done isReady =>
    obtain ⟨after, eq, _, _, _, queue⟩ := done_spec sound pc isReady
    rw [step, eq] at h
    cases h
    exact .ends key isReady rfl pc (sound.front key (congrArg Pc.pollingAt pc)) rfl queue
  | panic => exact absurd rfl calm

theorem rotating_step {s t : Scheduler} {e : Event} (sound : Sound s)
    (rotating : s.pc.rotating = true) (frontOpen : FrontOpen s) (calm : e ≠ .panic)
    (h : s.step e = some t) : RotateStep s e t := by
  cases pc : s.pc with
  | rotate => exact rotate_step sound pc frontOpen h
  | polling key => exact polling_step sound pc calm h
  | _ =>
    rw [pc] at rotating
    cases rotating

/-- What is left for the loop to do: two steps for each key and the last look. -/
def work (s : Scheduler) : Nat :=
  2 * s.alg.fromQueue.length + if s.pc = .rotate then 1 else 0

theorem RotateStep.work_lt {s t : Scheduler} {e : Event} (step : RotateStep s e t)
    (rotating : t.pc.rotating = true) : work t + (if e.advances then 1 else 0) ≤ work s := by
  cases step with
  | aside idle pc queue =>
    rw [work, work, pc, queue, idle]
    exact Nat.le_refl _
  | begins key event pc pc' queue =>
    rw [work, work, pc, pc', queue, event]
    exact Nat.le_refl _
  | ends key isReady event pc front pc' queue =>
    obtain ⟨rest, eq⟩ := List.head?_eq_some_iff.mp front
    rw [work, work, pc, pc', queue, event, eq, List.tail_cons, List.length_cons]
    simp [Event.advances]
    omega
  | leaves event pc pc' empty empty' =>
    rw [pc'] at rotating
    cases rotating

theorem RotateStep.taken_eq {s t : Scheduler} {e : Event} (step : RotateStep s e t) :
    s.alg.fromQueue = taken s e ++ t.alg.fromQueue := by
  cases step with
  | aside idle pc queue =>
    have none : taken s e = [] := by
      unfold taken
      split
      · cases idle
      · rfl
    rw [none, queue, List.nil_append]
  | begins key event pc pc' queue =>
    simp only [taken, pc, event, queue, List.nil_append]
  | ends key isReady event pc front pc' queue =>
    obtain ⟨rest, eq⟩ := List.head?_eq_some_iff.mp front
    simp only [taken, pc, event, queue, eq, List.tail_cons, List.cons_append, List.nil_append]
  | leaves event pc pc' empty empty' =>
    simp only [taken, pc, event, empty, empty', List.nil_append]

/-- The only way out of the loop. -/
theorem RotateStep.exits {s t : Scheduler} {e : Event} (step : RotateStep s e t)
    (rotating : s.pc.rotating = true) (left : ¬ t.pc.rotating = true) :
    t.pc = .scan ∧ t.alg.fromQueue = [] := by
  cases step with
  | aside idle pc queue => exact absurd (pc ▸ rotating) left
  | begins key event pc pc' queue => exact absurd (pc' ▸ rfl) left
  | ends key isReady event pc front pc' queue => exact absurd (pc' ▸ rfl) left
  | leaves event pc pc' empty empty' => exact ⟨pc', empty'⟩

/-- The loop looks at a key whose task it can neither poll nor take off the queue, or the
look has panicked. -/
def Jammed (s : Scheduler) : Prop :=
  s.pc = .broken ∨ s.pc = .rotate ∧ ∃ key, s.alg.fromQueue.head? = some key ∧
    ∀ task, s.alg.get key = some task → task.stopReason ≠ .none

theorem jammed_of_not_open {s : Scheduler} (shut : ¬ FrontOpen s) : Jammed s := by
  simp only [FrontOpen, Classical.not_imp, not_forall] at shut
  obtain ⟨pc, key, front, stopped⟩ := shut
  refine Or.inr ⟨pc, key, front, fun task found free => stopped ?_⟩
  rw [found, Option.map_some, free]

theorem visit_jammed {s : Scheduler} {key : TaskKey} (sound : Sound s) (pc : s.pc = .rotate)
    (front : s.alg.fromQueue.head? = some key)
    (stopped : ∀ task, s.alg.get key = some task → task.stopReason ≠ .none) :
    Jammed (s.visit key) := by
  unfold visit
  cases found : s.alg.get key with
  | none => exact Or.inl rfl
  | some task =>
    dsimp only
    rw [if_pos (stopped task found)]
    split
    · obtain ⟨after, removed, _, handled⟩ :=
        SchedulerAlgorithm.removeTask_handled sound.wf found
      have gone : after.get key = none := congrArg Spot.task handled.here
      rw [removed]
      refine Or.inr ⟨rfl, key, handled.fromQueue ▸ front, fun task' found' => ?_⟩
      rw [show ((s.proceed .rotate (some after)).alg.get key) = after.get key from rfl, gone] at found'
      cases found'
    · exact Or.inr ⟨pc, key, front, stopped⟩

theorem woken_reason {p : Spot} {tid : Tid} {task : DynamicFuture}
    (bound : (p.woken tid).task = some task) :
    ∃ old, p.task = some old ∧ task.stopReason = old.stopReason := by
  unfold Spot.woken at bound
  cases held : p.task with
  | none => simp [held] at bound
  | some old =>
    refine ⟨old, rfl, ?_⟩
    rw [held] at bound
    dsimp only at bound
    split at bound
    · rw [Spot.write, held] at bound
      cases bound
      rfl
    · rw [held] at bound
      cases bound
      rfl

/-- A wake changes no stop reason. -/
theorem storeRunnable_reason {s : Scheduler} (wf : s.alg.registry.slab.WellFormed)
    (target : TaskRef) {key : TaskKey}
    (stopped : ∀ task, s.alg.get key = some task → task.stopReason ≠ .none) (task : DynamicFuture)
    (found : (s.storeRunnable target).alg.get key = some task) : task.stopReason ≠ .none := by
  have handled := storeRunnable_handled wf target
  by_cases same : key = target.key
  · subst same
    have bound := congrArg Spot.task handled.here
    obtain ⟨old, held, reason⟩ := woken_reason (bound.symm.trans found)
    exact reason ▸ stopped old held
  · have bound := congrArg Spot.task (handled.other same)
    exact stopped task (bound.symm.trans found)

theorem jammed_step {s t : Scheduler} {e : Event} (sound : Sound s) (jammed : Jammed s)
    (h : s.step e = some t) : Jammed t := by
  rcases jammed with pc | ⟨pc, key, front, stopped⟩
  · cases e with
    | notify =>
      cases h
      exact Or.inl pc
    | store target =>
      cases h
      exact Or.inl ((storeRunnable_pc s target).trans pc)
    | call c => simp [step, call, pc] at h
    | poll w => simp [step, poll, pc] at h
    | run => simp [step, run, pc] at h
    | done isReady => simp [step, done, pc] at h
    | panic => simp [step, panic, pc] at h
  · cases e with
    | notify =>
      cases h
      exact Or.inr ⟨pc, key, front, stopped⟩
    | store target =>
      cases h
      have queue := (storeRunnable_handled sound.wf target).fromQueue
      exact Or.inr ⟨(storeRunnable_pc s target).trans pc, key, queue ▸ front,
        storeRunnable_reason sound.wf target stopped⟩
    | run =>
      simp only [step, run, pc, front, Option.some.injEq] at h
      cases h
      exact visit_jammed sound pc front stopped
    | call c => simp [step, call, pc] at h
    | poll w => simp [step, poll, pc] at h
    | done isReady => simp [step, done, pc] at h
    | panic => simp [step, panic, pc] at h

/-- From any reachable state in the loop of `rotate_once`, under any behaviour in which
each poll returns, the loop ends with every key of `from` taken off once, if and only if
no key it ever finds at the front is unregistered, suspended or cancelled. -/
theorem rotation_ends_iff {p : Play step} (reach : Reachable step (fun s => s = new) (p.state 0))
    (starts : (p.state 0).pc = .rotate) (returns : PollsReturn p) :
    RotationEnds p ↔
      ∀ n, (∀ i ≤ n, (p.state i).pc.rotating = true) → FrontOpen (p.state n) := by
  have sound : ∀ n, Sound (p.state n) := fun n => reachable_sound (p.reachable reach n)
  constructor
  · rintro ⟨m, scan, _, _, _⟩ n rotating
    by_contra shut
    have later : n ≤ m := by
      by_contra before
      have := rotating m (by omega)
      rw [scan] at this
      cases this
    have jammed := p.lasts (I := fun s => Sound s ∧ Jammed s)
      (fun s e t kept h => ⟨(step_change kept.1 h).sound kept.1, jammed_step kept.1 kept.2 h⟩)
      later ⟨sound n, jammed_of_not_open shut⟩
    rcases jammed.2 with broken | ⟨rotate, _⟩
    · rw [scan] at broken
      cases broken
    · rw [scan] at rotate
      cases rotate
  · intro frontOpen
    have steps : ∀ n, (∀ i ≤ n, (p.state i).pc.rotating = true) →
        RotateStep (p.state n) (p.event n) (p.state (n + 1)) := fun n rotating =>
      rotating_step (sound n) (rotating n (Nat.le_refl n)) (frontOpen n rotating) (returns.calm n)
        (p.taken n)
    have lowers : ∀ n, (∀ i ≤ n + 1, (p.state i).pc.rotating = true) →
        work (p.state (n + 1)) + (if (p.event n).advances then 1 else 0) ≤ work (p.state n) :=
      fun n rotating => (steps n fun i before => rotating i (by omega)).work_lt
        (rotating (n + 1) (Nat.le_refl _))
    obtain ⟨m, left, before⟩ := p.leaves (P := fun s => s.pc.rotating = true) returns.goesOn lowers
    have kept : ∀ n ≤ m, (p.state 0).alg.fromQueue = takenBy p n ++ (p.state n).alg.fromQueue := by
      intro n
      induction n with
      | zero => exact fun _ => rfl
      | succ n ih =>
        intro inside
        have here := (steps n fun i hi => before i (by omega)).taken_eq
        rw [ih (by omega), takenBy, List.append_assoc, ← here]
    cases m with
    | zero => exact absurd (starts ▸ rfl) left
    | succ m =>
      have inside := before m (Nat.lt_succ_self m)
      obtain ⟨scan, empty⟩ := (steps m fun i hi => before i (by omega)).exits inside left
      exact ⟨m + 1, scan, empty, before, kept⟩

theorem suspended_still {s : Scheduler} {key : TaskKey} {task : DynamicFuture}
    (pc : s.pc = .rotate) (front : s.alg.fromQueue.head? = some key)
    (found : s.alg.get key = some task) (suspended : task.stopReason = .suspended) :
    s.step .run = some s := by
  simp [step, run, pc, front, visit, found, suspended]

theorem notify_still {s : Scheduler} (quiet : s.alg.lastWaker = none) :
    s.step .notify = some s := by
  simp [step, setLastWaker, ← quiet]

/-- A rotation over two tasks, of which the second one is ready at once. -/
theorem rotation_ends_iff_ready : ∃ p : Play step,
    (p.state 0).alg.fromQueue = [0, 1] ∧ RotationEnds p := by
  let es : List Event := [.call (.register ⟨false, .none⟩), .call (.register ⟨false, .none⟩), .poll 0] ++
    List.replicate 5 .run
  let fs : List Event := [.run, .done false, .run, .done true, .run]
  let s := last step new es
  let t := last step s fs
  have reach : Reachable step (fun s => s = new) s :=
    ⟨new, es, rfl, exec_last (by decide +kernel)⟩
  have run : exec step s fs = some t := exec_last (by decide +kernel)
  have quiet : t.alg.lastWaker = none := by decide +kernel
  let p : Play step := .settle fs .notify run (notify_still quiet)
  have final : ∀ n, 5 ≤ n → p.state n = t := fun n past => Play.settle_state run _ past
  have out : t.pc.rotating = false := by decide +kernel
  have short : ∀ n, (p.state n).pc.rotating = true → n < 5 := by
    intro n rotating
    by_contra past
    rw [final n (by omega), out] at rotating
    cases rotating
  have returns : PollsReturn p := by
    refine ⟨fun n => ?_, fun n rotating => ⟨4, ?_, rfl⟩⟩
    · match n with
      | 0 | 1 | 2 | 3 | 4 | n + 5 => exact nofun
    · have := short n rotating
      omega
  have queue : s.alg.fromQueue = [0, 1] := by decide +kernel
  have starts : s.pc = .rotate := by decide +kernel
  refine ⟨p, queue, (rotation_ends_iff reach starts returns).mpr fun n rotating => ?_⟩
  have inside := short n (rotating n (Nat.le_refl n))
  have frontOpen : ∀ n < 5, FrontOpen (last step s (fs.take n)) := by decide +kernel
  exact frontOpen n inside

/-- Where the loop starts with a suspended key at the front, as after `suspend` of a task
that is still queued, it looks at that key for ever. -/
theorem suspended_front_spins : ¬ ∀ p : Play step,
    Reachable step (fun s => s = new) (p.state 0) → (p.state 0).pc = .rotate → PollsReturn p →
      RotationEnds p := by
  intro claim
  let es : List Event := [.call (.register ⟨false, .none⟩), .call (.suspend 0), .poll 0,
    .run, .run, .run, .run, .run]
  let s := last step new es
  have reach : Reachable step (fun s => s = new) s :=
    ⟨new, es, rfl, exec_last (by decide +kernel)⟩
  have pc : s.pc = .rotate := by decide +kernel
  have front : s.alg.fromQueue.head? = some 0 := by decide +kernel
  have reason : (s.alg.get 0).map DynamicFuture.stopReason = some .suspended := by decide +kernel
  obtain ⟨task, found, suspended⟩ := Option.map_eq_some_iff.mp reason
  let p : Play step := .settle [] .run rfl (suspended_still pc front found suspended)
  have same : ∀ n, p.state n = s := fun n => by simp [p, Play.settle, last, exec]
  have event : ∀ n, p.event n = .run := fun n => rfl
  obtain ⟨m, scan, _⟩ := claim p ((same 0).symm ▸ reach) ((same 0).symm ▸ pc)
    ⟨fun n => by rintro ⟨⟩, fun n _ => ⟨n, Nat.le_refl n, rfl⟩⟩
  rw [same, pc] at scan
  cases scan

end Scheduler
end Juggle.Dy
