import Juggle.Dy.Queues

/-! Every key stands in one container: the queue invariant of the scheduler with queues,
for the runs that do not double a key and leave no cancelled one behind. -/
namespace Juggle.Dy
open Juggle.Utils Juggle.Runs

namespace Spot

def places (p : Spot) : Nat := p.inFrom + p.inTo + p.inDeferred

/-- A key stands in one container at most, and a task that may be polled stands in one.
Only the task under way can be in a runnable queue without being runnable. -/
structure Tidy (current : Bool) (p : Spot) : Prop where
  known : p.task = none → p.places = 0
  once : p.places ≤ 1
  placed : ∀ task, p.task = some task → task.stopReason = .none → p.places = 1
  ready : ∀ task, p.task = some task → current = false → 0 < p.inFrom + p.inTo →
    task.runnable = true

/-- A successful `resume` puts the key into `to`. -/
def rejoins (current : Bool) (p : Spot) : Bool :=
  p.task.any fun task => decide (task.stopReason = .suspended) && (task.runnable || current)

section Steps
variable {current : Bool} {p : Spot}

theorem tidy_none (gone : p.task = none) (none : p.places = 0) : Tidy current p where
  known _ := none
  once := none ▸ Nat.zero_le 1
  placed task bound := by rw [gone] at bound; cases bound
  ready task bound := by rw [gone] at bound; cases bound

theorem tidy_some {task : DynamicFuture} (bound : p.task = some task) (once : p.places ≤ 1)
    (placed : task.stopReason = .none → p.places = 1)
    (ready : current = false → 0 < p.inFrom + p.inTo → task.runnable = true) : Tidy current p where
  known gone := by rw [bound] at gone; cases gone
  once := once
  placed task' bound' := by
    rw [bound] at bound'
    cases bound'
    exact placed
  ready task' bound' := by
    rw [bound] at bound'
    cases bound'
    exact ready

@[simp] theorem task_write (f : DynamicFuture → DynamicFuture) :
    (p.write f).task = p.task.map f := rfl

theorem Tidy.spawned (tidy : Tidy current p) (fresh : p.task = none) (tid : Tid)
    (params : SpawnParams) : Tidy current (p.spawned (DynamicFuture.new tid params)) := by
  have none := tidy.known fresh
  simp only [places] at none
  unfold Spot.spawned
  split
  · rename_i suspended
    refine tidy_some rfl ?_ (fun free => ?_) (fun _ _ => rfl)
    · simp only [places, setTask]
      omega
    · rw [suspended] at free
      cases free
  · refine tidy_some rfl ?_ (fun _ => ?_) (fun _ _ => rfl)
    · simp only [places, setTask, setTo]
      omega
    · simp only [places, setTask, setTo]
      omega

theorem Tidy.resumed (tidy : Tidy current p)
    (alone : p.rejoins current = true → p.inFrom = 0 ∧ p.inDeferred = 0) :
    Tidy current (p.resumed current) := by
  unfold Spot.resumed
  cases bound : p.task with
  | none => exact tidy
  | some task =>
    have once := tidy.once
    have ready := tidy.ready task bound
    simp only [places] at once
    have task' := congrArg (Option.map (DynamicFuture.setStopReason .none)) bound
    dsimp only
    split
    · rename_i suspended
      split
      · rename_i joins
        obtain ⟨noFrom, noDeferred⟩ := alone (by simpa [rejoins, bound, suspended] using joins)
        have one : (p.setTo (max 1 p.inTo)).places = 1 := by
          simp only [places, setTo]
          omega
        refine tidy_some task' (Nat.le_of_eq one) (fun _ => one) (fun idle _ => ?_)
        simp only [idle, Bool.or_false] at joins
        exact joins
      · rename_i waits
        simp only [Bool.or_eq_true, not_or, Bool.not_eq_true] at waits
        -- a task that is not under way is runnable while it is queued
        have noQueue : p.inFrom + p.inTo = 0 := by
          by_contra queued
          have := ready waits.2 (by omega)
          rw [waits.1] at this
          cases this
        have one : (p.setDeferred (max 1 p.inDeferred)).places = 1 := by
          simp only [places, setDeferred]
          omega
        refine tidy_some task' (Nat.le_of_eq one) (fun _ => one) (fun _ queued => ?_)
        simp only [setDeferred, write] at queued
        omega
    · exact tidy

theorem Tidy.suspended (tidy : Tidy current p) : Tidy current p.suspended := by
  unfold Spot.suspended
  cases bound : p.task with
  | none => exact tidy
  | some task =>
    have task' := congrArg (Option.map (DynamicFuture.setStopReason .suspended)) bound
    have ready := tidy.ready task bound
    dsimp only
    split
    · split
      · exact tidy_some task' tidy.once nofun ready
      · refine tidy_some task' (Nat.le_trans ?_ tidy.once) nofun ready
        simp only [places, setDeferred, write]
        omega
    · exact tidy

theorem Tidy.cancelled (tidy : Tidy current p) : Tidy current p.cancelled := by
  unfold Spot.cancelled
  cases bound : p.task with
  | none => exact tidy
  | some task =>
    have task' := congrArg (Option.map (DynamicFuture.setStopReason .cancelled)) bound
    dsimp only
    split
    · exact tidy_some task' tidy.once nofun (tidy.ready task bound)
    · exact tidy

theorem Tidy.woken (tidy : Tidy current p) (tid : Tid) : Tidy current (p.woken tid) := by
  unfold Spot.woken
  cases bound : p.task with
  | none => exact tidy
  | some task =>
    have task' := congrArg (Option.map (DynamicFuture.setRunnable true)) bound
    dsimp only
    split
    · exact tidy_some task' tidy.once (tidy.placed task bound) (fun _ _ => rfl)
    · exact tidy

/-- The key stands in `deferred` and so nowhere else. -/
theorem Tidy.drained (tidy : Tidy current p) (stands : 0 < p.inDeferred) :
    Tidy current p.drained := by
  unfold Spot.drained
  cases bound : p.task with
  | none => exact tidy
  | some task =>
    have once := tidy.once
    simp only [places] at once
    dsimp only
    split
    · rename_i suspended
      refine tidy_some bound ?_ (fun free => ?_) (fun _ queued => ?_)
      · simp only [places, setDeferred]
        omega
      · rw [suspended] at free
        cases free
      · simp only [setDeferred] at queued
        omega
    · split
      · refine tidy_none rfl ?_
        simp only [places, setDeferred, setTask]
        omega
      · split
        · rename_i runnable
          have one : ((p.setDeferred (p.inDeferred - 1)).setFrom (p.inFrom + 1)).places = 1 := by
            simp only [places, setDeferred, setFrom]
            omega
          exact tidy_some bound (Nat.le_of_eq one) (fun _ => one) (fun _ _ => runnable)
        · exact tidy

theorem Tidy.pollBegun (tidy : Tidy current p) (front : 0 < p.inFrom) {task : DynamicFuture}
    (bound : p.task = some task) : Tidy true p.pollBegun := by
  have one : p.places = 1 := by
    have once := tidy.once
    simp only [places] at once ⊢
    omega
  have task' := congrArg (Option.map fun t => (t.setPolling true).setRunnable false) bound
  exact tidy_some task' (Nat.le_of_eq one) (fun _ => one) nofun

/-- The polled key stood at the front of `from` and so nowhere else. -/
theorem Tidy.places_unguarded (tidy : Tidy current p) (front : 0 < p.inFrom) :
    p.unguarded.places = 0 := by
  have once := tidy.once
  simp only [places, Spot.unguarded, setFrom, write] at once ⊢
  omega

/-- The polled key leaves `from` for good, as is right for a stopped task. -/
theorem Tidy.unguarded (tidy : Tidy current p) (front : 0 < p.inFrom)
    (stopped : ∀ task ∈ p.task, task.stopReason ≠ .none) : Tidy false p.unguarded := by
  have none := tidy.places_unguarded front
  cases bound : p.task with
  | none => exact tidy_none (congrArg (Option.map (DynamicFuture.setPolling false)) bound) none
  | some task =>
    have task' := congrArg (Option.map (DynamicFuture.setPolling false)) bound
    refine tidy_some task' (none ▸ Nat.zero_le 1) (fun free => ?_) (fun _ queued => ?_)
    · exact absurd free (stopped task bound)
    · simp only [places] at none
      omega

theorem Tidy.polled (tidy : Tidy current p) (front : 0 < p.inFrom) (isReady : Bool) :
    Tidy false (p.unguarded.polled isReady) := by
  have none := tidy.places_unguarded front
  unfold Spot.polled
  cases bound : p.unguarded.task with
  | none => exact tidy_none bound none
  | some task =>
    simp only [places] at none
    dsimp only
    split
    · refine tidy_none rfl ?_
      simp only [places, setTask]
      omega
    · split
      · split
        · rename_i runnable
          have one : (p.unguarded.setTo (p.unguarded.inTo + 1)).places = 1 := by
            simp only [places, setTo]
            omega
          exact tidy_some bound (Nat.le_of_eq one) (fun _ => one) (fun _ _ => runnable)
        · have one : (p.unguarded.setDeferred (p.unguarded.inDeferred + 1)).places = 1 := by
            simp only [places, setDeferred]
            omega
          refine tidy_some bound (Nat.le_of_eq one) (fun _ => one) (fun _ queued => ?_)
          simp only [setDeferred] at queued
          omega
      · rename_i asleep
        refine tidy_some bound ?_ (fun free => ?_) (fun _ queued => ?_)
        · simp only [places]
          omega
        · rw [free] at asleep
          exact absurd (by decide) asleep
        · omega

/-- With an empty `from` the scan leaves a cancelled key in `deferred` alone. -/
theorem Tidy.swept (tidy : Tidy current p) (empty : p.inFrom = 0)
    (clean : p.isCancelled = true → p.inDeferred = 0) : Tidy current p.swept := by
  unfold Spot.swept
  split
  · rename_i cancelled
    have none := clean cancelled
    exact tidy_none rfl (by simp only [places, setTo, setTask]; omega)
  · exact tidy

theorem Tidy.turned (tidy : Tidy current p) : Tidy current p.turned := by
  have swap : p.turned.places = p.places := by
    simp only [places, Spot.turned, setFrom, setTo]
    omega
  refine ⟨fun gone => swap ▸ tidy.known gone, swap ▸ tidy.once,
    fun task bound free => swap ▸ tidy.placed task bound free, fun task bound idle queued => ?_⟩
  simp only [Spot.turned, setFrom, setTo] at queued
  exact tidy.ready task bound idle (by omega)

end Steps
end Spot

namespace SchedulerAlgorithm

/-- The two runnable queues and `deferred`, taken together. -/
def queued (alg : SchedulerAlgorithm) : List TaskKey :=
  alg.runnable.1 ++ alg.runnable.2 ++ alg.deferred

/-- The queues and the registry fit together. -/
structure QueueInvariant (alg : SchedulerAlgorithm) : Prop where
  registered : ∀ key ∈ alg.queued, (alg.get key).isSome = true
  once : alg.queued.Nodup
  placed : ∀ key task, alg.get key = some task → task.stopReason = .none →
    alg.queued.count key = 1

/-- A `resume` of this key is going to put it into the queue `to`. -/
def rejoins (alg : SchedulerAlgorithm) (key : TaskKey) : Bool :=
  match alg.get key with
  | some task => decide (task.stopReason = .suspended) && alg.enqueues key task
  | none => false

theorem count_queued (alg : SchedulerAlgorithm) (key : TaskKey) :
    alg.queued.count key = (alg.spot key).places := by
  simp only [queued, List.count_append, spot, Spot.places, fromQueue, toQueue]
  split
  · rw [Nat.add_comm (alg.runnable.1.count key)]
  · rfl

theorem rejoins_spot (alg : SchedulerAlgorithm) (key : TaskKey) :
    (alg.spot key).rejoins (decide (alg.current = some key)) = alg.rejoins key := by
  unfold Spot.rejoins rejoins spot
  cases alg.get key <;> rfl

theorem QueueInvariant.of_tidy {alg : SchedulerAlgorithm} {current : TaskKey → Bool}
    (tidy : ∀ key, (alg.spot key).Tidy (current key)) : QueueInvariant alg where
  registered key stands := by
    by_contra gone
    have none := (tidy key).known (Option.not_isSome_iff_eq_none.mp gone)
    rw [← count_queued] at none
    exact List.count_eq_zero.mp none stands
  once := List.nodup_iff_count_le_one.mpr fun key => count_queued alg key ▸ (tidy key).once
  placed key task found free := (count_queued alg key).trans ((tidy key).placed task found free)

end SchedulerAlgorithm

namespace Scheduler

/-- The step is not one of those on which the code goes wrong: a cancelled key at the
front of `from`, a `resume` into `to` of a key that stands elsewhere, a scan that leaves
a cancelled key in `deferred`, a panic in the poll of a task that is not stopped. -/
def Harmless (s : Scheduler) : Event → Prop
  | .call (.resume key) =>
    s.alg.rejoins key = true → key ∉ s.alg.fromQueue ∧ key ∉ s.alg.deferred
  | .run =>
    (s.pc = .rotate → ∀ key ∈ s.alg.fromQueue.head?, s.alg.isCancelled key = false) ∧
    (s.pc = .scan → s.alg.scanRegistry = true →
      ∀ key ∈ s.alg.deferred, s.alg.isCancelled key = false)
  | .panic => ∀ key ∈ s.pc.pollingAt, ∀ task ∈ s.alg.get key, task.stopReason ≠ .none
  | _ => True

instance decidableHarmless (s : Scheduler) : ∀ e, Decidable (Harmless s e)
  | .call (.resume key) => inferInstanceAs
      (Decidable (s.alg.rejoins key = true → key ∉ s.alg.fromQueue ∧ key ∉ s.alg.deferred))
  | .run => inferInstanceAs (Decidable
      ((s.pc = .rotate → ∀ key ∈ s.alg.fromQueue.head?, s.alg.isCancelled key = false) ∧
        (s.pc = .scan → s.alg.scanRegistry = true →
          ∀ key ∈ s.alg.deferred, s.alg.isCancelled key = false)))
  | .panic => inferInstanceAs
      (Decidable (∀ key ∈ s.pc.pollingAt, ∀ task ∈ s.alg.get key, task.stopReason ≠ .none))
  | .call (.register _) | .call (.suspend _) | .call (.cancel _) | .call (.getState _)
  | .call (.getByName _) | .call .registeredCount | .call (.wake _) | .notify | .store _ | .poll _
  | .done _ => isTrue trivial

/-- Every key stands where it should. -/
def Queued (s : Scheduler) : Prop :=
  ∀ key, (s.alg.spot key).Tidy (decide (s.alg.current = some key))

/-- A step that changes one spot needs to be looked at there. -/
theorem queued_update {s t : Scheduler} {key : TaskKey} {q : Spot} (queued : Queued s)
    (spots : t.alg.spot = Function.update s.alg.spot key q)
    (here : q.Tidy (decide (t.alg.current = some key)))
    (current : ∀ k, k ≠ key → s.alg.current = some k → t.alg.current = some k) : Queued t := by
  intro k
  rw [spots]
  by_cases same : k = key
  · subst same
    rwa [Function.update_self]
  · rw [Function.update_of_ne same]
    have tidy := queued k
    refine ⟨tidy.known, tidy.once, tidy.placed, fun task bound idle => tidy.ready task bound ?_⟩
    simp only [decide_eq_false_iff_not] at idle ⊢
    exact fun under => idle (current k same under)

/-- The step ends the poll of the key that is at the front. -/
theorem queued_polled {s t : Scheduler} {key : TaskKey} {q : Spot} (sound : Sound s)
    (queued : Queued s) (at_pc : s.pc.pollingAt = some key)
    (spots : t.alg.spot = Function.update s.alg.spot key q)
    (here : 0 < (s.alg.spot key).inFrom → q.Tidy (decide (t.alg.current = some key))) :
    Queued t := by
  have under : s.alg.current = some key := sound.current.trans at_pc
  have front : 0 < (s.alg.spot key).inFrom :=
    List.count_pos_iff.mpr (List.mem_of_mem_head? (sound.front key at_pc))
  refine queued_update queued spots (here front) (fun k other own => ?_)
  rw [under] at own
  exact absurd (Option.some.inj own).symm other

theorem Request.tidy {s : Scheduler} {e : Event} {key : TaskKey} {q : Spot}
    (queued : Queued s) (harmless : Harmless s e)
    (request : Request (decide (s.alg.current = some key)) e key (s.alg.spot key) q) :
    q.Tidy (decide (s.alg.current = some key)) := by
  have tidy := queued key
  cases request with
  | spawn tid params fresh => exact tidy.spawned fresh tid params
  | resume event =>
    subst event
    refine tidy.resumed (fun joins => ?_)
    rw [SchedulerAlgorithm.rejoins_spot] at joins
    obtain ⟨noFrom, noDeferred⟩ := harmless joins
    exact ⟨List.count_eq_zero.mpr noFrom, List.count_eq_zero.mpr noDeferred⟩
  | suspend => exact tidy.suspended
  | cancel => exact tidy.cancelled
  | wake tid => exact tidy.woken tid

/-- A registered key is where it stands, so no `unwrap` or `expect` fails. -/
theorem Queued.no_stray {s : Scheduler} (queued : Queued s) : ¬ Stray s := by
  have places : ∀ key, s.alg.get key = none → (s.alg.spot key).places = 0 :=
    fun key gone => (queued key).known gone
  intro stray
  cases stray with
  | inDeferred key stands gone =>
    have none := places key gone
    have some : 0 < (s.alg.spot key).inDeferred := List.count_pos_iff.mpr stands
    simp only [Spot.places] at none
    omega
  | inFrom key pc front gone =>
    have none := places key gone
    have some : 0 < (s.alg.spot key).inFrom :=
      List.count_pos_iff.mpr (List.mem_of_mem_head? front)
    simp only [Spot.places] at none
    omega
  | inTo key stands gone =>
    have none := places key gone
    have some : 0 < (s.alg.spot key).inTo := List.count_pos_iff.mpr stands
    simp only [Spot.places] at none
    omega

theorem Change.queued {s t : Scheduler} {e : Event} (sound : Sound s) (queued : Queued s)
    (harmless : Harmless s e) (change : Change s e t) : Queued t := by
  cases change with
  | still spots registry current fromQueue pc empty =>
    intro key
    rw [spots, current]
    exact queued key
  | request key q request handled pc =>
    refine queued_update queued handled.spots ?_ (fun k _ under => handled.current.trans under)
    rw [handled.current]
    exact request.tidy queued harmless
  | drained elem pc stands moves pc' =>
    refine queued_update queued moves.spots ?_ (fun k _ under => moves.current.trans under)
    rw [moves.current]
    exact (queued elem).drained (List.count_pos_iff.mpr stands)
  | condemned key event pc front cancelled handled pc' =>
    subst event
    have live := harmless.1 pc key front
    rw [cancelled] at live
    cases live
  | pollBegun key task event pc front found reason wf spots current fromQueue pc' =>
    have idle : s.alg.current = none := sound.current.trans (congrArg Pc.pollingAt pc)
    refine queued_update queued spots ?_ (fun k _ under => by rw [idle] at under; cases under)
    rw [current, decide_eq_true rfl]
    exact (queued key).pollBegun (List.count_pos_iff.mpr (List.mem_of_mem_head? front)) found
  | polled key isReady event pc wf spots current fromQueue pc' =>
    have at_pc : s.pc.pollingAt = some key := congrArg Pc.pollingAt pc
    refine queued_polled sound queued at_pc spots (fun front => ?_)
    rw [current]
    exact (queued key).polled front isReady
  | panicked key event pc wf spots current pc' =>
    subst event
    have at_pc : s.pc.pollingAt = some key := congrArg Pc.pollingAt pc
    refine queued_polled sound queued at_pc spots (fun front => ?_)
    rw [current]
    exact (queued key).unguarded front (harmless key at_pc)
  | scanned event pc wf spots current pc' =>
    subst event
    intro key
    rw [spots, current]
    split
    · rename_i asked
      have empty : (s.alg.spot key).inFrom = 0 :=
        List.count_eq_zero.mpr (by rw [sound.empty pc]; exact List.not_mem_nil)
      refine (queued key).swept empty (fun cancelled => List.count_eq_zero.mpr fun stands => ?_)
      have live := harmless.2 pc asked key stands
      rw [SchedulerAlgorithm.isCancelled_spot, live] at cancelled
      cases cancelled
    · exact queued key
  | turned beatResult pc registry spots current pc' =>
    intro key
    rw [spots, current]
    exact (queued key).turned
  | broke stray alg pc pc' => exact absurd stray queued.no_stray

theorem Change.alive {s t : Scheduler} {e : Event} (queued : Queued s) (alive : s.pc ≠ .broken)
    (change : Change s e t) : t.pc ≠ .broken := by
  cases change with
  | still spots registry current fromQueue pc empty =>
    rcases pc with pc | ⟨_, _, other⟩
    · exact pc ▸ alive
    · exact other
  | request key q request handled pc =>
    rcases pc with pc | ⟨_, pc⟩
    · exact pc ▸ alive
    · exact pc ▸ nofun
  | drained elem pc stands moves pc' =>
    obtain ⟨second, prev, index, pc'⟩ := pc'
    exact pc' ▸ nofun
  | condemned key event pc front cancelled handled pc' => exact pc' ▸ nofun
  | pollBegun key task event pc front found reason wf spots current fromQueue pc' => exact pc' ▸ nofun
  | polled key isReady event pc wf spots current fromQueue pc' => exact pc' ▸ nofun
  | panicked key event pc wf spots current pc' => exact pc' ▸ nofun
  | scanned event pc wf spots current pc' => exact pc' ▸ nofun
  | turned beatResult pc registry spots current pc' =>
    rcases pc' with pc' | ⟨v, pc'⟩ <;> exact pc' ▸ nofun
  | broke stray alg pc pc' => exact absurd stray queued.no_stray

theorem new_queued : Queued new := fun _ =>
  Spot.tidy_none rfl rfl

namespace Pc

/-- `beat_once` is not running. -/
def betweenBeats : Pc → Bool
  | .idle => true
  | .clear => true
  | .returned _ => true
  | _ => false

end Pc

/-- A task that is cancelled while its key waits in a queue: the loop removes the task and
leaves the key at the front, where it finds no task the next time. -/
theorem cancelled_front_breaks : ¬ ∀ es s, exec step new es = some s →
    s.pc ≠ .broken ∧ (s.pc.betweenBeats = true → s.alg.QueueInvariant) := by
  intro claim
  have broken : (last step new [.call (.register ⟨false, .none⟩), .call (.cancel 0), .poll 0,
      .run, .run, .run, .run, .run, .run, .run]).pc = .broken := by decide +kernel
  exact (claim _ _ (exec_last (by decide +kernel))).1 broken

/-- In a run of harmless steps no `unwrap` or `expect` fails, and in each of its states,
not only between two beats, every key that stands in a container is registered, none
stands twice, and every task that may be polled stands in exactly one of them. -/
theorem queues_keep_tasks {s : Scheduler} {es : List Event} (run : exec step new es = some s)
    (harmless : Along step (fun s e _ => Harmless s e) new es) :
    s.pc ≠ .broken ∧ s.alg.QueueInvariant := by
  have kept : ∀ s e t, (Sound s ∧ Queued s ∧ s.pc ≠ .broken) → step s e = some t → Harmless s e →
      Sound t ∧ Queued t ∧ t.pc ≠ .broken := by
    rintro s e t ⟨sound, queued, alive⟩ taken harmless
    have change := step_change sound taken
    exact ⟨change.sound sound, change.queued sound queued harmless, change.alive queued alive⟩
  obtain ⟨_, queued, alive⟩ :=
    invariant_along kept ⟨new_sound, new_queued, nofun⟩ run harmless
  exact ⟨alive, .of_tidy queued⟩

/-- One of two tasks resumes the other, goes on waiting and is woken. -/
theorem queues_keep_tasks_resuming :
    let s := last step new [.call (.register ⟨false, .none⟩), .call (.register ⟨true, .none⟩),
      .poll 0, .run, .run, .run, .run, .run, .run, .call (.resume 1), .done false, .run, .run, .run,
      .run, .notify, .store ⟨0, 0⟩, .run, .run, .run]
    s.pc ≠ .broken ∧ s.alg.QueueInvariant :=
  queues_keep_tasks (exec_last (by decide +kernel)) (by decide +kernel)

end Scheduler
end Juggle.Dy
