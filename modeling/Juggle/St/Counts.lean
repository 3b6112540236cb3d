import Juggle.St.Invariant

/-! The two counters of the static wheel and the answers that `poll_internal` reads off
them. Each counter is right in every run that stays clear of a few steps, which are
named here. -/
namespace Juggle.St
open Juggle.Utils Juggle.Count Juggle.Runs

namespace StaticFuture

/-- The task has finished, or it is cancelled and `beat_once` has dropped it. -/
def terminated (task : StaticFuture) : Bool :=
  decide (task.stopReason = .finished ∨ (task.stopReason = .cancelled ∧ task.ended = true))

def isSuspended (task : StaticFuture) : Bool :=
  decide (task.stopReason = .suspended ∨ task.stopReason = .restartSuspended)

def unended (task : StaticFuture) : Bool := !task.ended

end StaticFuture

namespace Pc

/-- The `Cancelled` arm has not lowered `unfinished_count` yet. -/
def dropsCancelled : Pc → Bool
  | .inTask (.cancelled _) _ _ => true
  | .back (.cancelled _) _ _ => true
  | _ => false

/-- No task is inside of `poll_protected`, nor is its result being dealt with. -/
def atRest : Pc → Bool
  | .inTask _ _ _ => false
  | .back _ _ _ => false
  | _ => true

end Pc

namespace Wheel

/-! The steps that put a counter out of balance. -/

/-- The sweep meets a `Cancelled` task that `beat_once` has already dropped. -/
def meetsDropped (s : Wheel) : Event → Bool
  | .run =>
    match s.pc with
    | .sweep _ key =>
      (s.get key).any (fun task => decide (task.stopReason = .cancelled) && task.ended)
    | _ => false
  | _ => false

/-- A `Cancelled` task is restarted before the sweep has dropped it. -/
def restartsUndropped (s : Wheel) : Event → Bool
  | .call session (.restart key) => s.isValid session &&
      (s.get key).any (fun task => decide (task.stopReason = .cancelled) && !task.ended)
  | _ => false

/-- The destructor of a cancelled task panics. -/
def panicsInDrop (s : Wheel) : Event → Bool
  | .panic => s.pc.dropsCancelled
  | _ => false

/-- A poll returns Ready while its own task is suspended. -/
def finishesSuspended (s : Wheel) : Event → Bool
  | .run =>
    match s.pc with
    | .back (.pollLocal _ _) key true => (s.get key).any StaticFuture.isSuspended
    | _ => false
  | _ => false

/-- `reset(false)` overwrites a suspension. -/
def resetsSuspended (s : Wheel) : Event → Bool
  | .run =>
    match s.pc with
    | .back (.restart _) key _ => (s.get key).any StaticFuture.isSuspended
    | .back (.restartSuspended _) key _ => (s.get key).any StaticFuture.isSuspended
    | _ => false
  | _ => false

/-- A task is cancelled while its reason is `RestartSuspended`. -/
def cancelsRestartSuspended (s : Wheel) : Event → Bool
  | .call session (.cancel key) => s.isValid session &&
      (s.get key).any (fun task => decide (task.stopReason = .restartSuspended))
  | _ => false

def unfinishedUpset (s : Wheel) (e : Event) : Bool :=
  s.meetsDropped e || s.restartsUndropped e || s.panicsInDrop e

def suspendedUpset (s : Wheel) (e : Event) : Bool :=
  s.finishesSuspended e || s.resetsSuspended e || s.cancelsRestartSuspended e

/-! `unfinished_count`. -/

/-- While the `Cancelled` arm drops its task, the counter still includes it. -/
structure UnfinishedCounted (s : Wheel) : Prop where
  count : s.alg.unfinishedCount =
    s.tasks.countP StaticFuture.unended + weight s.pc.dropsCancelled
  mark : s.alg.unfinishedWrapped = false

theorem StaticFuture.terminated_eq {s : Wheel} (sound : Sound s) {task : StaticFuture}
    (member : task ∈ s.tasks) : task.terminated = task.ended := by
  obtain ⟨k, found⟩ := List.mem_iff_getElem?.mp member
  have ended := sound.ended k task found
  have finished := sound.finished k task found
  unfold StaticFuture.terminated
  cases h : task.ended with
  | true => rcases ended h with reason | reason <;> simp [reason]
  | false =>
    have : task.stopReason ≠ .finished := fun reason => absurd (finished reason) (by simp [h])
    simp [this]

theorem dropsCancelled_atStage (c : Caller) (key : TaskKey) (stage : Stage) :
    (Pc.atStage c key stage).dropsCancelled = (Pc.back c key true).dropsCancelled := by
  cases stage <;> cases c <;> rfl

theorem Pc.dropsCancelled_of_free {pc : Pc} (free : pc.subject = none) :
    pc.dropsCancelled = false := by
  cases pc <;> first | rfl | cases free

/-- The thread enters and leaves the `Cancelled` arm at marked steps only. -/
theorem dropsCancelled_keeps {s s' : Wheel} {e : Event} (sound : Sound s) (move : Move s e s')
    (plain : e = .run → s.marks = false) (safe : s.panicsInDrop e = false) :
    s'.pc.dropsCancelled = s.pc.dropsCancelled := by
  cases move with
  | stay pc' => rw [pc']
  | settled v pc pc' => rw [pc', pc]; rfl
  | enter w event pc pc' => rcases pc with pc | ⟨v, pc⟩ <;> rw [pc', pc] <;> rfl
  | begins second event begins pc' =>
    cases begins with
    | clear pc => rw [pc', pc]; rfl
    | register pc => rw [pc', pc]; rfl
    | again b key pc => rw [pc', pc]; rfl
  | ended b key event pc past ended =>
    rw [pc, Pc.dropsCancelled_of_free ended.free.1]
    rfl
  | arm b key task c event pc found arm free entered =>
    have := plain event
    generalize reason : task.stopReason = r at arm
    cases arm <;> simp [marks, pc, found, reason] at this
  | pollBegin b key restart task c event pc found free caller entered =>
    rw [entered.pc', dropsCancelled_atStage, pc, caller]
    rfl
  | handled c key stage stage' write next pc handle staged =>
    obtain ⟨f, here, staged⟩ := sound.staged pc staged
    rw [staged.pc', dropsCancelled_atStage, pc]
    cases c <;> rfl
  | resumed c key isReady event pc pc' =>
    rw [pc', pc]
    cases c with
    | cancelled b =>
      have := plain event
      simp [marks, pc] at this
    | _ => rfl
  | unwound c key stage event pc code pc' =>
    subst event
    rw [pc']
    exact safe.symm
  | nested key event busy hand => exact (sound.not_nested busy hand).elim
  | _ => simp only [*, Pc.dropsCancelled]

theorem arm_dropsCancelled {s s' : Wheel} {b : Beat} {key : TaskKey} {task : StaticFuture}
    (sound : Sound s) (move : Move s .run s') (pc : s.pc = .sweep b key)
    (found : s.get key = some task)
    (arms : task.stopReason = .cancelled ∨ task.stopReason = .restart ∨
      task.stopReason = .restartSuspended) :
    s'.pc.dropsCancelled = decide (task.stopReason = .cancelled) := by
  cases move with
  | arm b' key' task' c event pc₂ found₂ arm free entered =>
    rw [pc] at pc₂
    cases pc₂
    rw [found] at found₂
    cases found₂
    rw [entered.pc', dropsCancelled_atStage]
    generalize task.stopReason = r at arm
    cases arm <;> rfl
  | skip b' key' task' event pc₂ found₂ rest =>
    rw [pc] at pc₂
    cases pc₂
    rw [found] at found₂
    cases found₂
    rcases arms with reason | reason | reason <;> simp [StaticFuture.hasWork, reason] at rest
  | choose b' key' task' event pc₂ found₂ reason =>
    rw [pc] at pc₂
    cases pc₂
    rw [found] at found₂
    cases found₂
    rw [reason] at arms
    simp at arms
  | begins second event begins pc' =>
    cases begins <;> simp_all
  | ended b' key' event pc₂ past =>
    rw [pc] at pc₂
    cases pc₂
    rw [found] at past
    cases past
  | nested key event busy hand => exact (sound.not_nested busy hand).elim
  | handled c key stage stage' write next pc₂ handle => exact absurd rfl handle.quiet
  | stay pc' quiet => exact absurd rfl quiet
  | settled v pc₂ pc' quiet => exact absurd rfl quiet
  | unwound c key stage event => cases event
  | enter w event => cases event
  | _ => simp_all

theorem back_goes {s s' : Wheel} {c : Caller} {key : TaskKey} {isReady : Bool} (sound : Sound s)
    (h : s.step .run = some s') (pc : s.pc = .back c key isReady) : s'.pc = Pc.after key c := by
  have session := sound.session
  simp only [step, run, pc] at h
  rw [pc] at session
  cases h
  cases c with
  | pollLocal b restart => cases isReady <;> rfl
  | cleanup unwinding => cases session
  | init suspended => cases session
  | _ => rfl

theorem setStopReason_unended (r : StopReason) (task : StaticFuture) :
    (task.setStopReason r).unended = task.unended := rfl

/-- `dec_unfinished` at a positive count. -/
theorem decUnfinished_pos {a : StaticAlgorithm} (pos : 0 < a.unfinishedCount) :
    a.decUnfinished.unfinishedCount = a.unfinishedCount - 1 ∧
      a.decUnfinished.unfinishedWrapped = a.unfinishedWrapped := by
  have ne : (a.unfinishedCount == 0) = false := by simp; omega
  simp [StaticAlgorithm.decUnfinished, wrappingDec_of_pos pos, ne]

theorem incUnfinished_lt {a : StaticAlgorithm} (room : a.unfinishedCount < usizeMax) :
    a.incUnfinished.unfinishedCount = a.unfinishedCount + 1 ∧
      a.incUnfinished.unfinishedWrapped = a.unfinishedWrapped := by
  have ne : (a.unfinishedCount == usizeMax) = false := by simp; omega
  simp [StaticAlgorithm.incUnfinished, wrappingInc_of_lt room, ne]

/-- What a step does to the unfinished count, in the counters alone. -/
theorem counters_unfinished {a b : StaticAlgorithm} (same : a.counters = b.counters) :
    a.unfinishedCount = b.unfinishedCount ∧ a.unfinishedWrapped = b.unfinishedWrapped :=
  ⟨congrArg Counters.unfinished same, congrArg Counters.unfinishedWrapped same⟩

theorem counters_suspended {a b : StaticAlgorithm} (same : a.counters = b.counters) :
    a.suspendedCount = b.suspendedCount ∧ a.suspendedWrapped = b.suspendedWrapped :=
  ⟨congrArg Counters.suspended same, congrArg Counters.suspendedWrapped same⟩

/-- Only a task that was counted off is counted again. -/
theorem restartCounts_unfinished (alg : StaticAlgorithm) {r : StopReason} (live : r ≠ .cancelled)
    (unfinished : r ≠ .finished) :
    (alg.restartCounts r).unfinishedCount = alg.unfinishedCount ∧
      (alg.restartCounts r).unfinishedWrapped = alg.unfinishedWrapped := by
  cases r with
  | cancelled => exact absurd rfl live
  | finished => exact absurd rfl unfinished
  | _ => exact ⟨rfl, rfl⟩

theorem countP_of_modify {s s' : Wheel} {key : TaskKey} {task : StaticFuture}
    {f : StaticFuture → StaticFuture} (p : StaticFuture → Bool) (found : s.get key = some task)
    (tasks : s'.tasks = s.tasks.modify key f) :
    s'.tasks.countP p + weight (p task) = s.tasks.countP p + weight (p (f task)) := by
  rw [tasks]
  exact countP_modify_weight p f found

/-- The step keeps both sides: no task is ended or revived, and the counter stays. -/
theorem UnfinishedCounted.keep {s s' : Wheel} (inv : UnfinishedCounted s)
    (tasks : s'.tasks.countP StaticFuture.unended = s.tasks.countP StaticFuture.unended)
    (pc : s'.pc.dropsCancelled = s.pc.dropsCancelled)
    (count : s'.alg.unfinishedCount = s.alg.unfinishedCount)
    (mark : s'.alg.unfinishedWrapped = s.alg.unfinishedWrapped) : UnfinishedCounted s' where
  count := by rw [count, tasks, pc]; exact inv.count
  mark := mark.trans inv.mark

/-- The task at one key changes, but is not ended or revived. -/
theorem UnfinishedCounted.along {s s' : Wheel} (inv : UnfinishedCounted s) {key : TaskKey}
    {f : StaticFuture → StaticFuture} (same : ∀ t : StaticFuture, (f t).unended = t.unended)
    (tasks : s'.tasks = s.tasks.modify key f) (pc : s'.pc.dropsCancelled = s.pc.dropsCancelled)
    (counts : s'.alg.unfinishedCount = s.alg.unfinishedCount ∧
      s'.alg.unfinishedWrapped = s.alg.unfinishedWrapped) : UnfinishedCounted s' := by
  refine inv.keep ?_ pc counts.1 counts.2
  rw [tasks]
  exact countP_modify_same _ _ _ _ same

/-- A restart, which counts an ended task again. -/
theorem UnfinishedCounted.restarted {s s' : Wheel} (inv : UnfinishedCounted s) (sound : Sound s)
    {key : TaskKey} {task : StaticFuture} (found : s.get key = some task)
    (undropped : task.ended = false → task.stopReason ≠ .cancelled)
    (pc : s'.pc.dropsCancelled = s.pc.dropsCancelled)
    (tasks : s'.tasks = s.tasks.modify key (fun t => (t.setStopReason .restart).setEnded false))
    (counts : s'.alg.counters = (s.alg.restartCounts task.stopReason).counters) :
    UnfinishedCounted s' := by
  obtain ⟨count, mark⟩ := counters_unfinished counts
  have total := countP_of_modify StaticFuture.unended found tasks
  have after : ((task.setStopReason .restart).setEnded false).unended = true := rfl
  rw [after, weight_true] at total
  have here := inv.count
  have bound : s'.tasks.countP StaticFuture.unended ≤ s.tasks.length := by
    have length : s'.tasks.length = s.tasks.length := by rw [tasks, List.length_modify]
    exact length ▸ List.countP_le_length
  have small := sound.small
  have le := weight_le_one s.pc.dropsCancelled
  cases ended : task.ended with
  | true =>
    have before : task.unended = false := by simp [StaticFuture.unended, ended]
    rw [before, weight_false] at total
    have inc := incUnfinished_lt (a := s.alg) (by omega)
    have adjusts : s.alg.restartCounts task.stopReason = s.alg.incUnfinished := by
      rcases sound.ended key task found ended with reason | reason <;> rw [reason] <;> rfl
    rw [adjusts] at count mark
    refine ⟨?_, mark.trans (inc.2.trans inv.mark)⟩
    rw [count, inc.1, pc]
    omega
  | false =>
    have before : task.unended = true := by simp [StaticFuture.unended, ended]
    rw [before, weight_true] at total
    have unfinished : task.stopReason ≠ .finished := fun reason =>
      absurd (sound.finished key task found reason) (by simp [ended])
    have same := restartCounts_unfinished s.alg (undropped ended) unfinished
    exact inv.keep (by omega) pc (count.trans same.1) (mark.trans same.2)

/-- An arm of the sweep. The task to be dropped is ended now and counted off when its future
is gone. -/
theorem UnfinishedCounted.armed {s s' : Wheel} (inv : UnfinishedCounted s) {key : TaskKey}
    {task : StaticFuture} {f : StaticFuture → StaticFuture} (found : s.get key = some task)
    (outside : s.pc.dropsCancelled = false)
    (inside : s'.pc.dropsCancelled = decide (task.stopReason = .cancelled))
    (arm : (task.stopReason = .cancelled ∧ task.ended = false ∧ (f task).ended = true) ∨
      (task.stopReason ≠ .cancelled ∧ (f task).ended = task.ended))
    (tasks : s'.tasks = s.tasks.modify key f) (counts : s'.alg.counters = s.alg.counters) :
    UnfinishedCounted s' := by
  obtain ⟨count, mark⟩ := counters_unfinished counts
  have total := countP_of_modify StaticFuture.unended found tasks
  have here := inv.count
  rw [outside, weight_false] at here
  refine ⟨?_, mark.trans inv.mark⟩
  rw [count, inside]
  rcases arm with ⟨held, alive, ended⟩ | ⟨other, same⟩
  · simp only [StaticFuture.unended, alive, ended, Bool.not_true, Bool.not_false, weight_true,
      weight_false] at total
    simp only [held, decide_true, weight_true]
    omega
  · simp only [StaticFuture.unended, same] at total
    simp only [other, decide_false, weight_false]
    omega

/-- The counter is lowered, for a future that was dropped or a task that has finished. -/
theorem UnfinishedCounted.lower {s s' : Wheel} (inv : UnfinishedCounted s)
    (left : s'.pc.dropsCancelled = false)
    (tasks : s'.tasks.countP StaticFuture.unended + 1 =
      s.tasks.countP StaticFuture.unended + weight s.pc.dropsCancelled)
    (counts : s'.alg.counters = s.alg.decUnfinished.counters) : UnfinishedCounted s' := by
  obtain ⟨count, mark⟩ := counters_unfinished counts
  have here := inv.count
  have dec := decUnfinished_pos (a := s.alg) (by omega)
  refine ⟨?_, mark.trans (dec.2.trans inv.mark)⟩
  rw [count, dec.1, left, weight_false]
  omega

theorem unfinished_step {s s' : Wheel} {e : Event} (sound : Sound s) (goes_on : e ≠ .drop)
    (h : s.step e = some s') (safe : s.unfinishedUpset e = false) (inv : UnfinishedCounted s) :
    UnfinishedCounted s' := by
  have move := step_move sound.session goes_on h
  simp only [unfinishedUpset, Bool.or_eq_false_iff] at safe
  obtain ⟨⟨undropped, swept⟩, quiet⟩ := safe
  have keeps := fun plain => dropsCancelled_keeps sound move plain quiet
  cases step_change sound.session goes_on h with
  | quiet key f blind plain tasks counts =>
    exact inv.along (fun t => by simp [StaticFuture.unended, (blind t).2]) tasks (keeps plain)
      (counters_unfinished counts)
  | resume session key task event valid found held tasks counts =>
    obtain ⟨count, mark⟩ := counters_unfinished counts
    exact inv.along (setStopReason_unended _) tasks (keeps (by simp [event])) ⟨count, mark⟩
  | suspend session key task r event valid found free tasks counts =>
    obtain ⟨count, mark⟩ := counters_unfinished counts
    exact inv.along (setStopReason_unended _) tasks (keeps (by simp [event])) ⟨count, mark⟩
  | cancel session key task event valid found live tasks counts =>
    obtain ⟨count, mark⟩ := counters_unfinished counts
    refine inv.along (setStopReason_unended _) tasks (keeps (by simp [event])) ?_
    rw [count, mark]
    split <;> exact ⟨rfl, rfl⟩
  | restart session key task event valid found fresh tasks counts =>
    refine inv.restarted sound found (fun alive reason => ?_) (keeps (by simp [event])) tasks counts
    simp [restartsUndropped, event, valid, found, reason, alive] at swept
  | arm b key task f event pc found reason tasks counts =>
    subst event
    have inside := arm_dropsCancelled sound move pc found (by
      rcases reason with ⟨h, _⟩ | ⟨h, _⟩ | ⟨h, _⟩ <;> simp [h])
    refine inv.armed found (by rw [pc]; rfl) inside ?_ tasks counts
    rcases reason with ⟨held, _, ended⟩ | ⟨held, _, same⟩ | ⟨held, _, same⟩
    · have alive : task.ended = false := by
        cases ended : task.ended with
        | false => rfl
        | true => simp [meetsDropped, pc, found, held, ended] at undropped
      exact .inl ⟨held, alive, ended⟩
    · exact .inr ⟨by simp [held], same⟩
    · exact .inr ⟨by simp [held], same⟩
  | discharged b key isReady event pc tasks counts =>
    subst event
    have after := back_goes sound h pc
    refine inv.lower (by rw [after]; rfl) ?_ counts
    rw [tasks, pc]
    rfl
  | reset b c key isReady event pc arm tasks counts =>
    subst event
    have after := back_goes sound h pc
    refine inv.along (fun t => ?_) tasks ?_ (counters_unfinished counts)
    · simp [StaticFuture.unended, StaticFuture.reset]
    · rw [after, pc]
      rcases arm with rfl | rfl <;> rfl
  | finished b restart key event pc tasks counts =>
    subst event
    have after := back_goes sound h pc
    obtain ⟨task, found⟩ := sound.found (k := key) (by rw [pc]; rfl)
    have alive := sound.living key task (by rw [pc]; rfl) found
    have total := countP_of_modify StaticFuture.unended found tasks
    have before : task.unended = true := by simp [StaticFuture.unended, alive]
    have gone : ((task.setStopReason .finished).setEnded true).unended = false := rfl
    rw [gone, before, weight_true, weight_false] at total
    refine inv.lower (by rw [after]; rfl) ?_ counts
    rw [pc]
    exact total

/-! `suspended_count`. -/

structure SuspendedCounted (s : Wheel) : Prop where
  count : s.alg.suspendedCount = s.tasks.countP StaticFuture.isSuspended
  mark : s.alg.suspendedWrapped = false

theorem decSuspended_pos {a : StaticAlgorithm} (pos : 0 < a.suspendedCount) :
    a.decSuspended.suspendedCount = a.suspendedCount - 1 ∧
      a.decSuspended.suspendedWrapped = a.suspendedWrapped := by
  have ne : (a.suspendedCount == 0) = false := by simp; omega
  simp [StaticAlgorithm.decSuspended, wrappingDec_of_pos pos, ne]

theorem incSuspended_lt {a : StaticAlgorithm} (room : a.suspendedCount < usizeMax) :
    a.incSuspended.suspendedCount = a.suspendedCount + 1 ∧
      a.incSuspended.suspendedWrapped = a.suspendedWrapped := by
  have ne : (a.suspendedCount == usizeMax) = false := by simp; omega
  simp [StaticAlgorithm.incSuspended, wrappingInc_of_lt room, ne]

/-- The task at one key may change, but not whether it is suspended. -/
theorem SuspendedCounted.keep {s s' : Wheel} (inv : SuspendedCounted s)
    (tasks : s'.tasks.countP StaticFuture.isSuspended = s.tasks.countP StaticFuture.isSuspended)
    (count : s'.alg.suspendedCount = s.alg.suspendedCount)
    (mark : s'.alg.suspendedWrapped = s.alg.suspendedWrapped) : SuspendedCounted s' where
  count := by rw [count, tasks]; exact inv.count
  mark := mark.trans inv.mark

/-- A suspended task becomes another one, and the counter is lowered. -/
theorem SuspendedCounted.lower {s s' : Wheel} (inv : SuspendedCounted s) {key : TaskKey}
    {task : StaticFuture} {f : StaticFuture → StaticFuture} (found : s.get key = some task)
    (held : task.isSuspended = true) (freed : (f task).isSuspended = false)
    (tasks : s'.tasks = s.tasks.modify key f)
    (counts : s'.alg.counters = s.alg.decSuspended.counters) : SuspendedCounted s' := by
  obtain ⟨count, mark⟩ := counters_suspended counts
  have total := countP_of_modify StaticFuture.isSuspended found tasks
  rw [held, freed, weight_true, weight_false] at total
  have here := inv.count
  have dec := decSuspended_pos (a := s.alg) (by omega)
  refine ⟨?_, mark.trans (dec.2.trans inv.mark)⟩
  rw [count, dec.1]
  omega

/-- The task at one key changes, and the counter stays. -/
theorem SuspendedCounted.along {s s' : Wheel} (inv : SuspendedCounted s) {key : TaskKey}
    {task : StaticFuture} {f : StaticFuture → StaticFuture} (found : s.get key = some task)
    (same : (f task).isSuspended = task.isSuspended) (tasks : s'.tasks = s.tasks.modify key f)
    (count : s'.alg.suspendedCount = s.alg.suspendedCount)
    (mark : s'.alg.suspendedWrapped = s.alg.suspendedWrapped) : SuspendedCounted s' := by
  have total := countP_of_modify StaticFuture.isSuspended found tasks
  rw [same] at total
  exact inv.keep (by omega) count mark

theorem isSuspended_eq_false {t : StaticFuture} (no : t.stopReason ≠ .suspended)
    (no' : t.stopReason ≠ .restartSuspended) : t.isSuspended = false := by
  simp [StaticFuture.isSuspended, no, no']

theorem suspended_step {s s' : Wheel} {e : Event} (sound : Sound s) (goes_on : e ≠ .drop)
    (h : s.step e = some s') (safe : s.suspendedUpset e = false) (inv : SuspendedCounted s) :
    SuspendedCounted s' := by
  have change := step_change sound.session goes_on h
  simp only [suspendedUpset, Bool.or_eq_false_iff] at safe
  obtain ⟨⟨unfinished, unreset⟩, uncancelled⟩ := safe
  cases change with
  | quiet key f blind plain tasks counts =>
    obtain ⟨count, mark⟩ := counters_suspended counts
    refine inv.keep ?_ count mark
    rw [tasks]
    exact countP_modify_same _ _ _ _ (fun t => by simp [StaticFuture.isSuspended, (blind t).1])
  | resume session key task event valid found held tasks counts =>
    exact inv.lower found (by simp [StaticFuture.isSuspended, held])
      rfl tasks counts
  | suspend session key task r event valid found free tasks counts =>
    obtain ⟨count, mark⟩ := counters_suspended counts
    have total := countP_of_modify StaticFuture.isSuspended found tasks
    have before : task.isSuspended = false := by
      rcases free with ⟨held, _⟩ | ⟨held, _⟩ <;> simp [StaticFuture.isSuspended, held]
    have after : (task.setStopReason r).isSuspended = true := by
      rcases free with ⟨_, rfl⟩ | ⟨_, rfl⟩ <;> rfl
    rw [before, after, weight_true, weight_false] at total
    have here := inv.count
    have small := sound.small
    have bound : s'.tasks.countP StaticFuture.isSuspended ≤ s.tasks.length := by
      rw [← (step_change sound.session goes_on h).length_eq]
      exact List.countP_le_length
    have inc := incSuspended_lt (a := s.alg) (by omega)
    refine ⟨?_, mark.trans (inc.2.trans inv.mark)⟩
    rw [count, inc.1]
    omega
  | restart session key task event valid found fresh tasks counts =>
    cases reason : task.stopReason with
    | suspended =>
      rw [reason] at counts
      exact inv.lower found (by simp [StaticFuture.isSuspended, reason])
        rfl tasks counts
    | restartSuspended =>
      rw [reason] at counts
      exact inv.lower found (by simp [StaticFuture.isSuspended, reason])
        rfl tasks counts
    | _ =>
      obtain ⟨count, mark⟩ := counters_suspended counts
      rw [reason] at count mark
      refine inv.along found ?_ tasks count mark
      rw [isSuspended_eq_false (t := task) (by simp [reason]) (by simp [reason])]
      rfl
  | cancel session key task event valid found live tasks counts =>
    by_cases reason : task.stopReason = .suspended
    · rw [if_pos reason] at counts
      exact inv.lower found (by simp [StaticFuture.isSuspended, reason])
        rfl tasks counts
    · rw [if_neg reason] at counts
      obtain ⟨count, mark⟩ := counters_suspended counts
      have other : task.stopReason ≠ .restartSuspended := by
        intro bad
        simp [cancelsRestartSuspended, event, valid, found, bad] at uncancelled
      refine inv.along found ?_ tasks count mark
      rw [isSuspended_eq_false reason other]
      rfl
  | arm b key task f event pc found reason tasks counts =>
    obtain ⟨count, mark⟩ := counters_suspended counts
    refine inv.along found ?_ tasks count mark
    rcases reason with ⟨held, after, _⟩ | ⟨held, after, _⟩ | ⟨held, after, _⟩ <;>
      simp [StaticFuture.isSuspended, held, after]
  | discharged b key isReady event pc tasks counts =>
    obtain ⟨count, mark⟩ := counters_suspended counts
    exact inv.keep (by rw [tasks]) count mark
  | reset b c key isReady event pc arm tasks counts =>
    obtain ⟨count, mark⟩ := counters_suspended counts
    obtain ⟨task, found⟩ := sound.found (k := key) (by rw [pc]; rfl)
    have free : task.isSuspended = false := by
      rcases arm with rfl | rfl <;> simpa [resetsSuspended, event, pc, found] using unreset
    refine inv.along found ?_ tasks count mark
    rw [free]
    exact isSuspended_eq_false (by simp [StaticFuture.reset, StaticFuture.resetReason])
      (by simp [StaticFuture.reset, StaticFuture.resetReason])
  | finished b restart key event pc tasks counts =>
    obtain ⟨count, mark⟩ := counters_suspended counts
    obtain ⟨task, found⟩ := sound.found (k := key) (by rw [pc]; rfl)
    have free : task.isSuspended = false := by
      simpa [finishesSuspended, event, pc, found] using unfinished
    refine inv.along found ?_ tasks count mark
    rw [free]
    rfl

/-! The answers. -/

/-- The answer that is being given is the one the counters call for. -/
structure Decided (s : Wheel) : Prop where
  ready : ∀ f, s.pc = .finish f ∨ s.pc = .returned (.ready f) →
    f = decide (s.alg.unfinishedCount = 0) ∧
      (s.alg.unfinishedCount = 0 ∨ s.alg.unfinishedCount = s.alg.suspendedCount)
  pending : s.pc = .returned .pending →
    ¬ (s.alg.unfinishedCount = 0 ∨ s.alg.unfinishedCount = s.alg.suspendedCount)

theorem call_leaves {s s' : Wheel} {session : Nat} {c : Call} {v : Verdict}
    (h : s.step (.call session c) = some s') (pc : s.pc = .returned v) : s'.pc = .idle := by
  simp only [step, call] at h
  split at h
  · cases h
    split
    · simp only [settle, perform_pc, pc]
      rfl
    · simp only [settle, pc]
      rfl
  · cases h

theorem Change.counters_eq {s s' : Wheel} {e : Event} (change : Change s e s')
    (quiet : ∀ session c, e ≠ .call session c) (own : e = .run → s.marks = false) :
    s'.alg.counters = s.alg.counters := by
  cases change with
  | quiet key f blind plain tasks counts => exact counts
  | resume session key task event => exact absurd event (quiet _ _)
  | suspend session key task r event => exact absurd event (quiet _ _)
  | restart session key task event => exact absurd event (quiet _ _)
  | cancel session key task event => exact absurd event (quiet _ _)
  | arm b key task f event pc found reason tasks counts => exact counts
  | discharged b key isReady event pc => exact absurd (own event) (by simp [marks, pc])
  | reset b c key isReady event pc arm tasks counts => exact counts
  | finished b restart key event pc => exact absurd (own event) (by simp [marks, pc])

theorem Decided.keep {s s' : Wheel} (decided : Decided s)
    (ready : ∀ f, s'.pc = .finish f ∨ s'.pc = .returned (.ready f) →
      s.pc = .finish f ∨ s.pc = .returned (.ready f))
    (pending : s'.pc = .returned .pending → s.pc = .returned .pending)
    (same : s'.pc.subject = none → s'.alg.counters = s.alg.counters) : Decided s' where
  ready f at_end := by
    have counters := same (by rcases at_end with pc | pc <;> rw [pc] <;> rfl)
    rw [(counters_unfinished counters).1, (counters_suspended counters).1]
    exact decided.ready f (ready f at_end)
  pending at_end := by
    have counters := same (by rw [at_end]; rfl)
    rw [(counters_unfinished counters).1, (counters_suspended counters).1]
    exact decided.pending (pending at_end)

theorem decided_of_busy {s : Wheel} (busy : s.pc.subject ≠ none) : Decided s := by
  constructor
  · intro f at_end
    rcases at_end with pc | pc <;> exact absurd (by rw [pc]; rfl) busy
  · intro pc
    exact absurd (by rw [pc]; rfl) busy

theorem decided_step {s s' : Wheel} {e : Event} (sound : Sound s) (goes_on : e ≠ .drop)
    (h : s.step e = some s') (decided : Decided s) : Decided s' := by
  have change := step_change sound.session goes_on h
  cases step_move sound.session goes_on h with
  | stay pc' quiet =>
    by_cases at_end : (∃ f, s.pc = .finish f) ∨ ∃ v, s.pc = .returned v
    · refine decided.keep (fun f at_end => pc' ▸ at_end) (fun at_end => pc' ▸ at_end) (fun _ => ?_)
      refine change.counters_eq ?_ (fun event => absurd event quiet)
      rintro session c rfl
      rcases at_end with ⟨f, pc⟩ | ⟨v, pc⟩
      · have opens := call_open h
        simp [userCode, pc] at opens
      · rw [call_leaves h pc, pc] at pc'
        cases pc'
    · constructor
      · intro f at_end'
        rw [pc'] at at_end'
        rcases at_end' with pc | pc
        · exact absurd (.inl ⟨f, pc⟩) at_end
        · exact absurd (.inr ⟨_, pc⟩) at_end
      · intro pc
        rw [pc'] at pc
        exact absurd (.inr ⟨_, pc⟩) at_end
  | answer finished event pc pc' =>
    have counters := change.counters_eq (by simp [event]) (fun _ => by simp [marks, pc])
    constructor
    · intro f at_end
      rw [(counters_unfinished counters).1, (counters_suspended counters).1]
      rw [pc'] at at_end
      rcases at_end with at_end | at_end <;> cases at_end
      exact decided.ready finished (.inl pc)
    · intro at_end
      rw [pc'] at at_end
      cases at_end
  | ended b key event pc past ended =>
    have counters := change.counters_eq (by simp [event]) (fun _ => by simp [marks, pc, past])
    constructor
    · intro f at_end
      rw [(counters_unfinished counters).1, (counters_suspended counters).1]
      rcases at_end with at_end | at_end
      · rw [at_end] at ended
        cases ended with
        | finish second quiet sleeps => exact ⟨rfl, sleeps⟩
      · rw [at_end] at ended
        cases ended
    · intro at_end
      rw [(counters_unfinished counters).1, (counters_suspended counters).1]
      rw [at_end] at ended
      cases ended with
      | pending second quiet waits => exact waits
  | arm b key task c event pc found arm free entered =>
    have busy : s'.pc.subject ≠ none := by rw [entered.pc', Pc.atStage_subject]; rintro ⟨⟩
    exact decided_of_busy busy
  | pollBegin b key restart task c event pc found free caller entered =>
    have busy : s'.pc.subject ≠ none := by rw [entered.pc', Pc.atStage_subject]; rintro ⟨⟩
    exact decided_of_busy busy
  | handled c key stage stage' write next pc handle staged =>
    obtain ⟨f, here, staged⟩ := sound.staged pc staged
    have busy : s'.pc.subject ≠ none := by rw [staged.pc', Pc.atStage_subject]; rintro ⟨⟩
    exact decided_of_busy busy
  | resumed c key isReady event pc pc' =>
    constructor
    · intro f at_end
      rw [pc'] at at_end
      cases c <;> rcases at_end with at_end | at_end <;> cases at_end
    · intro at_end
      rw [pc'] at at_end
      cases c <;> cases at_end
  | nested key event busy hand => exact (sound.not_nested busy hand).elim
  | _ =>
    constructor
    · intro f at_end
      simp_all
    · intro at_end
      simp_all

/-! The results. -/

/-- No step of a session that upsets `unfinished_count`. -/
def keepsUnfinished (s : Wheel) (e : Event) : Bool := continues e && !s.unfinishedUpset e

def keepsSuspended (s : Wheel) (e : Event) : Bool := continues e && !s.suspendedUpset e

theorem Fresh.unfinishedCounted {s : Wheel} (fresh : Fresh s) : UnfinishedCounted s where
  count := by
    have all : s.tasks.countP StaticFuture.unended = s.tasks.length := by
      rw [List.countP_eq_length]
      intro task member
      simp [StaticFuture.unended, (fresh.tasks task member).alive]
    rw [all, fresh.pc]
    exact fresh.unfinished
  mark := fresh.unfinishedMark

theorem Fresh.suspendedCounted {s : Wheel} (fresh : Fresh s) : SuspendedCounted s where
  count := by
    rw [fresh.suspended]
    refine List.countP_congr (fun task member => ?_)
    have reason := (fresh.tasks task member).reason
    simp only [StaticFuture.resetReason] at reason
    cases starts : task.startSuspended <;> simp [StaticFuture.isSuspended, reason, starts]
  mark := fresh.suspendedMark

theorem Fresh.decided {s : Wheel} (fresh : Fresh s) : Decided s := by
  constructor
  · intro f at_end
    rw [fresh.pc] at at_end
    rcases at_end with h | h <;> cases h
  · intro at_end
    rw [fresh.pc] at at_end
    cases at_end

theorem goes_on_of_continues {e : Event} (goes_on : continues e = true) : e ≠ .drop := by
  rintro rfl
  cases goes_on

/-- A count that each step keeps unless it upsets it. -/
theorem counted_run {Counted : Wheel → Prop} {upset : Wheel → Event → Bool} {s t : Wheel}
    {es : List Event} (begins : Counted s)
    (keeps : ∀ {r r' : Wheel} {e : Event}, Sound r → e ≠ .drop → r.step e = some r' →
      upset r e = false → Counted r → Counted r')
    (fresh : Fresh s) (run : exec step s es = some t)
    (safe : Along step (fun s e _ => (continues e && !upset s e) = true) s es) :
    Sound t ∧ Counted t ∧ Decided t := by
  refine invariant_along (I := fun s => Sound s ∧ Counted s ∧ Decided s) ?_
    ⟨fresh.sound, begins, fresh.decided⟩ run safe
  rintro r e r' ⟨sound, inv, decided⟩ h safe
  obtain ⟨goes_on, calm⟩ := Bool.and_eq_true_iff.mp safe
  have goes_on := goes_on_of_continues goes_on
  exact ⟨step_sound sound goes_on h, keeps sound goes_on h (by simpa using calm) inv,
    decided_step sound goes_on h decided⟩

theorem unfinished_run {s t : Wheel} {es : List Event} (fresh : Fresh s)
    (run : exec step s es = some t)
    (safe : Along step (fun s e _ => s.keepsUnfinished e = true) s es) :
    Sound t ∧ UnfinishedCounted t ∧ Decided t :=
  counted_run fresh.unfinishedCounted unfinished_step fresh run safe

theorem suspended_run {s t : Wheel} {es : List Event} (fresh : Fresh s)
    (run : exec step s es = some t)
    (safe : Along step (fun s e _ => s.keepsSuspended e = true) s es) :
    Sound t ∧ SuspendedCounted t ∧ Decided t :=
  counted_run fresh.suspendedCounted suspended_step fresh run safe

/-- What `unfinished_count` and the answer Ready(true) are to say about the tasks. -/
structure UnfinishedRight (s : Wheel) : Prop where
  counted : s.pc.atRest = true →
    s.alg.unfinishedCount = s.tasks.countP (fun task => !task.terminated)
  unwrapped : s.alg.unfinishedWrapped = false
  finished : ∀ v, s.pc = .returned v →
    (v = .ready true ↔ ∀ task ∈ s.tasks, task.terminated = true)

theorem UnfinishedCounted.counted {s : Wheel} (sound : Sound s) (inv : UnfinishedCounted s)
    (rest : s.pc.atRest = true) :
    s.alg.unfinishedCount = s.tasks.countP (fun task => !task.terminated) := by
  have free : s.pc.dropsCancelled = false := by cases pc : s.pc <;> simp_all [Pc.atRest, Pc.dropsCancelled]
  rw [inv.count, free, weight_false, Nat.add_zero]
  refine List.countP_congr (fun task member => ?_)
  simp [StaticFuture.unended, StaticFuture.terminated_eq sound member]

/-- In a run without the steps that upset it, `unfinished_count` counts the tasks that are
not terminated, and the answer is Ready(true) when there are none. -/
theorem unfinishedCount_right {s t : Wheel} {es : List Event} (fresh : Fresh s)
    (run : exec step s es = some t)
    (safe : Along step (fun s e _ => s.keepsUnfinished e = true) s es) : UnfinishedRight t := by
  obtain ⟨sound, inv, decided⟩ := unfinished_run fresh run safe
  refine ⟨inv.counted sound, inv.mark, ?_⟩
  intro v pc
  have count := inv.counted sound (by rw [pc]; rfl)
  have zero : t.alg.unfinishedCount = 0 ↔ ∀ task ∈ t.tasks, task.terminated = true := by
    rw [count, List.countP_eq_zero]
    simp
  rw [← zero]
  cases v with
  | pending => exact ⟨nofun, fun none => absurd (.inl none) (decided.pending pc)⟩
  | ready f =>
    obtain ⟨known, _⟩ := decided.ready f (.inr pc)
    rw [known]
    simp

/-- One task runs, one starts suspended and is resumed when the first has finished. -/
def resumeLast : List Event :=
  [.poll 7, .run, .run, .run, .created, .done true, .dropped] ++ List.replicate 11 .run ++
  [.call 0 (.resume 1), .poll 8, .run, .run, .run, .run, .created, .done true, .dropped] ++
  List.replicate 10 .run

theorem unfinishedCount_right_resumeLast : ∃ t,
    exec step (opened [⟨false, none⟩, ⟨true, none⟩]) resumeLast = some t ∧
    t.pc = .returned (.ready true) ∧ UnfinishedRight t := by
  have ends : (exec step (opened [⟨false, none⟩, ⟨true, none⟩]) resumeLast).any
      (fun t => t.pc = .returned (.ready true)) = true := by decide +kernel
  obtain ⟨t, run, pc⟩ := (Option.any_eq_true _ _).mp ends
  have small : [StaticParams.mk false none, ⟨true, none⟩].length < usizeMax := by
    simp [usizeMax]
  exact ⟨t, run, by simpa using pc,
    unfinishedCount_right (opened_fresh small) run (by decide +kernel)⟩

/-- The only task is cancelled from outside, then the wheel is polled. -/
def cancelOnly : List Event := [.call 0 (.cancel 0), .poll 7] ++ List.replicate 8 .run

/-- Both sweeps of the call count the task off; the counter wraps and the answer is
Pending. -/
theorem cancelOnly_not_right : Fresh (opened [⟨false, none⟩]) ∧
    ∃ t, exec step (opened [⟨false, none⟩]) cancelOnly = some t ∧ t.pc = .returned .pending ∧
    (∀ task ∈ t.tasks, task.terminated = true) ∧ t.alg.unfinishedCount = usizeMax ∧
    t.alg.unfinishedWrapped = true ∧ ¬ UnfinishedRight t := by
  have ends : (exec step (opened [⟨false, none⟩]) cancelOnly).any (fun t =>
      t.pc = .returned .pending ∧ (∀ task ∈ t.tasks, task.terminated = true) ∧
      t.alg.unfinishedCount = usizeMax ∧ t.alg.unfinishedWrapped = true) = true := by
    decide +kernel
  obtain ⟨t, run, facts⟩ := (Option.any_eq_true _ _).mp ends
  obtain ⟨pc, all, count, mark⟩ := of_decide_eq_true facts
  refine ⟨opened_fresh (by simp [usizeMax]), t, run, pc, all, count, mark, ?_⟩
  intro right
  exact absurd right.unwrapped (by simp [mark])

/-- What `suspended_count` is to say about the tasks. -/
structure SuspendedRight (s : Wheel) : Prop where
  counted : s.alg.suspendedCount = s.tasks.countP StaticFuture.isSuspended
  unwrapped : s.alg.suspendedWrapped = false

/-- Ready(false) is reported only when every task that is not terminated is suspended. -/
def SuspendErrorRight (s : Wheel) : Prop :=
  s.pc = .returned (.ready false) →
    ∀ task ∈ s.tasks, task.terminated = false → task.isSuspended = true

theorem suspendError_right {s : Wheel} (sound : Sound s) (unfinished : UnfinishedCounted s)
    (suspended : SuspendedCounted s) (decided : Decided s) : SuspendErrorRight s := by
  intro pc
  obtain ⟨known, sleeps⟩ := decided.ready false (.inr pc)
  have some_left : ¬ s.alg.unfinishedCount = 0 := by simpa using known
  have equal := sleeps.resolve_left some_left
  rw [unfinished.counted sound (by rw [pc]; rfl), suspended.count] at equal
  have sub : ∀ task ∈ s.tasks, task.isSuspended = true → (!task.terminated) = true := by
    intro task _ held
    simp only [StaticFuture.isSuspended, decide_eq_true_eq] at held
    rcases held with reason | reason <;> simp [StaticFuture.terminated, reason]
  have all := (countP_eq_iff_of_imp _ _ s.tasks sub).mp equal.symm
  intro task member alive
  exact all task member (by simp [alive])

/-- In a run without the steps that upset it, `suspended_count` counts the suspended
tasks. When `unfinished_count` is not upset either, Ready(false) is never reported while
a task could still run. -/
theorem suspendedCount_right {s t : Wheel} {es : List Event} (fresh : Fresh s)
    (run : exec step s es = some t)
    (safe : Along step (fun s e _ => s.keepsSuspended e = true) s es) :
    SuspendedRight t ∧
    (Along step (fun s e _ => s.keepsUnfinished e = true) s es → SuspendErrorRight t) := by
  obtain ⟨sound, suspended, decided⟩ := suspended_run fresh run safe
  refine ⟨⟨suspended.count, suspended.mark⟩, fun safe' => ?_⟩
  obtain ⟨_, unfinished, _⟩ := unfinished_run fresh run safe'
  exact suspendError_right sound unfinished suspended decided

/-- The first task suspends itself and is resumed by the second, which then suspends both. -/
def suspendBoth : List Event :=
  [.poll 7, .run, .run, .run, .created, .call 0 (.suspend 0), .done false, .run, .run, .run,
    .created, .call 0 (.resume 0), .call 0 (.suspend 0), .call 0 (.suspend 1), .done false] ++
  List.replicate 10 .run

theorem suspendedCount_right_suspendBoth : ∃ t,
    exec step (opened [⟨false, none⟩, ⟨false, none⟩]) suspendBoth = some t ∧
    t.pc = .returned (.ready false) ∧ t.alg.suspendedCount = 2 ∧ SuspendedRight t ∧
    SuspendErrorRight t := by
  have ends : (exec step (opened [⟨false, none⟩, ⟨false, none⟩]) suspendBoth).any (fun t =>
      t.pc = .returned (.ready false) ∧ t.alg.suspendedCount = 2) = true := by decide +kernel
  obtain ⟨t, run, facts⟩ := (Option.any_eq_true _ _).mp ends
  obtain ⟨pc, count⟩ := of_decide_eq_true facts
  have small : [StaticParams.mk false none, ⟨false, none⟩].length < usizeMax := by
    simp [usizeMax]
  have right := suspendedCount_right (opened_fresh small) run (by decide +kernel)
  exact ⟨t, run, pc, count, right.1, right.2 (by decide +kernel)⟩

/-- A task suspends itself and returns Ready in the same poll; the other one waits. -/
def suspendAndFinish : List Event :=
  [.poll 7, .run, .run, .run, .created, .call 0 (.suspend 0), .done true, .dropped, .run, .run,
    .run, .created, .done false] ++ List.replicate 10 .run

/-- The wheel reports SuspendError although no task is suspended. -/
theorem suspendAndFinish_not_right : Fresh (opened [⟨false, none⟩, ⟨false, none⟩]) ∧
    ∃ t, exec step (opened [⟨false, none⟩, ⟨false, none⟩]) suspendAndFinish = some t ∧
    t.pc = .returned (.ready false) ∧ t.alg.suspendedCount = 1 ∧
    t.tasks.countP StaticFuture.isSuspended = 0 ∧ ¬ SuspendedRight t ∧ ¬ SuspendErrorRight t := by
  have ends : (exec step (opened [⟨false, none⟩, ⟨false, none⟩]) suspendAndFinish).any (fun t =>
      t.pc = .returned (.ready false) ∧ t.alg.suspendedCount = 1 ∧
      t.tasks.countP StaticFuture.isSuspended = 0 ∧
      ∃ task ∈ t.tasks, task.terminated = false) = true := by decide +kernel
  obtain ⟨t, run, facts⟩ := (Option.any_eq_true _ _).mp ends
  obtain ⟨pc, count, none, task, member, alive⟩ := of_decide_eq_true facts
  refine ⟨opened_fresh (by simp [usizeMax]), t, run, pc, count, none, ?_, ?_⟩
  · intro right
    have counted := right.counted
    rw [count, none] at counted
    cases counted
  · intro right
    have held := right pc task member alive
    exact absurd held (List.countP_eq_zero.mp none task member)

end Wheel
end Juggle.St
