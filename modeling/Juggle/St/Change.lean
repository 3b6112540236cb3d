import Juggle.Lib.Count
import Juggle.St.Wheel

/-! What one step inside a session can do to the stop reasons and to the two counters.
The results on counts and on requests are derived from this classification. -/
namespace Juggle.St
open Juggle.Utils Juggle.Count

namespace Caller

/-- A caller inside of `beat_once`. -/
def inSession : Caller → Bool
  | .cleanup _ => false
  | .init _ => false
  | _ => true

end Caller

namespace Pc

/-- Between the end of `init` and the beginning of `dispose`. -/
def inSession : Pc → Bool
  | .unlocked => false
  | .dispose _ _ => false
  | .init _ _ => false
  | .inTask c _ _ => c.inSession
  | .back c _ _ => c.inSession
  | _ => true

end Pc

/-- An update that neither the stop reason nor the bookkeeping of ended tasks notices. -/
def Blind (f : StaticFuture → StaticFuture) : Prop :=
  ∀ t, (f t).stopReason = t.stopReason ∧ (f t).ended = t.ended

theorem Blind.comp {f g : StaticFuture → StaticFuture} (hg : Blind g) (hf : Blind f) :
    Blind (g ∘ f) :=
  fun t => ⟨(hg (f t)).1.trans (hf t).1, (hg (f t)).2.trans (hf t).2⟩

theorem blind_id : Blind id := fun _ => ⟨rfl, rfl⟩

/-- The two counters and their marks. -/
structure Counters where
  suspended : Nat
  unfinished : Nat
  suspendedWrapped : Bool
  unfinishedWrapped : Bool

def StaticAlgorithm.counters (alg : StaticAlgorithm) : Counters where
  suspended := alg.suspendedCount
  unfinished := alg.unfinishedCount
  suspendedWrapped := alg.suspendedWrapped
  unfinishedWrapped := alg.unfinishedWrapped

/-- The counters know nothing of the registry. -/
theorem update_incSuspended (alg : StaticAlgorithm) (key : TaskKey) (f : StaticFuture → StaticFuture) :
    (alg.update key f).incSuspended = alg.incSuspended.update key f := by
  simp only [StaticAlgorithm.incSuspended, StaticAlgorithm.update]

@[simp] theorem update_counters (alg : StaticAlgorithm) (key : TaskKey)
    (f : StaticFuture → StaticFuture) : (alg.update key f).counters = alg.counters := rfl

namespace Wheel

def tasks (s : Wheel) : List StaticFuture := s.alg.registry

/-- The next step of the wheel's own code writes a stop reason or a counter. -/
def marks (s : Wheel) : Bool :=
  match s.pc with
  | .sweep _ key =>
    match s.get key with
    | some task => decide (task.stopReason = .cancelled ∨ task.stopReason = .restart ∨
        task.stopReason = .restartSuspended)
    | none => false
  | .back (.pollLocal _ _) _ isReady => isReady
  | .back _ _ _ => true
  | _ => false

/-- The effect of a step of a session on stop reasons and counters. -/
inductive Change (s : Wheel) (e : Event) (s' : Wheel) : Prop where
  | quiet (key : TaskKey) (f : StaticFuture → StaticFuture) (blind : Blind f)
      (plain : e = .run → s.marks = false) (tasks : s'.tasks = s.tasks.modify key f)
      (counts : s'.alg.counters = s.alg.counters)
  | resume (session : Nat) (key : TaskKey) (task : StaticFuture)
      (event : e = .call session (.resume key)) (valid : s.isValid session = true)
      (found : s.get key = some task) (held : task.stopReason = .suspended)
      (tasks : s'.tasks = s.tasks.modify key (StaticFuture.setStopReason .none))
      (counts : s'.alg.counters = s.alg.decSuspended.counters)
  | suspend (session : Nat) (key : TaskKey) (task : StaticFuture) (r : StopReason)
      (event : e = .call session (.suspend key)) (valid : s.isValid session = true)
      (found : s.get key = some task)
      (free : (task.stopReason = .none ∧ r = .suspended) ∨
        (task.stopReason = .restart ∧ r = .restartSuspended))
      (tasks : s'.tasks = s.tasks.modify key (StaticFuture.setStopReason r))
      (counts : s'.alg.counters = s.alg.incSuspended.counters)
  | restart (session : Nat) (key : TaskKey) (task : StaticFuture)
      (event : e = .call session (.restart key)) (valid : s.isValid session = true)
      (found : s.get key = some task) (fresh : task.stopReason ≠ .restart)
      (tasks : s'.tasks = s.tasks.modify key (fun t => (t.setStopReason .restart).setEnded false))
      (counts : s'.alg.counters = (s.alg.restartCounts task.stopReason).counters)
  | cancel (session : Nat) (key : TaskKey) (task : StaticFuture)
      (event : e = .call session (.cancel key)) (valid : s.isValid session = true)
      (found : s.get key = some task) (live : task.stopReason ≠ .cancelled)
      (tasks : s'.tasks = s.tasks.modify key (StaticFuture.setStopReason .cancelled))
      (counts : s'.alg.counters =
        (if task.stopReason = .suspended then s.alg.decSuspended else s.alg).counters)
  /-- an arm of `beat_once` begins -/
  | arm (b : Beat) (key : TaskKey) (task : StaticFuture) (f : StaticFuture → StaticFuture)
      (event : e = .run) (pc : s.pc = .sweep b key) (found : s.get key = some task)
      (reason : (task.stopReason = .cancelled ∧ (f task).stopReason = .cancelled ∧ (f task).ended = true) ∨
        (task.stopReason = .restart ∧ (f task).stopReason = .none ∧ (f task).ended = task.ended) ∨
        (task.stopReason = .restartSuspended ∧ (f task).stopReason = .suspended ∧
          (f task).ended = task.ended))
      (tasks : s'.tasks = s.tasks.modify key f) (counts : s'.alg.counters = s.alg.counters)
  /-- the `Cancelled` arm has dropped its task -/
  | discharged (b : Beat) (key : TaskKey) (isReady : Bool) (event : e = .run)
      (pc : s.pc = .back (.cancelled b) key isReady) (tasks : s'.tasks = s.tasks)
      (counts : s'.alg.counters = s.alg.decUnfinished.counters)
  /-- `reset(false)` at the end of a restart arm -/
  | reset (b : Beat) (c : Caller) (key : TaskKey) (isReady : Bool) (event : e = .run)
      (pc : s.pc = .back c key isReady) (arm : c = .restart b ∨ c = .restartSuspended b)
      (tasks : s'.tasks = s.tasks.modify key (StaticFuture.reset false))
      (counts : s'.alg.counters = s.alg.counters)
  | finished (b : Beat) (restart : Bool) (key : TaskKey) (event : e = .run)
      (pc : s.pc = .back (.pollLocal b restart) key true)
      (tasks : s'.tasks = s.tasks.modify key (fun t => (t.setStopReason .finished).setEnded true))
      (counts : s'.alg.counters = s.alg.decUnfinished.counters)

section Frames
variable {s : Wheel}

theorem Change.same {s' : Wheel} {e : Event} (plain : e = .run → s.marks = false)
    (tasks : s'.tasks = s.tasks) (counts : s'.alg.counters = s.alg.counters) : Change s e s' :=
  .quiet 0 id blind_id plain (by rw [tasks, List.modify_id]) counts

/-- The call of `poll_protected` changes nothing that the classification looks at. -/
theorem leave_quiet (s : Wheel) (c : Caller) (key : TaskKey) (isReady : Bool) :
    (s.leave c key isReady).tasks = s.tasks.modify key (StaticFuture.setPolling false) ∧
      (s.leave c key isReady).alg.counters = s.alg.counters := by
  unfold leave
  dsimp only
  split
  · exact ⟨rfl, rfl⟩
  · exact ⟨rfl, rfl⟩

theorem atStage_quiet (s : Wheel) (c : Caller) (key : TaskKey) (stage : Stage) :
    ∃ f, Blind f ∧ (s.atStage c key stage).tasks = s.tasks.modify key f ∧
      (s.atStage c key stage).alg.counters = s.alg.counters := by
  unfold atStage
  split
  · rename_i isReady
    obtain ⟨tasks, counts⟩ := leave_quiet s c key isReady
    exact ⟨StaticFuture.setPolling false, fun _ => ⟨rfl, rfl⟩, tasks, counts⟩
  · exact ⟨id, blind_id, by rw [List.modify_id]; rfl, rfl⟩

theorem pollProtected_quiet (s : Wheel) (c : Caller) (key : TaskKey) :
    ∃ f, Blind f ∧ (s.pollProtected c key).tasks = s.tasks.modify key f ∧
      (s.pollProtected c key).alg.counters = s.alg.counters := by
  unfold pollProtected
  split
  · exact ⟨id, blind_id, by rw [List.modify_id]; rfl, rfl⟩
  · rename_i task found
    split
    · exact ⟨id, blind_id, by rw [List.modify_id]; rfl, rfl⟩
    · dsimp only
      generalize handleTask task.flag c.status = entered
      obtain ⟨g, blind, tasks, counts⟩ := atStage_quiet
        (s.update key (fun t => (t.setPolling true).setFlag entered.1)) c key entered.2
      refine ⟨_, blind.comp (f := fun t => (t.setPolling true).setFlag entered.1)
        (fun _ => ⟨rfl, rfl⟩), ?_, counts⟩
      rw [tasks]
      exact List.modify_modify_eq _ _ _ _

end Frames

section Handles

theorem resume_cases (alg : StaticAlgorithm) (key : TaskKey) :
    alg.resume key = (false, alg) ∨
    ∃ task, alg.get key = some task ∧ task.stopReason = .suspended ∧
      alg.resume key = (true, (alg.setStopReason key .none).decSuspended) := by
  unfold StaticAlgorithm.resume
  cases alg.get key with
  | none => exact Or.inl rfl
  | some task =>
    by_cases held : task.stopReason = .suspended
    · exact Or.inr ⟨task, rfl, held, if_pos held⟩
    · exact Or.inl (if_neg held)

theorem suspend_cases (alg : StaticAlgorithm) (key : TaskKey) :
    alg.suspend key = (false, alg) ∨
    ∃ task r, alg.get key = some task ∧
      ((task.stopReason = .none ∧ r = .suspended) ∨
        (task.stopReason = .restart ∧ r = .restartSuspended)) ∧
      alg.suspend key = (true, (alg.setStopReason key r).incSuspended) := by
  unfold StaticAlgorithm.suspend
  cases alg.get key with
  | none => exact Or.inl rfl
  | some task =>
    cases reason : task.stopReason with
    | none => exact Or.inr ⟨task, .suspended, rfl, Or.inl ⟨reason, rfl⟩, by simp [reason]⟩
    | restart =>
      exact Or.inr ⟨task, .restartSuspended, rfl, Or.inr ⟨reason, rfl⟩, by simp [reason]⟩
    | _ => exact Or.inl (by simp [reason])

theorem restart_cases (alg : StaticAlgorithm) (key : TaskKey) :
    alg.restart key = (false, alg) ∨
    (∃ task, alg.get key = some task ∧ task.stopReason = .restart ∧
      alg.restart key = (true, alg)) ∨
    ∃ task, alg.get key = some task ∧ task.stopReason ≠ .restart ∧
      alg.restart key = (true, (alg.restartCounts task.stopReason).update key
        (fun t => (t.setStopReason .restart).setEnded false)) := by
  unfold StaticAlgorithm.restart
  cases alg.get key with
  | none => exact Or.inl rfl
  | some task =>
    by_cases pending : task.stopReason = .restart
    · exact Or.inr (Or.inl ⟨task, rfl, pending, if_pos pending⟩)
    · exact Or.inr (Or.inr ⟨task, rfl, pending, if_neg pending⟩)

theorem cancel_cases (alg : StaticAlgorithm) (key : TaskKey) :
    alg.cancel key = (false, alg) ∨
    ∃ task, alg.get key = some task ∧ task.stopReason ≠ .cancelled ∧
      alg.cancel key = (true, if task.stopReason = .suspended
        then (alg.setStopReason key .cancelled).decSuspended
        else alg.setStopReason key .cancelled) := by
  unfold StaticAlgorithm.cancel
  cases alg.get key with
  | none => exact Or.inl rfl
  | some task =>
    by_cases live : task.stopReason ≠ .cancelled
    · exact Or.inr ⟨task, rfl, live, if_pos live⟩
    · exact Or.inl (if_neg live)

theorem restartCounts_registry (alg : StaticAlgorithm) (r : StopReason) :
    (alg.restartCounts r).registry = alg.registry := by
  cases r <;> simp only [StaticAlgorithm.restartCounts, StaticAlgorithm.decSuspended,
    StaticAlgorithm.incUnfinished]

@[simp] theorem settle_alg (s : Wheel) : s.settle.alg = s.alg := by
  unfold settle
  split <;> rfl

theorem call_change {s s' : Wheel} {session : Nat} {c : Call} (h : s.call session c = some s') :
    Change s (.call session c) s' := by
  unfold call at h
  split at h
  · rename_i allowed
    split at h
    · rename_i valid
      cases h
      cases c with
      | resume key =>
        rcases resume_cases s.alg key with no | ⟨task, found, held, yes⟩
        · exact .same nofun (by simp [tasks, perform, no]) (by simp [perform, no])
        · refine .resume session key task rfl valid found held ?_ ?_
          · simp only [tasks, settle_alg, perform, yes]
            rfl
          · simp only [settle_alg, perform, yes]
            rfl
      | suspend key =>
        rcases suspend_cases s.alg key with no | ⟨task, r, found, free, yes⟩
        · exact .same nofun (by simp [tasks, perform, no]) (by simp [perform, no])
        · refine .suspend session key task r rfl valid found free ?_ ?_
          · simp only [tasks, settle_alg, perform, yes]
            rfl
          · simp only [settle_alg, perform, yes, StaticAlgorithm.setStopReason, update_incSuspended,
              update_counters]
      | restart key =>
        rcases restart_cases s.alg key with no | ⟨_, _, _, no⟩ | ⟨task, found, fresh, yes⟩
        · exact .same nofun (by simp [tasks, perform, no]) (by simp [perform, no])
        · exact .same nofun (by simp [tasks, perform, no]) (by simp [perform, no])
        · refine .restart session key task rfl valid found fresh ?_ ?_
          · simp [tasks, perform, yes, StaticAlgorithm.update, restartCounts_registry]
          · simp only [settle_alg, perform, yes]
            rfl
      | cancel key =>
        rcases cancel_cases s.alg key with no | ⟨task, found, live, yes⟩
        · exact .same nofun (by simp [tasks, perform, no]) (by simp [perform, no])
        · refine .cancel session key task rfl valid found live ?_ ?_
          · simp only [tasks, perform, yes, settle_alg]
            split <;> rfl
          · simp only [perform, yes, settle_alg]
            split <;> rfl
      | current => exact .same nofun (by simp [tasks, perform]) (by simp [perform])
      | getName key => exact .same nofun (by simp [tasks, perform]) (by simp [perform])
      | getByName name => exact .same nofun (by simp [tasks, perform]) (by simp [perform])
      | registeredCount => exact .same nofun (by simp [tasks, perform]) (by simp [perform])
    · cases h
      exact .same nofun (by simp [tasks]) (by simp)
  · cases h

end Handles

theorem storeRunnable_change {s s' : Wheel} {e : Event} (target : TaskKey)
    (plain : e = .run → s.marks = false) (tasks : s'.tasks = (s.storeRunnable target).tasks)
    (counts : s'.alg.counters = s.alg.counters) :
    Change s e s' :=
  .quiet target (StaticFuture.setRunnable true) (fun _ => ⟨rfl, rfl⟩) plain tasks counts

theorem notifyWake_same (s : Wheel) :
    s.notifyWake.tasks = s.tasks ∧ s.notifyWake.alg.counters = s.alg.counters := by
  unfold notifyWake
  split <;> exact ⟨rfl, rfl⟩

theorem wake_change {s s' : Wheel} {target : TaskKey} (h : s.wake target = some s') :
    Change s (.wake target) s' := by
  unfold wake at h
  split at h
  · cases h
    obtain ⟨tasks, counts⟩ := notifyWake_same s
    refine .quiet target (StaticFuture.setRunnable true) (fun _ => ⟨rfl, rfl⟩) nofun ?_ ?_
    · rw [← tasks]
      simp [Wheel.tasks]
      rfl
    · rw [settle_alg]
      exact counts
  · cases h

theorem wakeStep_change {s s' : Wheel} {i : Nat} (h : s.wakeStep i = some s') :
    Change s (.wakeStep i) s' := by
  unfold wakeStep at h
  split at h
  · cases h
  · cases h
    exact .same nofun rfl rfl
  · cases h
    exact .same nofun rfl rfl
  · cases h
    exact storeRunnable_change _ nofun rfl rfl

/-! The wheel's own steps. -/

theorem atStage_change {s : Wheel} {e : Event} (s₀ : Wheel) (c : Caller) (key : TaskKey)
    (stage : Stage) (g : StaticFuture → StaticFuture) (blind : Blind g)
    (plain : e = .run → s.marks = false) (tasks : s₀.tasks = s.tasks.modify key g)
    (counts : s₀.alg.counters = s.alg.counters) :
    Change s e (s₀.atStage c key stage) := by
  obtain ⟨f, blind', tasks', counts'⟩ := atStage_quiet s₀ c key stage
  refine .quiet key (f ∘ g) (blind'.comp blind) plain ?_ (counts'.trans counts)
  rw [tasks', tasks]
  exact List.modify_modify_eq _ _ _ _

theorem dropped_change {s s' : Wheel} (h : s.dropped = some s') : Change s .dropped s' := by
  unfold dropped at h
  split at h
  · cases h
    exact atStage_change s _ _ _ id blind_id nofun (by rw [List.modify_id]) rfl
  · cases h
    obtain ⟨tasks, counts⟩ := leave_quiet s _ _ true
    exact .quiet _ (StaticFuture.setPolling false) (fun _ => ⟨rfl, rfl⟩) nofun tasks counts
  · cases h

theorem created_change {s s' : Wheel} (h : s.created = some s') : Change s .created s' := by
  unfold created at h
  split at h
  · cases h
    refine atStage_change _ _ _ _ (StaticFuture.setFlag (afterInit s.nextFuture).1)
      (fun _ => ⟨rfl, rfl⟩) nofun ?_ ?_ <;> rfl
  · cases h

theorem done_change {s s' : Wheel} {isReady : Bool} (h : s.done isReady = some s') :
    Change s (.done isReady) s' := by
  unfold done at h
  split at h
  · rename_i v _
    cases h
    refine atStage_change _ _ _ _ (StaticFuture.setFlag (afterPoll v isReady).1)
      (fun _ => ⟨rfl, rfl⟩) nofun ?_ ?_ <;> rfl
  · cases h

theorem panic_change {s s' : Wheel} (session : s.pc.inSession = true)
    (h : s.panic = some s') : Change s .panic s' := by
  unfold panic at h
  split at h
  · rename_i c key stage pc
    split at h
    · cases c with
      | cleanup unwinding => simp [pc, Pc.inSession, Caller.inSession] at session
      | init suspended => simp [pc, Pc.inSession, Caller.inSession] at session
      | _ =>
        cases h
        exact .quiet key (StaticFuture.setPolling false) (fun _ => ⟨rfl, rfl⟩) nofun rfl rfl
    · cases h
  · cases h

theorem pollProtected_change {s : Wheel} {e : Event} (s₀ : Wheel) (c : Caller) (key : TaskKey)
    (g : StaticFuture → StaticFuture) (blind : Blind g) (plain : e = .run → s.marks = false)
    (tasks : s₀.tasks = s.tasks.modify key g) (counts : s₀.alg.counters = s.alg.counters) :
    Change s e (s₀.pollProtected c key) := by
  obtain ⟨f, blind', tasks', counts'⟩ := pollProtected_quiet s₀ c key
  refine .quiet key (f ∘ g) (blind'.comp blind) plain ?_ (counts'.trans counts)
  rw [tasks', tasks]
  exact List.modify_modify_eq _ _ _ _

theorem arm_change {s : Wheel} {b : Beat} {key : TaskKey} {task : StaticFuture} (c : Caller)
    (pc : s.pc = .sweep b key) (found : s.get key = some task)
    (g : StaticFuture → StaticFuture)
    (reason : (task.stopReason = .cancelled ∧ (g task).stopReason = .cancelled ∧
        (g task).ended = true) ∨
      (task.stopReason = .restart ∧ (g task).stopReason = .none ∧ (g task).ended = task.ended) ∨
      (task.stopReason = .restartSuspended ∧ (g task).stopReason = .suspended ∧
        (g task).ended = task.ended)) :
    Change s .run ((s.update key g).pollProtected c key) := by
  obtain ⟨f, blind, tasks, counts⟩ := pollProtected_quiet (s.update key g) c key
  refine .arm b key task (f ∘ g) rfl pc found ?_ ?_ counts
  · simpa only [Function.comp_apply, (blind (g task)).1, (blind (g task)).2] using reason
  · rw [tasks]
    exact List.modify_modify_eq _ _ _ _

theorem visit_change {s : Wheel} {b : Beat} {key : TaskKey} {task : StaticFuture}
    (pc : s.pc = .sweep b key) (found : s.get key = some task) :
    Change s .run (s.visit b key task) := by
  unfold visit
  cases reason : task.stopReason with
  | none =>
    have plain : s.marks = false := by simp [marks, pc, found, reason]
    dsimp only
    split <;> exact .same (fun _ => plain) rfl rfl
  | cancelled => exact arm_change _ pc found _ (.inl ⟨reason, reason, rfl⟩)
  | restart => exact arm_change _ pc found _ (.inr (.inl ⟨reason, rfl, rfl⟩))
  | restartSuspended => exact arm_change _ pc found _ (.inr (.inr ⟨reason, rfl, rfl⟩))
  | finished => exact .same (fun _ => by simp [marks, pc, found, reason]) rfl rfl
  | suspended => exact .same (fun _ => by simp [marks, pc, found, reason]) rfl rfl

theorem endBeat_same (s : Wheel) (b : Beat) : (s.endBeat b).alg = s.alg := by
  unfold endBeat
  split
  · rfl
  · rfl
  · rfl
  · dsimp only
    split <;> rfl

theorem resume_change {s : Wheel} {c : Caller} {key : TaskKey} {isReady : Bool}
    (session : c.inSession = true) (pc : s.pc = .back c key isReady) :
    Change s .run (s.resume c key isReady) := by
  cases c with
  | cancelled b => exact .discharged b key isReady rfl pc rfl rfl
  | restart b => exact .reset b _ key isReady rfl pc (.inl rfl) rfl rfl
  | restartSuspended b => exact .reset b _ key isReady rfl pc (.inr rfl) rfl rfl
  | pollLocal b restart =>
    cases isReady with
    | true => exact .finished b restart key rfl pc rfl rfl
    | false => exact .same (fun _ => by simp [marks, pc]) rfl rfl
  | cleanup unwinding => cases session
  | init suspended => cases session

theorem run_change {s s' : Wheel} (session : s.pc.inSession = true) (h : s.run = some s') :
    Change s .run s' := by
  unfold run at h
  split at h
  · rename_i pc
    cases h
    exact .same (fun _ => by simp [marks, pc]) rfl rfl
  · rename_i b key pc
    split at h
    · rename_i task found
      cases h
      exact visit_change pc found
    · rename_i past
      cases h
      refine .same (fun _ => by simp [marks, pc, past]) ?_ ?_
      · rw [tasks, endBeat_same]
        rfl
      · rw [endBeat_same]
  · rename_i pc
    split at h
    · cases h
      split <;> exact .same (fun _ => by simp [marks, pc]) rfl rfl
    · cases h
  · rename_i b key restart pc
    cases h
    exact pollProtected_change _ _ _ (StaticFuture.setRunnable false) (fun _ => ⟨rfl, rfl⟩)
      (fun _ => by simp [marks, pc]) rfl rfl
  · rename_i c key isReady pc
    cases h
    exact resume_change (by rw [pc] at session; exact session) pc
  · rename_i pc
    cases h
    exact .same (fun _ => by simp [marks, pc]) rfl rfl
  · rename_i pc
    cases h
    exact .same (fun _ => by simp [marks, pc]) rfl rfl
  · rename_i pc
    simp [pc, Pc.inSession] at session
  · rename_i pc
    simp [pc, Pc.inSession] at session
  · cases h

theorem poll_change {s s' : Wheel} {w : Waker} (h : s.poll w = some s') :
    Change s (.poll w) s' := by
  unfold poll at h
  split at h
  all_goals cases h
  all_goals exact .same nofun rfl rfl

/-- Every step of a session but its end is of one of these kinds. -/
theorem step_change {s s' : Wheel} {e : Event} (session : s.pc.inSession = true)
    (goes_on : e ≠ .drop) (h : s.step e = some s') : Change s e s' := by
  cases e with
  | call session c => exact call_change h
  | wake target => exact wake_change h
  | wakeBegin target =>
    cases h
    exact .same nofun rfl rfl
  | wakeStep i => exact wakeStep_change h
  | poll w => exact poll_change h
  | run => exact run_change session h
  | dropped => exact dropped_change h
  | created => exact created_change h
  | done isReady => exact done_change h
  | panic => exact panic_change session h
  | lock =>
    simp only [step, lock] at h
    split at h
    · rename_i pc
      simp [pc, Pc.inSession] at session
    · cases h
  | drop => exact absurd rfl goes_on

end Wheel
end Juggle.St
