import Juggle.St.Change

/-! Where one step of a session takes the thread that owns the wheel, and how
`poll_protected` and `handle_task` keep their flags meanwhile. -/
namespace Juggle.St
open Juggle.Utils

namespace Pc

/-- Where `handle_task` stands at a stage. -/
def atStage (c : Caller) (key : TaskKey) : Stage → Pc
  | .leave isReady => .back c key isReady
  | stage => .inTask c key stage

/-- Where a caller inside of `beat_once` goes on. The others have no place in a session. -/
def after (key : TaskKey) : Caller → Pc
  | .cancelled b => .sweep b (key + 1)
  | .restart b => .check b key
  | .restartSuspended b => .sweep b (key + 1)
  | .pollLocal b _ => .sweep b (key + 1)
  | _ => .idle

end Pc

/-- The arm of `beat_once` that a stop reason selects. -/
inductive Arm (b : Beat) : StopReason → Caller → Prop where
  | cancelled : Arm b .cancelled (.cancelled b)
  | restart : Arm b .restart (.restart b)
  | restartSuspended : Arm b .restartSuspended (.restartSuspended b)

namespace StaticFuture

/-- The sweep stops at the task. -/
def hasWork (task : StaticFuture) : Bool :=
  match task.stopReason with
  | .none => task.runnable
  | .cancelled => true
  | .restart => true
  | .restartSuspended => true
  | _ => false

/-- What guards `poll_protected` and `handle_task`. -/
def control (task : StaticFuture) : Bool × InitFlag := (task.polling, task.flag)

end StaticFuture

namespace Wheel

def control (s : Wheel) (key : TaskKey) : Option (Bool × InitFlag) :=
  (s.get key).map StaticFuture.control

/-- A step that leaves all of `poll_protected` and `handle_task` alone. -/
structure Kept (s s' : Wheel) : Prop where
  control : ∀ k, s'.control k = s.control k
  future : s'.nextFuture = s.nextFuture

/-- A step to a stage of `handle_task`, with the flag written on the way. -/
structure Staged (s s' : Wheel) (c : Caller) (key : TaskKey) (stage : Stage)
    (polling : Bool) (flag : InitFlag) : Prop where
  pc' : s'.pc = Pc.atStage c key stage
  here : s'.control key = some (polling && stage.userCode, flag)
  others : ∀ k, k ≠ key → s'.control k = s.control k

/-- One step of user code inside of `handle_task`: the event that ends it, what runs next,
what is written to the flag, and the identities handed out so far. -/
inductive Handle (next : FutureId) (c : Caller) :
    Event → Stage → Stage → (InitFlag → InitFlag) → FutureId → Prop where
  | dropOld (v : FutureId) : Handle next c .dropped (.dropOld v) (afterDrop c.status) id next
  | dropDone (v : FutureId) : Handle next c .dropped (.dropDone v) (.leave true) id next
  | init : Handle next c .created .init (afterInit next).2 (fun _ => (afterInit next).1) (next + 1)
  | poll (v : FutureId) (isReady : Bool) : Handle next c (.done isReady) (.poll v)
      (afterPoll v isReady).2 (fun _ => (afterPoll v isReady).1) next

/-- How far the last call of `beat_once` decides what `poll_internal` does next. -/
inductive Ended (s : Wheel) (b : Beat) : Pc → Prop where
  | register (first : b.second = false) (quiet : b.anyPoll = false) : Ended s b .register
  | clear (second : b.second = true) (busy : b.anyPoll = true) : Ended s b .clear
  | finish (second : b.second = true) (quiet : b.anyPoll = false)
      (sleeps : s.alg.unfinishedCount = 0 ∨ s.alg.unfinishedCount = s.alg.suspendedCount) :
      Ended s b (.finish (decide (s.alg.unfinishedCount = 0)))
  | pending (second : b.second = true) (quiet : b.anyPoll = false)
      (waits : ¬ (s.alg.unfinishedCount = 0 ∨ s.alg.unfinishedCount = s.alg.suspendedCount)) :
      Ended s b (.returned .pending)

/-- A call of `beat_once` starts. -/
inductive Begins (s : Wheel) : Bool → Prop where
  | clear (pc : s.pc = .clear) : Begins s false
  | register (pc : s.pc = .register) : Begins s true
  | again (b : Beat) (key : TaskKey) (pc : s.pc = .sweep b key) (past : s.get key = none)
      (first : b.second = false) (busy : b.anyPoll = true) : Begins s false

inductive Move (s : Wheel) (e : Event) (s' : Wheel) : Prop where
  | stay (pc' : s'.pc = s.pc) (quiet : e ≠ .run) (kept : Kept s s')
  | settled (v : Verdict) (pc : s.pc = .returned v) (pc' : s'.pc = .idle) (quiet : e ≠ .run)
      (kept : Kept s s')
  | enter (w : Waker) (event : e = .poll w) (pc : s.pc = .idle ∨ ∃ v, s.pc = .returned v)
      (pc' : s'.pc = .clear) (kept : Kept s s')
  | begins (second : Bool) (event : e = .run) (begins : Begins s second)
      (pc' : s'.pc = .sweep ⟨second, false⟩ 0) (kept : Kept s s')
  | ended (b : Beat) (key : TaskKey) (event : e = .run) (pc : s.pc = .sweep b key)
      (past : s.get key = none) (ended : Ended s b s'.pc) (kept : Kept s s')
  | skip (b : Beat) (key : TaskKey) (task : StaticFuture) (event : e = .run)
      (pc : s.pc = .sweep b key) (found : s.get key = some task) (rest : task.hasWork = false)
      (pc' : s'.pc = .sweep b (key + 1)) (kept : Kept s s')
  | choose (b : Beat) (key : TaskKey) (task : StaticFuture) (event : e = .run)
      (pc : s.pc = .sweep b key) (found : s.get key = some task) (reason : task.stopReason = .none)
      (runnable : task.runnable = true) (pc' : s'.pc = .chosen b key false) (kept : Kept s s')
  | arm (b : Beat) (key : TaskKey) (task : StaticFuture) (c : Caller) (event : e = .run)
      (pc : s.pc = .sweep b key) (found : s.get key = some task) (arm : Arm b task.stopReason c)
      (free : task.polling = false)
      (entered : Staged s s' c key (handleTask task.flag c.status).2 true
        (handleTask task.flag c.status).1) (future : s'.nextFuture = s.nextFuture)
  | pass (b : Beat) (key : TaskKey) (task : StaticFuture) (event : e = .run)
      (pc : s.pc = .check b key) (found : s.get key = some task) (waiting : task.runnable = false)
      (pc' : s'.pc = .sweep b (key + 1)) (kept : Kept s s')
  | proceed (b : Beat) (key : TaskKey) (task : StaticFuture) (event : e = .run)
      (pc : s.pc = .check b key) (found : s.get key = some task) (runnable : task.runnable = true)
      (pc' : s'.pc = .chosen b key true) (kept : Kept s s')
  | pollBegin (b : Beat) (key : TaskKey) (restart : Bool) (task : StaticFuture) (c : Caller)
      (event : e = .run) (pc : s.pc = .chosen b key restart) (found : s.get key = some task)
      (free : task.polling = false) (caller : c = .pollLocal { b with anyPoll := true } restart)
      (entered : Staged s s' c key (handleTask task.flag c.status).2 true
        (handleTask task.flag c.status).1) (future : s'.nextFuture = s.nextFuture)
  | handled (c : Caller) (key : TaskKey) (stage stage' : Stage) (write : InitFlag → InitFlag)
      (next : FutureId) (pc : s.pc = .inTask c key stage)
      (handle : Handle s.nextFuture c e stage stage' write next)
      (staged : ∀ p f, s.control key = some (p, f) → Staged s s' c key stage' p (write f))
      (future : s'.nextFuture = next)
  | resumed (c : Caller) (key : TaskKey) (isReady : Bool) (event : e = .run)
      (pc : s.pc = .back c key isReady) (pc' : s'.pc = Pc.after key c) (kept : Kept s s')
  | answer (finished : Bool) (event : e = .run) (pc : s.pc = .finish finished)
      (pc' : s'.pc = .returned (.ready finished)) (kept : Kept s s')
  | unwound (c : Caller) (key : TaskKey) (stage : Stage) (event : e = .panic)
      (pc : s.pc = .inTask c key stage) (code : stage.userCode = true) (pc' : s'.pc = .idle)
      (here : s'.control key = (s.control key).map (fun f => (false, f.2)))
      (others : ∀ k, k ≠ key → s'.control k = s.control k)
      (future : s'.nextFuture = s.nextFuture)
  /-- the recursive call that `poll_protected` refuses -/
  | nested (key : TaskKey) (event : e = .run) (busy : ∀ f, s.control key ≠ some (false, f))
      (hand : (∃ b, s.pc = .sweep b key ∧ ∃ task, s.get key = some task) ∨
        ∃ b restart, s.pc = .chosen b key restart)

/-! What is found at a key after an update. -/

theorem get_update_self (s : Wheel) (key : TaskKey) (f : StaticFuture → StaticFuture) :
    (s.update key f).get key = (s.get key).map f := by
  simp [update, withAlg, get, StaticAlgorithm.get, StaticAlgorithm.update]

theorem get_update_other (s : Wheel) {key k : TaskKey} (f : StaticFuture → StaticFuture)
    (other : k ≠ key) : (s.update key f).get k = s.get k := by
  simp [update, withAlg, get, StaticAlgorithm.get, StaticAlgorithm.update,
    Ne.symm other]

theorem control_update_other (s : Wheel) {key k : TaskKey} (f : StaticFuture → StaticFuture)
    (other : k ≠ key) : (s.update key f).control k = s.control k := by
  unfold control
  rw [get_update_other s f other]

theorem control_update_self (s : Wheel) (key : TaskKey) (f : StaticFuture → StaticFuture) :
    (s.update key f).control key = (s.get key).map (fun task => (f task).control) := by
  unfold control
  rw [get_update_self, Option.map_map]
  rfl

theorem Kept.of_alg {s s' : Wheel} (alg : s'.alg.registry = s.alg.registry)
    (future : s'.nextFuture = s.nextFuture) : Kept s s' where
  control k := by simp only [Wheel.control, Wheel.get, StaticAlgorithm.get, alg]
  future := future

theorem Kept.of_update {s s' : Wheel} {k : TaskKey} {f : StaticFuture → StaticFuture}
    (same : ∀ task, (f task).control = task.control)
    (alg : s'.alg.registry = s.alg.registry.modify k f)
    (future : s'.nextFuture = s.nextFuture) : Kept s s' where
  control i := by
    simp only [Wheel.control, Wheel.get, StaticAlgorithm.get, alg, List.getElem?_modify]
    split
    · simp [Function.comp_def, same]
    · simp
  future := future

theorem control_of_get {s : Wheel} {key : TaskKey} {task : StaticFuture}
    (found : s.get key = some task) : s.control key = some (task.polling, task.flag) := by
  simp only [control, found, Option.map_some, StaticFuture.control]

/-! `poll_protected` and `handle_task`. -/

theorem leave_staged (s : Wheel) (c : Caller) (key : TaskKey) (isReady : Bool) {p : Bool}
    {f : InitFlag} (here : s.control key = some (p, f)) :
    Staged s (s.leave c key isReady) c key (.leave isReady) p f := by
  obtain ⟨task, found, known⟩ := Option.map_eq_some_iff.mp here
  have self := control_update_self s key (StaticFuture.setPolling false)
  have others : ∀ k, k ≠ key →
      (s.update key (StaticFuture.setPolling false)).control k = s.control k :=
    fun k other => control_update_other s _ other
  rw [found] at self
  have flag : task.flag = f := congrArg Prod.snd known
  refine ⟨?_, ?_, ?_⟩
  · unfold leave
    cases c <;> rfl
  · rw [Stage.userCode, Bool.and_false, ← flag]
    unfold leave
    cases c <;> exact self
  · intro k other
    unfold leave
    cases c <;> exact others k other

theorem atStage_staged (s : Wheel) (c : Caller) (key : TaskKey) (stage : Stage) {p : Bool}
    {f : InitFlag} (here : s.control key = some (p, f)) :
    Staged s (s.atStage c key stage) c key stage p f := by
  cases stage with
  | leave isReady => exact leave_staged s c key isReady here
  | _ => exact ⟨rfl, here.trans (by rw [Stage.userCode, Bool.and_true]; nofun), fun _ _ => rfl⟩

theorem atStage_future (s : Wheel) (c : Caller) (key : TaskKey) (stage : Stage) :
    (s.atStage c key stage).nextFuture = s.nextFuture := by
  unfold atStage leave
  cases stage <;> cases c <;> rfl

/-- The stage may be entered from a state in which only this task was prepared. -/
theorem Staged.prepared {s s₀ s' : Wheel} {c : Caller} {key : TaskKey} {stage : Stage} {p : Bool}
    {f : InitFlag} (others : ∀ k, k ≠ key → s₀.control k = s.control k)
    (staged : Staged s₀ s' c key stage p f) : Staged s s' c key stage p f where
  pc' := staged.pc'
  here := staged.here
  others k other := (staged.others k other).trans (others k other)

theorem pollProtected_staged {s : Wheel} {c : Caller} {key : TaskKey} {task : StaticFuture}
    (found : s.get key = some task) (free : task.polling = false) :
    Staged s (s.pollProtected c key) c key (handleTask task.flag c.status).2 true
      (handleTask task.flag c.status).1 := by
  unfold pollProtected
  simp only [found, free, Bool.false_eq_true, if_false]
  refine .prepared (fun k other => control_update_other s _ other) (atStage_staged _ _ _ _ ?_)
  rw [control_update_self, found]
  rfl

theorem pollProtected_future (s : Wheel) (c : Caller) (key : TaskKey) :
    (s.pollProtected c key).nextFuture = s.nextFuture := by
  unfold pollProtected
  split
  · rfl
  · split
    · rfl
    · exact atStage_future _ _ _ _

/-! One lemma for each event. -/

theorem setStopReason_control (r : StopReason) (task : StaticFuture) :
    (task.setStopReason r).control = task.control := rfl

theorem settle_move {s s' : Wheel} {e : Event} (s₀ : Wheel) (pc : s₀.pc = s.pc)
    (quiet : e ≠ .run) (kept : Kept s s₀) (result : s' = s₀.settle) : Move s e s' := by
  subst result
  unfold settle
  split
  · rename_i v returned
    exact .settled v (pc ▸ returned) rfl quiet ⟨kept.control, kept.future⟩
  · exact .stay pc quiet kept

theorem perform_kept (s : Wheel) (c : Call) : Kept s (s.perform c) := by
  cases c with
  | resume key =>
    rcases resume_cases s.alg key with no | ⟨task, found, held, yes⟩
    · exact .of_alg (by simp only [perform, no]) rfl
    · refine .of_update (k := key) (setStopReason_control .none) ?_ rfl
      simp only [perform, yes]
      rfl
  | suspend key =>
    rcases suspend_cases s.alg key with no | ⟨task, r, found, free, yes⟩
    · exact .of_alg (by simp only [perform, no]) rfl
    · refine .of_update (k := key) (setStopReason_control r) ?_ rfl
      simp only [perform, yes]
      rfl
  | restart key =>
    rcases restart_cases s.alg key with no | ⟨_, _, _, no⟩ | ⟨task, found, fresh, yes⟩
    · exact .of_alg (by simp only [perform, no]) rfl
    · exact .of_alg (by simp only [perform, no]) rfl
    · refine .of_update (k := key) (f := fun t => (t.setStopReason .restart).setEnded false)
        (fun _ => rfl) ?_ rfl
      simp only [perform, yes, StaticAlgorithm.update, restartCounts_registry]
  | cancel key =>
    rcases cancel_cases s.alg key with no | ⟨task, found, live, yes⟩
    · exact .of_alg (by simp only [perform, no]) rfl
    · refine .of_update (k := key) (setStopReason_control .cancelled) ?_ rfl
      simp only [perform, yes]
      split <;> rfl
  | current => exact .of_alg rfl rfl
  | getName key => exact .of_alg rfl rfl
  | getByName name => exact .of_alg rfl rfl
  | registeredCount => exact .of_alg rfl rfl

theorem perform_pc (s : Wheel) (c : Call) : (s.perform c).pc = s.pc := by
  cases c <;> rfl

theorem call_move {s s' : Wheel} {session : Nat} {c : Call} (h : s.call session c = some s') :
    Move s (.call session c) s' := by
  unfold call at h
  split at h
  · cases h
    split
    · exact settle_move _ (perform_pc s c) nofun (perform_kept s c) rfl
    · exact settle_move s rfl nofun (.of_alg rfl rfl) rfl
  · cases h

theorem notifyWake_pc (s : Wheel) : s.notifyWake.pc = s.pc := by
  unfold notifyWake
  split <;> rfl

theorem wake_move {s s' : Wheel} {target : TaskKey} (h : s.wake target = some s') :
    Move s (.wake target) s' := by
  unfold wake at h
  split at h
  · cases h
    refine settle_move (s.notifyWake.storeRunnable target) (notifyWake_pc s) nofun ?_ rfl
    refine .of_update (k := target) (f := StaticFuture.setRunnable true) (fun _ => rfl) ?_ ?_
    · unfold notifyWake
      split <;> rfl
    · unfold notifyWake
      split <;> rfl
  · cases h

theorem wakeStep_move {s s' : Wheel} {i : Nat} (h : s.wakeStep i = some s') :
    Move s (.wakeStep i) s' := by
  unfold wakeStep at h
  split at h
  · cases h
  · cases h
    exact .stay rfl nofun (.of_alg rfl rfl)
  · cases h
    exact .stay rfl nofun (.of_alg rfl rfl)
  · rename_i target _
    cases h
    exact .stay rfl nofun
      (.of_update (k := target) (f := StaticFuture.setRunnable true) (fun _ => rfl) rfl rfl)

theorem dropped_move {s s' : Wheel} (h : s.dropped = some s') : Move s .dropped s' := by
  unfold dropped at h
  split at h
  · rename_i c key v pc
    cases h
    exact .handled c key _ _ _ _ pc (.dropOld v) (fun p f here => atStage_staged s c key _ here)
      (atStage_future s c key _)
  · rename_i c key v pc
    cases h
    exact .handled c key _ _ _ _ pc (.dropDone v) (fun p f here => leave_staged s c key true here)
      (atStage_future s c key (.leave true))
  · cases h

/-- The flag is written first, then the stage entered. -/
theorem setFlag_staged {s r : Wheel} {c : Caller} {key : TaskKey} {stage : Stage} {p : Bool}
    {f flag : InitFlag} (alg : r.alg = s.alg) (here : s.control key = some (p, f)) :
    Staged s ((r.update key (StaticFuture.setFlag flag)).atStage c key stage) c key stage p flag := by
  have same : ∀ k, r.control k = s.control k := fun k => by simp only [control, get, alg]
  refine .prepared (fun k other => (control_update_other r _ other).trans (same k))
    (atStage_staged _ _ _ _ ?_)
  obtain ⟨task, found, known⟩ := Option.map_eq_some_iff.mp ((same key).trans here)
  rw [control_update_self, found]
  cases known
  rfl

theorem created_move {s s' : Wheel} (h : s.created = some s') : Move s .created s' := by
  unfold created at h
  split at h
  · rename_i c key pc
    cases h
    refine .handled c key _ _ _ _ pc .init (fun p f here => ?_) (atStage_future _ _ _ _)
    exact setFlag_staged (r := { s with nextFuture := s.nextFuture + 1 }) rfl here
  · cases h

theorem done_move {s s' : Wheel} {isReady : Bool} (h : s.done isReady = some s') :
    Move s (.done isReady) s' := by
  unfold done at h
  split at h
  · rename_i c key v pc
    cases h
    exact .handled c key _ _ _ _ pc (.poll v isReady)
      (fun p f here => setFlag_staged rfl here) (atStage_future _ _ _ _)
  · cases h

theorem panic_move {s s' : Wheel} (session : s.pc.inSession = true) (h : s.panic = some s') :
    Move s .panic s' := by
  unfold panic at h
  split at h
  · rename_i c key stage pc
    split at h
    · rename_i code
      have here : (s.update key (StaticFuture.setPolling false)).control key =
          (s.control key).map (fun f => (false, f.2)) := by
        rw [control_update_self]
        unfold control
        rw [Option.map_map]
        rfl
      have others : ∀ k, k ≠ key →
          (s.update key (StaticFuture.setPolling false)).control k = s.control k :=
        fun k other => control_update_other s _ other
      cases c with
      | cleanup unwinding => simp [pc, Pc.inSession, Caller.inSession] at session
      | init suspended => simp [pc, Pc.inSession, Caller.inSession] at session
      | _ =>
        cases h
        exact .unwound _ key stage rfl pc code rfl here others rfl
    · cases h
  · cases h

theorem busy_of_polling {s : Wheel} {key : TaskKey} {task : StaticFuture}
    (found : s.get key = some task) (busy : ¬ task.polling = false) :
    ∀ f, s.control key ≠ some (false, f) := by
  intro f bad
  rw [control_of_get found] at bad
  exact busy (congrArg Prod.fst (Option.some.inj bad))

theorem arm_move {s : Wheel} {b : Beat} {key : TaskKey} {task : StaticFuture} {c : Caller}
    (pc : s.pc = .sweep b key) (found : s.get key = some task) (arm : Arm b task.stopReason c)
    (g : StaticFuture → StaticFuture) (same : ∀ t, (g t).control = t.control) :
    Move s .run ((s.update key g).pollProtected c key) := by
  by_cases free : task.polling = false
  · have found' : (s.update key g).get key = some (g task) := by
      rw [get_update_self, found]
      rfl
    have polling : (g task).polling = task.polling := congrArg Prod.fst (same task)
    have flag : (g task).flag = task.flag := congrArg Prod.snd (same task)
    have staged := pollProtected_staged (c := c) found' (polling.trans free)
    rw [flag] at staged
    exact .arm b key task c rfl pc found arm free
      (staged.prepared (fun k other => control_update_other s g other))
      (pollProtected_future _ _ _)
  · exact .nested key rfl (busy_of_polling found free) (.inl ⟨b, pc, task, found⟩)

theorem visit_move {s : Wheel} {b : Beat} {key : TaskKey} {task : StaticFuture}
    (pc : s.pc = .sweep b key) (found : s.get key = some task) :
    Move s .run (s.visit b key task) := by
  unfold visit
  cases reason : task.stopReason with
  | none =>
    dsimp only
    split
    · rename_i runnable
      exact .choose b key task rfl pc found reason runnable rfl (.of_alg rfl rfl)
    · rename_i waiting
      exact .skip b key task rfl pc found (by simpa [StaticFuture.hasWork, reason] using waiting) rfl
        (.of_alg rfl rfl)
  | cancelled => exact arm_move pc found (by rw [reason]; exact .cancelled) _ (fun _ => rfl)
  | restart => exact arm_move pc found (by rw [reason]; exact .restart) _ (fun _ => rfl)
  | restartSuspended =>
    exact arm_move pc found (by rw [reason]; exact .restartSuspended) _ (fun _ => rfl)
  | finished =>
    exact .skip b key task rfl pc found (by simp [StaticFuture.hasWork, reason]) rfl
      (.of_alg rfl rfl)
  | suspended =>
    exact .skip b key task rfl pc found (by simp [StaticFuture.hasWork, reason]) rfl
      (.of_alg rfl rfl)

theorem endBeat_move {s : Wheel} {b : Beat} {key : TaskKey} (pc : s.pc = .sweep b key)
    (past : s.get key = none) : Move s .run (s.endBeat b) := by
  unfold endBeat
  split
  · rename_i first busy
    exact .begins false rfl (.again b key pc past first busy) rfl (.of_alg rfl rfl)
  · rename_i first quiet
    exact .ended b key rfl pc past (.register first quiet) (.of_alg rfl rfl)
  · rename_i second busy
    exact .ended b key rfl pc past (.clear second busy) (.of_alg rfl rfl)
  · rename_i second quiet
    dsimp only
    split
    · rename_i sleeps
      exact .ended b key rfl pc past (.finish second quiet sleeps) (.of_alg rfl rfl)
    · rename_i waits
      exact .ended b key rfl pc past (.pending second quiet waits) (.of_alg rfl rfl)

theorem pollLocal_move {s : Wheel} {b : Beat} {key : TaskKey} {restart : Bool}
    (pc : s.pc = .chosen b key restart) : Move s .run (s.pollLocal b key restart) := by
  cases found : s.get key with
  | none =>
    refine .nested key rfl ?_ (.inr ⟨b, restart, pc⟩)
    intro f
    simp [control, found]
  | some task =>
    by_cases free : task.polling = false
    · have found' : ((s.setCurrent (some key)).update key (StaticFuture.setRunnable false)).get key =
          some (task.setRunnable false) := by
        rw [get_update_self]
        exact congrArg _ found
      have staged := pollProtected_staged (c := .pollLocal { b with anyPoll := true } restart)
        found' free
      exact .pollBegin b key restart task _ rfl pc found free rfl
        (staged.prepared (fun k other => control_update_other (s.setCurrent (some key)) _ other))
        (pollProtected_future _ _ _)
    · exact .nested key rfl (busy_of_polling found free) (.inr ⟨b, restart, pc⟩)

theorem resume_move {s : Wheel} {c : Caller} {key : TaskKey} {isReady : Bool}
    (session : c.inSession = true) (pc : s.pc = .back c key isReady) :
    Move s .run (s.resume c key isReady) := by
  have reset : ∀ task : StaticFuture, (task.reset false).control = task.control := fun _ => rfl
  cases c with
  | cancelled b => exact .resumed _ key isReady rfl pc rfl (.of_alg rfl rfl)
  | restart b => exact .resumed _ key isReady rfl pc rfl (.of_update (k := key) reset rfl rfl)
  | restartSuspended b =>
    exact .resumed _ key isReady rfl pc rfl (.of_update (k := key) reset rfl rfl)
  | pollLocal b restart =>
    cases isReady with
    | true =>
      refine .resumed _ key true rfl pc rfl (.of_update (k := key)
        (f := fun t => (t.setStopReason .finished).setEnded true) (fun _ => rfl) rfl rfl)
    | false => exact .resumed _ key false rfl pc rfl (.of_alg rfl rfl)
  | cleanup unwinding => cases session
  | init suspended => cases session

theorem run_move {s s' : Wheel} (session : s.pc.inSession = true) (h : s.run = some s') :
    Move s .run s' := by
  unfold run at h
  split at h
  · rename_i pc
    cases h
    exact .begins false rfl (.clear pc) rfl (.of_alg rfl rfl)
  · rename_i b key pc
    split at h
    · rename_i task found
      cases h
      exact visit_move pc found
    · rename_i past
      cases h
      exact endBeat_move pc past
  · rename_i b key pc
    split at h
    · rename_i task found
      cases h
      split
      · rename_i runnable
        exact .proceed b key task rfl pc found runnable rfl (.of_alg rfl rfl)
      · rename_i waiting
        exact .pass b key task rfl pc found (by simpa using waiting) rfl (.of_alg rfl rfl)
    · cases h
  · rename_i b key restart pc
    cases h
    exact pollLocal_move pc
  · rename_i c key isReady pc
    cases h
    exact resume_move (by rw [pc] at session; exact session) pc
  · rename_i pc
    cases h
    exact .begins true rfl (.register pc) rfl (.of_alg rfl rfl)
  · rename_i finished pc
    cases h
    exact .answer finished rfl pc rfl (.of_alg rfl rfl)
  · rename_i pc
    simp [pc, Pc.inSession] at session
  · rename_i pc
    simp [pc, Pc.inSession] at session
  · cases h

theorem poll_move {s s' : Wheel} {w : Waker} (h : s.poll w = some s') : Move s (.poll w) s' := by
  unfold poll at h
  split at h
  · rename_i pc
    cases h
    exact .enter w rfl (.inl pc) rfl (.of_alg rfl rfl)
  · rename_i v pc
    cases h
    exact .enter w rfl (.inr ⟨v, pc⟩) rfl (.of_alg rfl rfl)
  · cases h

theorem step_move {s s' : Wheel} {e : Event} (session : s.pc.inSession = true)
    (goes_on : e ≠ .drop) (h : s.step e = some s') : Move s e s' := by
  cases e with
  | call session c => exact call_move h
  | wake target => exact wake_move h
  | wakeBegin target =>
    cases h
    exact .stay rfl nofun (.of_alg rfl rfl)
  | wakeStep i => exact wakeStep_move h
  | poll w => exact poll_move h
  | run => exact run_move session h
  | dropped => exact dropped_move h
  | created => exact created_move h
  | done isReady => exact done_move h
  | panic => exact panic_move session h
  | lock =>
    simp only [step, lock] at h
    split at h
    · rename_i pc
      simp [pc, Pc.inSession] at session
    · cases h
  | drop => exact absurd rfl goes_on

end Wheel
end Juggle.St
