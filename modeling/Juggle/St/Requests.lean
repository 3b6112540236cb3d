import Juggle.St.Invariant

/-! What becomes of a request made through a handle of the static wheel: a suspension
lasts until it is lifted, and a restart is carried out. -/
namespace Juggle.St
open Juggle.Utils Juggle.Runs

namespace Wheel

/-- What the operation behind a handle call returns, if it returns a Boolean. -/
def granted (s : Wheel) : Call → Bool
  | .suspend key => (s.alg.suspend key).1
  | .resume key => (s.alg.resume key).1
  | .restart key => (s.alg.restart key).1
  | .cancel key => (s.alg.cancel key).1
  | _ => false

/-- The call that the event makes, if it returns true. -/
def succeeds (s : Wheel) : Event → Option Call
  | .call session c => if s.isValid session && s.granted c then some c else none
  | _ => none

theorem succeeds_cases {s : Wheel} {e : Event} {c : Call} (request : s.succeeds e = some c) :
    ∃ session, e = .call session c ∧ s.isValid session = true ∧ s.granted c = true := by
  cases e with
  | call session c' =>
    simp only [succeeds] at request
    split at request
    · rename_i both
      cases request
      obtain ⟨valid, granted⟩ := Bool.and_eq_true_iff.mp both
      exact ⟨session, rfl, valid, granted⟩
    · cases request
  | _ => cases request

theorem succeeds_resume {s : Wheel} {session : Nat} {k : TaskKey} {t : StaticFuture}
    (valid : s.isValid session = true) (found : s.get k = some t)
    (held : t.stopReason = .suspended) : s.succeeds (.call session (.resume k)) = some (.resume k) := by
  have found' : s.alg.get k = some t := found
  simp [succeeds, granted, valid, StaticAlgorithm.resume, found', held]

theorem succeeds_restart {s : Wheel} {session : Nat} {k : TaskKey} {t : StaticFuture}
    (valid : s.isValid session = true) (found : s.get k = some t) :
    s.succeeds (.call session (.restart k)) = some (.restart k) := by
  have found' : s.alg.get k = some t := found
  by_cases pending : t.stopReason = .restart <;>
    simp [succeeds, granted, valid, StaticAlgorithm.restart, found', pending]

theorem succeeds_suspend {s : Wheel} {session : Nat} {k : TaskKey} {t : StaticFuture}
    (valid : s.isValid session = true) (found : s.get k = some t)
    (free : t.stopReason = .none ∨ t.stopReason = .restart) :
    s.succeeds (.call session (.suspend k)) = some (.suspend k) := by
  have found' : s.alg.get k = some t := found
  rcases free with reason | reason <;>
    simp [succeeds, granted, valid, StaticAlgorithm.suspend, found', reason]

theorem succeeds_cancel {s : Wheel} {session : Nat} {k : TaskKey} {t : StaticFuture}
    (valid : s.isValid session = true) (found : s.get k = some t)
    (live : t.stopReason ≠ .cancelled) :
    s.succeeds (.call session (.cancel k)) = some (.cancel k) := by
  have found' : s.alg.get k = some t := found
  simp [succeeds, granted, valid, StaticAlgorithm.cancel, found', live]

/-! A suspended task does not run. -/

/-- `poll_local` is called on the task. -/
def startsPoll (k : TaskKey) (s : Wheel) : Event → Bool
  | .run =>
    match s.pc with
    | .chosen _ key _ => key == k
    | _ => false
  | _ => false

/-- `reset(false)` at the end of one of the restart arms of `beat_once`. -/
def resetsTask (k : TaskKey) (s : Wheel) : Event → Bool
  | .run =>
    match s.pc with
    | .back (.restart _) key _ => key == k
    | .back (.restartSuspended _) key _ => key == k
    | _ => false
  | _ => false

/-- Nothing that lifts the suspension: no resume, restart or end of the session, nor
`reset(false)` on the task. -/
def keepsSuspension (k : TaskKey) (s : Wheel) (e : Event) : Prop :=
  continues e = true ∧ s.succeeds e ≠ some (.resume k) ∧ s.succeeds e ≠ some (.restart k) ∧
    resetsTask k s e = false

instance (k : TaskKey) (s : Wheel) (e : Event) : Decidable (keepsSuspension k s e) :=
  inferInstanceAs (Decidable (_ ∧ _))

structure Held (k : TaskKey) (s : Wheel) : Prop where
  sound : Sound s
  barred : ∀ t, s.get k = some t → t.stopReason ≠ .none ∧ t.stopReason ≠ .restart

theorem held_step {k : TaskKey} {s s' : Wheel} {e : Event} (held : Held k s)
    (h : s.step e = some s') (keeps : keepsSuspension k s e) : Held k s' := by
  obtain ⟨goes_on, unresumed, unrestarted, unreset⟩ := keeps
  have goes_on : e ≠ .drop := by rintro rfl; cases goes_on
  refine ⟨step_sound held.sound goes_on h, fun t' after => ?_⟩
  obtain ⟨t, found, turn⟩ := (step_change held.sound.session goes_on h).origin after
  obtain ⟨paused, unpending⟩ := held.barred t found
  cases turn with
  | same aside reason ended => exact reason ▸ ⟨paused, unpending⟩
  | resume session event valid hold reason ended =>
    exact absurd (event ▸ succeeds_resume valid found hold) unresumed
  | suspend session event valid free ended =>
    rcases free with ⟨reason, _⟩ | ⟨reason, _⟩ <;> contradiction
  | restart session event valid fresh reason ended =>
    exact absurd (event ▸ succeeds_restart valid found) unrestarted
  | cancel session event valid live reason ended => rw [reason]; exact ⟨nofun, nofun⟩
  | arm b event pc reason =>
    rcases reason with ⟨_, after, _⟩ | ⟨pending, _⟩ | ⟨_, after, _⟩
    · rw [after]; exact ⟨nofun, nofun⟩
    · contradiction
    · rw [after]; exact ⟨nofun, nofun⟩
  | reset b c isReady event pc arm reason ended =>
    rcases arm with rfl | rfl <;> simp [resetsTask, event, pc] at unreset
  | finished b restart event pc reason ended => rw [reason]; exact ⟨nofun, nofun⟩

theorem Held.no_poll {k : TaskKey} {s : Wheel} (held : Held k s) (e : Event) :
    startsPoll k s e = false := by
  unfold startsPoll
  split
  · split
    · rename_i b key restart pc
      by_cases here : key = k
      · subst here
        obtain ⟨t, found⟩ := held.sound.found (k := key) (by rw [pc]; rfl)
        have reason := held.sound.reason key t (by rw [pc]; rfl) found
        exact absurd reason (held.barred t found).1
      · simpa using here
    · rfl
  · rfl

/-- What a valid handle call leaves at a key. -/
theorem call_get {s s' : Wheel} {session : Nat} {c : Call} (valid : s.isValid session = true)
    (taken : s.step (.call session c) = some s') (k : TaskKey) : s'.get k = (s.perform c).get k := by
  simp only [step, call, valid, if_true] at taken
  split at taken
  · cases taken
    simp only [get, settle_alg]
  · cases taken

/-- A suspension that has just been granted. -/
theorem held_of_suspend {k : TaskKey} {s s' : Wheel} {e : Event} (sound : Sound s)
    (request : s.succeeds e = some (.suspend k)) (taken : s.step e = some s') : Held k s' := by
  obtain ⟨session, rfl, valid, granted⟩ := succeeds_cases request
  have goes_on : Event.call session (.suspend k) ≠ .drop := by rintro ⟨⟩
  refine ⟨step_sound sound goes_on taken, fun t' after => ?_⟩
  rcases suspend_cases s.alg k with no | ⟨task, r, found, free, yes⟩
  · simp [Wheel.granted, no] at granted
  · have left : s'.get k = some (task.setStopReason r) := by
      rw [call_get valid taken]
      simp only [perform, yes]
      exact (get_update_self s k _).trans (congrArg (Option.map _) found)
    rw [left] at after
    cases after
    rcases free with ⟨_, rfl⟩ | ⟨_, rfl⟩ <;> exact ⟨by rintro ⟨⟩, by rintro ⟨⟩⟩

/-- After `suspend(k)` has returned true no poll of the task starts until it is resumed
or restarted, unless a restart arm of the sweep resets the task. -/
theorem suspended_not_polled {k : TaskKey} {s₀ s s' : Wheel} {before after : List Event} {e : Event}
    (fresh : Fresh s₀) (run : exec step s₀ before = some s)
    (session : Along step (fun _ e _ => continues e = true) s₀ before)
    (request : s.succeeds e = some (.suspend k)) (taken : s.step e = some s')
    (keeps : Along step (fun s e _ => keepsSuspension k s e) s' after) :
    Along step (fun s e _ => startsPoll k s e = false) s' after := by
  have held := held_of_suspend (run_sound fresh.sound run session) request taken
  refine along_of_invariant (I := Held k) ?_ held keeps
  intro r e r' inv h kept
  exact ⟨held_step inv h kept, inv.no_poll e⟩

/-- Two tasks of which neither starts suspended. -/
def pair : List StaticParams := [⟨false, none⟩, ⟨false, none⟩]

theorem pair_fresh : Fresh (opened pair) := opened_fresh (by simp [pair, usizeMax])

/-- The first task is being polled. -/
def inFirst : List Event := [.poll 7, .run, .run, .run, .created]

/-- The first task waits, then both are swept again and woken from outside. -/
def afterFirst : List Event :=
  [.done false] ++ List.replicate 10 .run ++ [.wake 1, .poll 8] ++ List.replicate 8 .run

theorem suspended_not_polled_byOther : ∃ s s', exec step (opened pair) inFirst = some s ∧
    s.succeeds (.call 0 (.suspend 1)) = some (.suspend 1) ∧
    s.step (.call 0 (.suspend 1)) = some s' ∧ (exec step s' afterFirst).isSome = true ∧
    Along step (fun s e _ => startsPoll 1 s e = false) s' afterFirst := by
  have run : exec step (opened pair) inFirst = some (last step (opened pair) inFirst) :=
    exec_last (by decide +kernel)
  have taken : (last step (opened pair) inFirst).step (.call 0 (.suspend 1)) =
      some (last step (last step (opened pair) inFirst) [.call 0 (.suspend 1)]) :=
    step_last (by decide +kernel)
  exact ⟨_, _, run, by decide +kernel, taken, by decide +kernel,
    suspended_not_polled pair_fresh run (by decide +kernel) (by decide +kernel) taken
      (by decide +kernel)⟩

/-- One task that does not start suspended. -/
def lone : List StaticParams := [⟨false, none⟩]

theorem lone_fresh : Fresh (opened lone) := opened_fresh (by simp [lone, usizeMax])

/-- The wheel is polled up to the second sweep. -/
def sweepTwice : List Event := .poll 7 :: List.replicate 7 .run

/-- A task that is restarted and then suspended is polled all the same: the
`RestartSuspended` arm leaves it with the stop reason None. -/
theorem restartSuspend_polled : Fresh (opened lone) ∧
    ∃ s s', exec step (opened lone) [.call 0 (.restart 0)] = some s ∧
    s.succeeds (.call 0 (.suspend 0)) = some (.suspend 0) ∧
    s.step (.call 0 (.suspend 0)) = some s' ∧
    Along step (fun s e _ => continues e = true ∧ s.succeeds e ≠ some (.resume 0) ∧
      s.succeeds e ≠ some (.restart 0)) s' sweepTwice ∧
    ¬ Along step (fun s e _ => startsPoll 0 s e = false) s' sweepTwice := by
  have run : exec step (opened lone) [.call 0 (.restart 0)] =
      some (last step (opened lone) [.call 0 (.restart 0)]) := exec_last (by decide +kernel)
  have taken : (last step (opened lone) [.call 0 (.restart 0)]).step (.call 0 (.suspend 0)) =
      some (last step (last step (opened lone) [.call 0 (.restart 0)]) [.call 0 (.suspend 0)]) :=
    step_last (by decide +kernel)
  exact ⟨lone_fresh, _, _, run, by decide +kernel, taken, by decide +kernel, by decide +kernel⟩

/-! What `handle_task` keeps of the values it is given. -/

/-- A stage at which the storage of the task is empty. -/
def vacant : Stage → Bool
  | .poll _ => false
  | .leave _ => false
  | _ => true

/-- A destructor and the `init` closure find the storage empty, a poll finds its own
future in it, and no stored future is one that is yet to be created. -/
structure Stored (s : Wheel) : Prop where
  empty : ∀ c k stage p f, s.pc = .inTask c k stage → vacant stage = true →
    s.control k = some (p, f) → f.value = none
  polled : ∀ c k v p f, s.pc = .inTask c k (.poll v) → s.control k = some (p, f) → f = .created v
  issued : ∀ k p v, s.control k = some (p, .created v) → v < s.nextFuture

theorem handleTask_vacant {flag : InitFlag} {status : Status}
    (empty : vacant (handleTask flag status).2 = true) : (handleTask flag status).1.value = none := by
  cases status <;> cases flag <;> first | rfl | cases empty

theorem handleTask_poll {flag : InitFlag} {status : Status} {v : FutureId}
    (stage : (handleTask flag status).2 = .poll v) : (handleTask flag status).1 = .created v := by
  cases status <;> cases flag <;> cases stage
  rfl

theorem handleTask_keeps {flag : InitFlag} {status : Status} {v : FutureId}
    (stored : (handleTask flag status).1 = .created v) : flag = .created v := by
  cases status <;> cases flag <;> first | exact stored | cases stored

/-- The stages of `handle_task` follow the storage. -/
theorem Handle.stored {next next' : FutureId} {c : Caller} {e : Event} {stage stage' : Stage}
    {write : InitFlag → InitFlag} (handle : Handle next c e stage stage' write next')
    {f : InitFlag} (empty : vacant stage = true → f.value = none) (issued : ∀ v, f = .created v → v < next)
    (polled : ∀ v, stage = .poll v → f = .created v) :
    (vacant stage' = true → (write f).value = none) ∧
      (∀ v, stage' = .poll v → write f = .created v) ∧ (∀ v, write f = .created v → v < next') := by
  cases handle with
  | dropOld v =>
    have here := empty rfl
    refine ⟨fun _ => here, ?_, issued⟩
    intro v' stage
    cases status : c.status <;> rw [status] at stage <;> cases stage
  | dropDone v => exact ⟨nofun, nofun, issued⟩
  | init =>
    refine ⟨nofun, ?_, ?_⟩
    · intro v stage
      cases stage
      rfl
    · intro v eq
      cases eq
      exact Nat.lt_succ_self _
  | poll v isReady =>
    have here := polled v rfl
    cases isReady with
    | true => exact ⟨fun _ => rfl, nofun, nofun⟩
    | false =>
      refine ⟨nofun, nofun, ?_⟩
      intro v' eq
      cases eq
      exact issued v here

theorem Handle.issues {next next' : FutureId} {c : Caller} {e : Event} {stage stage' : Stage}
    {write : InitFlag → InitFlag} (handle : Handle next c e stage stage' write next') :
    next ≤ next' := by
  cases handle <;> first | exact Nat.le_refl _ | exact Nat.le_succ _

theorem stored_entered {s s' : Wheel} {c : Caller} {key : TaskKey} {task : StaticFuture}
    (stored : Stored s) (found : s.get key = some task)
    (entered : Staged s s' c key (handleTask task.flag c.status).2 true
      (handleTask task.flag c.status).1)
    (future : s'.nextFuture = s.nextFuture) : Stored s' := by
  constructor
  case empty =>
    intro c' k stage p f pc empty found'
    rw [entered.pc'] at pc
    obtain ⟨rfl, rfl, rfl⟩ := Pc.atStage_eq_inTask pc
    rw [entered.here] at found'
    cases found'
    exact handleTask_vacant empty
  case polled =>
    intro c' k v p f pc found'
    rw [entered.pc'] at pc
    obtain ⟨rfl, rfl, stage⟩ := Pc.atStage_eq_inTask pc
    rw [entered.here] at found'
    cases found'
    exact handleTask_poll stage
  case issued =>
    intro k p v found'
    rw [future]
    by_cases here : k = key
    · subst here
      rw [entered.here] at found'
      have kept := handleTask_keeps (congrArg Prod.snd (Option.some.inj found'))
      have before := control_of_get found
      rw [kept] at before
      exact stored.issued k _ v before
    · rw [entered.others k here] at found'
      exact stored.issued k p v found'

theorem stored_kept {s s' : Wheel} (stored : Stored s) (kept : Kept s s')
    (outside : ∀ c k stage, s'.pc = .inTask c k stage → s.pc = .inTask c k stage) : Stored s' where
  empty c k stage p f pc empty found :=
    stored.empty c k stage p f (outside c k stage pc) empty ((kept.control k).symm.trans found)
  polled c k v p f pc found :=
    stored.polled c k v p f (outside c k _ pc) ((kept.control k).symm.trans found)
  issued k p v found := by
    rw [kept.future]
    exact stored.issued k p v ((kept.control k).symm.trans found)

theorem stored_step {s s' : Wheel} {e : Event} (sound : Sound s) (goes_on : e ≠ .drop)
    (h : s.step e = some s') (stored : Stored s) : Stored s' := by
  cases step_move sound.session goes_on h with
  | stay pc' quiet kept => exact stored_kept stored kept (fun c k stage pc => pc' ▸ pc)
  | ended b key event pc past ended kept =>
    refine stored_kept stored kept (fun c k stage pc₂ => ?_)
    have free := ended.free.1
    rw [pc₂] at free
    cases free
  | arm b key task c event pc found arm free entered future =>
    exact stored_entered stored found entered future
  | pollBegin b key restart task c event pc found free caller entered future =>
    exact stored_entered stored found entered future
  | handled c key stage stage' write next pc handle staged future =>
    obtain ⟨f, here, staged⟩ := sound.staged pc staged
    obtain ⟨empty, polled, issued⟩ := handle.stored
      (fun empty => stored.empty c key stage true f pc empty here)
      (fun v eq => stored.issued key true v (eq ▸ here))
      (fun v eq => stored.polled c key v true f (eq ▸ pc) here)
    constructor
    case empty =>
      intro c' k stage₂ p g pc₂ empty₂ found
      rw [staged.pc'] at pc₂
      obtain ⟨rfl, rfl, rfl⟩ := Pc.atStage_eq_inTask pc₂
      rw [staged.here] at found
      cases found
      exact empty empty₂
    case polled =>
      intro c' k v p g pc₂ found
      rw [staged.pc'] at pc₂
      obtain ⟨rfl, rfl, stage₂⟩ := Pc.atStage_eq_inTask pc₂
      rw [staged.here] at found
      cases found
      exact polled v stage₂
    case issued =>
      intro k p v found
      rw [future]
      by_cases at_key : k = key
      · subst at_key
        rw [staged.here] at found
        exact issued v (congrArg Prod.snd (Option.some.inj found))
      · rw [staged.others k at_key] at found
        exact Nat.lt_of_lt_of_le (stored.issued k p v found) handle.issues
  | resumed c key isReady event pc pc' kept =>
    refine stored_kept stored kept (fun c' k stage pc₂ => ?_)
    rw [pc'] at pc₂
    cases c <;> cases pc₂
  | unwound c key stage event pc code pc' here others future =>
    constructor
    case empty =>
      intro c' k stage p f pc₂
      rw [pc'] at pc₂
      cases pc₂
    case polled =>
      intro c' k v p f pc₂
      rw [pc'] at pc₂
      cases pc₂
    case issued =>
      intro k p v found
      rw [future]
      by_cases at_key : k = key
      · subst at_key
        rw [here] at found
        obtain ⟨⟨q, f⟩, before, eq⟩ := Option.map_eq_some_iff.mp found
        cases eq
        exact stored.issued k q v before
      · rw [others k at_key] at found
        exact stored.issued k p v found
  | nested key event busy hand => exact (sound.not_nested busy hand).elim
  | _ =>
    refine stored_kept stored (by assumption) (fun c k stage pc => ?_)
    simp_all

theorem Fresh.stored {s : Wheel} (fresh : Fresh s) : Stored s := by
  constructor
  case empty => rw [fresh.pc]; exact fun c k stage p f pc => nomatch pc
  case polled => rw [fresh.pc]; exact fun c k v p f pc => nomatch pc
  case issued =>
    intro k p v found
    obtain ⟨task, hold, known⟩ := Option.map_eq_some_iff.mp found
    have flag := (fresh.tasks task (List.mem_of_getElem? hold)).flag
    have stored : task.flag = .created v := congrArg Prod.snd known
    rw [flag] at stored
    cases stored

/-! A restart is carried out. -/

/-- `reset(false)` has just made the task runnable. -/
def CheckRunnable (s : Wheel) : Prop :=
  ∀ b k t, s.pc = .check b k → s.get k = some t → t.runnable = true

theorem wakeStep_runnable {s s' : Wheel} {i : Nat} (h : s.step (.wakeStep i) = some s')
    {k : TaskKey} {t t' : StaticFuture} (found : s.get k = some t) (after : s'.get k = some t') :
    t.runnable = true → t'.runnable = true := by
  intro runnable
  simp only [step, wakeStep] at h
  split at h
  · cases h
  · cases h
    cases found.symm.trans after
    exact runnable
  · cases h
    cases found.symm.trans after
    exact runnable
  · rename_i target _
    cases h
    by_cases here : k = target
    · subst here
      have self := get_update_self s k (StaticFuture.setRunnable true)
      rw [found] at self
      cases self.symm.trans after
      rfl
    · have other := get_update_other s (StaticFuture.setRunnable true) here
      cases (other.trans found).symm.trans after
      exact runnable

theorem check_step {s s' : Wheel} {e : Event} (sound : Sound s) (goes_on : e ≠ .drop)
    (h : s.step e = some s') (ready : CheckRunnable s) : CheckRunnable s' := by
  intro b k t' pc' after
  cases step_move sound.session goes_on h with
  | stay same quiet kept =>
    rw [same] at pc'
    cases e with
    | call session c =>
      have open_ := call_open h
      simp [userCode, pc'] at open_
    | wake target => simp [step, wake, userCode, pc'] at h
    | wakeBegin target =>
      cases h
      exact ready b k t' pc' after
    | wakeStep i =>
      obtain ⟨t, found, _⟩ := (step_change sound.session goes_on h).origin after
      exact wakeStep_runnable h found after (ready b k t pc' found)
    | run => exact absurd rfl quiet
    | drop => exact absurd rfl goes_on
    | _ => simp [step, poll, dropped, created, done, panic, lock, pc'] at h
  | ended b' key event pc past ended =>
    rw [pc'] at ended
    cases ended
  | arm b' key task c event pc found arm free entered =>
    rw [entered.pc'] at pc'
    generalize (handleTask task.flag c.status).2 = stage at pc'
    cases stage <;> cases pc'
  | pollBegin b' key restart task c event pc found free caller entered =>
    rw [entered.pc'] at pc'
    generalize (handleTask task.flag c.status).2 = stage at pc'
    cases stage <;> cases pc'
  | handled c key stage stage' write next pc handle staged =>
    obtain ⟨f, here, staged⟩ := sound.staged pc staged
    rw [staged.pc'] at pc'
    cases stage' <;> cases pc'
  | resumed c key isReady event pc goes kept =>
    rw [goes] at pc'
    cases c with
    | restart b' =>
      cases pc'
      subst event
      simp only [step, run, pc] at h
      cases h
      obtain ⟨t, found⟩ := sound.found (k := k) (by rw [pc]; rfl)
      have self := get_update_self s k (StaticFuture.reset false)
      rw [found] at self
      cases self.symm.trans after
      rfl
    | _ => cases pc'
  | nested key event busy hand => exact (sound.not_nested busy hand).elim
  | _ => simp_all

/-- The `Restart` arm has begun with the task, up to the creation of its new future. -/
def inRestartArm (k : TaskKey) (s : Wheel) : Bool :=
  match s.pc with
  | .inTask (.restart _) key _ => key == k
  | .back (.restart _) key _ => key == k
  | .check _ key => key == k
  | .chosen _ key true => key == k
  | .inTask (.pollLocal _ true) key .init => key == k
  | _ => false

def awaitsRestart (k : TaskKey) (s : Wheel) : Bool :=
  (s.get k).any (fun task => decide (task.stopReason = .restart))

/-- The request is in the stop reason, or the `Restart` arm is carrying it out. -/
def Restarting (k : TaskKey) (s : Wheel) : Prop := awaitsRestart k s = true ∨ inRestartArm k s = true

instance (k : TaskKey) (s : Wheel) : Decidable (Restarting k s) :=
  inferInstanceAs (Decidable (_ ∨ _))

/-- The new future of the task is created, and polled at once. A request made after the
arm has begun is still in the stop reason then. -/
def discharges (k : TaskKey) (s : Wheel) : Event → Bool
  | .created =>
    match s.pc with
    | .inTask (.pollLocal _ true) key .init => key == k && !awaitsRestart k s
    | _ => false
  | _ => false

/-- A step of the sweep that writes its own outcome over the request: the end of a poll
that returned Ready, or `reset(false)` in the arm of an earlier `RestartSuspended`. -/
def overwritesRestart (k : TaskKey) (s : Wheel) : Event → Bool
  | .run =>
    match s.pc with
    | .back (.pollLocal _ _) key true => key == k && awaitsRestart k s
    | .back (.restartSuspended _) key _ => key == k && awaitsRestart k s
    | _ => false
  | _ => false

/-- The destructor or the closure that the `Restart` arm runs panics, when the request is
no longer in the stop reason. -/
def panicsInRestart (k : TaskKey) (s : Wheel) : Event → Bool
  | .panic => inRestartArm k s && !awaitsRestart k s
  | _ => false

/-- The task is neither suspended nor cancelled, the session goes on, and the request is
not overwritten. -/
def keepsRestart (k : TaskKey) (s : Wheel) (e : Event) : Prop :=
  continues e = true ∧ s.succeeds e ≠ some (.suspend k) ∧ s.succeeds e ≠ some (.cancel k) ∧
    overwritesRestart k s e = false ∧ panicsInRestart k s e = false

instance (k : TaskKey) (s : Wheel) (e : Event) : Decidable (keepsRestart k s e) :=
  inferInstanceAs (Decidable (_ ∧ _))

theorem awaitsRestart_iff {k : TaskKey} {s : Wheel} :
    awaitsRestart k s = true ↔ ∃ t, s.get k = some t ∧ t.stopReason = .restart := by
  simp [awaitsRestart, Option.any_eq_true]

/-- The `Restart` arm takes the task up, and first drops the old future if there is one. -/
theorem restart_enters {s s' : Wheel} {b : Beat} {k : TaskKey} {t : StaticFuture} (sound : Sound s)
    (h : s.step .run = some s') (pc : s.pc = .sweep b k) (found : s.get k = some t)
    (reason : t.stopReason = .restart) :
    s'.pc = Pc.atStage (.restart b) k (handleTask t.flag .uninitTask).2 := by
  have free := sound.unpolled (by rw [pc]; rfl) found
  have prepared : (s.update k (StaticFuture.setStopReason .none)).get k =
      some (t.setStopReason .none) := by
    rw [get_update_self, found]
    rfl
  have staged := pollProtected_staged (c := .restart b) prepared free
  simp only [step, run, pc, found, visit, reason] at h
  cases h
  exact staged.pc'

/-- Every step leaves the request in the stop reason or takes it over into the arm. -/
theorem awaits_step {k : TaskKey} {s s' : Wheel} {e : Event} (sound : Sound s)
    (h : s.step e = some s') (keeps : keepsRestart k s e) (pending : awaitsRestart k s = true) :
    Restarting k s' := by
  obtain ⟨goes_on, unsuspended, uncancelled, kept, _⟩ := keeps
  have goes_on : e ≠ .drop := by rintro rfl; cases goes_on
  have known := pending
  obtain ⟨t, found, reason⟩ := awaitsRestart_iff.mp pending
  obtain ⟨t', after, turn⟩ := (step_change sound.session goes_on h).turn found
  cases turn with
  | same aside same ended => exact .inl (awaitsRestart_iff.mpr ⟨t', after, same.trans reason⟩)
  | resume session event valid held => exact absurd (reason.symm.trans held) nofun
  | suspend session event valid free =>
    exact absurd (event ▸ succeeds_suspend valid found (.inr reason)) unsuspended
  | restart session event valid fresh => exact absurd reason fresh
  | cancel session event valid live =>
    exact absurd (event ▸ succeeds_cancel valid found live) uncancelled
  | arm b event pc arms =>
    refine .inr ?_
    subst event
    simp only [inRestartArm, restart_enters sound h pc found reason]
    generalize (handleTask t.flag .uninitTask).2 = stage
    cases stage <;> simp [Pc.atStage]
  | reset b c isReady event pc arm =>
    subst event
    rcases arm with rfl | rfl
    · simp only [step, run, pc, resume] at h
      cases h
      exact .inr (by simp [inRestartArm, goto])
    · simp [overwritesRestart, pc, known] at kept
  | finished b restart event pc =>
    subst event
    simp [overwritesRestart, pc, known] at kept

/-- The arm runs on to the creation of the new future. -/
theorem arm_step {k : TaskKey} {s s' : Wheel} {e : Event} (sound : Sound s) (ready : CheckRunnable s)
    (h : s.step e = some s') (keeps : keepsRestart k s e) (inside : inRestartArm k s = true)
    (taken : awaitsRestart k s = false) (waits : discharges k s e = false) :
    inRestartArm k s' = true := by
  obtain ⟨goes_on, _, _, _, calm⟩ := keeps
  have goes_on : e ≠ .drop := by rintro rfl; cases goes_on
  cases step_move sound.session goes_on h with
  | stay pc' quiet kept => simpa only [inRestartArm, pc'] using inside
  | handled c key stage stage' write next pc handle staged =>
    obtain ⟨f, here, staged⟩ := sound.staged pc staged
    have pc' := staged.pc'
    cases c with
    | restart b =>
      have here : key = k := by simpa [inRestartArm, pc] using inside
      simp only [inRestartArm, pc', here]
      cases stage' <;> simp [Pc.atStage]
    | pollLocal b restart =>
      cases restart with
      | false => simp [inRestartArm, pc] at inside
      | true =>
        cases handle with
        | init => simp_all [inRestartArm, discharges]
        | _ => simp [inRestartArm, pc] at inside
    | _ => simp [inRestartArm, pc] at inside
  | resumed c key isReady event pc pc' =>
    cases c with
    | restart b => simpa [inRestartArm, pc, pc', Pc.after] using inside
    | _ => simp [inRestartArm, pc] at inside
  | pass b key task event pc found waiting =>
    exact absurd (ready b key task pc found) (by simp [waiting])
  | proceed b key task event pc found runnable pc' =>
    simpa [inRestartArm, pc, pc'] using inside
  | pollBegin b key restart task c event pc found free caller entered =>
    cases restart with
    | false => simp [inRestartArm, pc] at inside
    | true =>
      have flag : task.flag = .uninit :=
        sound.uninit key _ _ (by rw [pc]; rfl) (control_of_get found)
      have here : key = k := by simpa [inRestartArm, pc] using inside
      have pc' := entered.pc'
      rw [caller, flag] at pc'
      simp [inRestartArm, pc', here, handleTask, Caller.status, Pc.atStage]
  | unwound c key stage event pc =>
    subst event
    exact absurd inside (by simpa [panicsInRestart, taken] using calm)
  | arm b key task c event pc => simp [inRestartArm, pc] at inside
  | begins second event begins =>
    cases begins <;> simp_all [inRestartArm]
  | enter w event pc => rcases pc with pc | ⟨v, pc⟩ <;> simp [inRestartArm, pc] at inside
  | nested key event busy hand => exact (sound.not_nested busy hand).elim
  | _ => simp_all [inRestartArm]

/-- What the sweep does for a request when its turn has come. -/
structure ServesRestart (k : TaskKey) (s : Wheel) (e : Event) (s' : Wheel) : Prop where
  /-- The destructor of the old future runs first, if there is one. -/
  drops : ∀ b t, e = .run → s.pc = .sweep b k → s.get k = some t → t.stopReason = .restart →
    s'.pc = match t.flag with
      | .created v => .inTask (.restart b) k (.dropOld v)
      | _ => .back (.restart b) k true
  /-- No future is left when the new one is created, which is polled at once. -/
  creates : discharges k s e = true →
    (∀ t, s.get k = some t → t.flag.value = none) ∧
    (∀ key t v, s.get key = some t → t.flag = .created v → v < s.nextFuture) ∧
    ∃ c, s'.pc = .inTask c k (.poll s.nextFuture)

theorem serves_step {k : TaskKey} {s s' : Wheel} {e : Event} (sound : Sound s) (stored : Stored s)
    (goes_on : e ≠ .drop) (h : s.step e = some s') : ServesRestart k s e s' := by
  constructor
  case drops =>
    rintro b t rfl pc found reason
    rw [restart_enters sound h pc found reason]
    cases t.flag <;> rfl
  case creates =>
    intro creates
    unfold discharges at creates
    split at creates
    · split at creates
      · rename_i b key pc
        have here : key = k := by
          have both := Bool.and_eq_true_iff.mp creates
          simpa using both.1
        subst here
        refine ⟨fun t found => stored.empty _ _ _ _ _ pc rfl (control_of_get found), ?_, ?_⟩
        · intro key' t v found flag
          have known := control_of_get found
          rw [flag] at known
          exact stored.issued key' _ v known
        · simp only [step, created, pc] at h
          cases h
          exact ⟨_, rfl⟩
      · cases creates
    · cases creates

/-- All that a step needs to know of the state it starts in. -/
structure Steady (s : Wheel) : Prop where
  sound : Sound s
  stored : Stored s
  ready : CheckRunnable s

theorem Fresh.steady {s : Wheel} (fresh : Fresh s) : Steady s where
  sound := fresh.sound
  stored := fresh.stored
  ready _ _ _ pc := nomatch fresh.pc.symm.trans pc

theorem steady_step {s s' : Wheel} {e : Event} (steady : Steady s) (goes_on : continues e = true)
    (h : s.step e = some s') : Steady s' := by
  have goes_on : e ≠ .drop := by rintro rfl; cases goes_on
  exact ⟨step_sound steady.sound goes_on h, stored_step steady.sound goes_on h steady.stored,
    check_step steady.sound goes_on h steady.ready⟩

theorem restarting_step {k : TaskKey} {s s' : Wheel} {e : Event} (steady : Steady s)
    (h : s.step e = some s') (keeps : keepsRestart k s e) (waits : discharges k s e = false)
    (restarting : Restarting k s) : Restarting k s' := by
  cases pending : awaitsRestart k s with
  | true => exact awaits_step steady.sound h keeps pending
  | false =>
    have inside : inRestartArm k s = true := restarting.resolve_left (by simp [pending])
    exact .inr (arm_step steady.sound steady.ready h keeps inside pending waits)

/-- A restart that has just been granted. -/
theorem awaits_of_restart {k : TaskKey} {s s' : Wheel} {e : Event}
    (request : s.succeeds e = some (.restart k)) (taken : s.step e = some s') :
    awaitsRestart k s' = true := by
  obtain ⟨session, rfl, valid, granted⟩ := succeeds_cases request
  rw [awaitsRestart_iff, call_get valid taken]
  rcases restart_cases s.alg k with no | ⟨task, found, pending, yes⟩ | ⟨task, found, _, yes⟩
  · simp [Wheel.granted, no] at granted
  · refine ⟨task, ?_, pending⟩
    simp only [perform, yes]
    exact found
  · have found' : (s.alg.restartCounts task.stopReason).registry[k]? = some task :=
      (congrArg (fun l => l[k]?) (restartCounts_registry _ _)).trans found
    refine ⟨(task.setStopReason .restart).setEnded false, ?_, rfl⟩
    simp only [perform, yes, get, StaticAlgorithm.get, StaticAlgorithm.update, List.getElem?_modify,
      found']
    simp

/-- After `restart(k)` has returned true the request stands until a new future of the
task has been created by the `Restart` arm, as long as no step overwrites it. -/
theorem restart_not_lost {k : TaskKey} {s₀ s s' : Wheel} {before after : List Event} {e : Event}
    (fresh : Fresh s₀) (run : exec step s₀ before = some s)
    (session : Along step (fun _ e _ => continues e = true) s₀ before)
    (request : s.succeeds e = some (.restart k)) (taken : s.step e = some s')
    (keeps : Along step (fun s e _ => keepsRestart k s e) s' after) :
    Until step (Restarting k) (discharges k) s' after ∧
      Along step (ServesRestart k) s' after := by
  have steady₀ : Steady s := invariant_along (P := fun _ e _ => continues e = true)
    (fun r e r' inv h goes_on => steady_step inv goes_on h) fresh.steady run session
  have goes_on : continues e = true := by
    obtain ⟨session, rfl, _⟩ := succeeds_cases request
    rfl
  have steady : Steady s' := steady_step steady₀ goes_on taken
  constructor
  · refine until_of_invariant (I := fun r => Steady r ∧ Restarting k r) ?_ (fun r inv => inv.2)
      ⟨steady, .inl (awaits_of_restart request taken)⟩ keeps
    intro r e r' inv h kept waits
    exact ⟨steady_step inv.1 kept.1 h, restarting_step inv.1 h kept waits inv.2⟩
  · refine along_of_invariant (I := Steady) ?_ steady keeps
    intro r e r' inv h kept
    have goes_on : e ≠ .drop := by rintro rfl; cases kept.1
    exact ⟨steady_step inv kept.1 h, serves_step inv.sound inv.stored goes_on h⟩

/-- The task has been created and waits. -/
def loneWaits : List Event :=
  [.poll 7, .run, .run, .run, .created, .done false] ++ List.replicate 7 .run

/-- The old future is dropped, a new one is created and finishes. -/
def loneRestarts : List Event :=
  [.poll 8, .run, .run, .dropped, .run, .run, .run, .created, .done true, .dropped] ++
  List.replicate 8 .run

theorem restart_not_lost_lone : ∃ s s', exec step (opened lone) loneWaits = some s ∧
    s.succeeds (.call 0 (.restart 0)) = some (.restart 0) ∧
    s.step (.call 0 (.restart 0)) = some s' ∧ (exec step s' loneRestarts).isSome = true ∧
    tally step (discharges 0) s' loneRestarts = 1 ∧
    Until step (Restarting 0) (discharges 0) s' loneRestarts ∧
    Along step (ServesRestart 0) s' loneRestarts := by
  have run : exec step (opened lone) loneWaits = some (last step (opened lone) loneWaits) :=
    exec_last (by decide +kernel)
  have taken : (last step (opened lone) loneWaits).step (.call 0 (.restart 0)) =
      some (last step (last step (opened lone) loneWaits) [.call 0 (.restart 0)]) :=
    step_last (by decide +kernel)
  exact ⟨_, _, run, by decide +kernel, taken, by decide +kernel, by decide +kernel,
    restart_not_lost lone_fresh run (by decide +kernel) (by decide +kernel) taken
      (by decide +kernel)⟩

/-- The poll in which the request was made returns Ready. -/
def finishes : List Event := [.done true, .dropped, .run]

/-- A task that restarts itself and returns Ready in the same poll is not restarted: the
stop reason Finished is written over the request. -/
theorem selfRestart_lost : Fresh (opened lone) ∧
    ∃ s s' t, exec step (opened lone) inFirst = some s ∧
    s.succeeds (.call 0 (.restart 0)) = some (.restart 0) ∧
    s.step (.call 0 (.restart 0)) = some s' ∧
    Along step (fun s e _ => continues e = true ∧ s.succeeds e ≠ some (.suspend 0) ∧
      s.succeeds e ≠ some (.cancel 0)) s' finishes ∧
    exec step s' finishes = some t ∧ (t.get 0).map StaticFuture.stopReason = some .finished ∧
    ¬ Until step (Restarting 0) (discharges 0) s' finishes := by
  have run : exec step (opened lone) inFirst = some (last step (opened lone) inFirst) :=
    exec_last (by decide +kernel)
  have taken : (last step (opened lone) inFirst).step (.call 0 (.restart 0)) =
      some (last step (last step (opened lone) inFirst) [.call 0 (.restart 0)]) :=
    step_last (by decide +kernel)
  have ends : exec step (last step (last step (opened lone) inFirst) [.call 0 (.restart 0)]) finishes =
      some (last step (last step (last step (opened lone) inFirst) [.call 0 (.restart 0)])
        finishes) := exec_last (by decide +kernel)
  exact ⟨lone_fresh, _, _, _, run, by decide +kernel, taken, by decide +kernel, ends,
    by decide +kernel, by decide +kernel⟩

end Wheel
end Juggle.St
