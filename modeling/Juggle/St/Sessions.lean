import Juggle.St.Invariant

/-! From session to session: what `init`, `dispose` and everything between them leave
for the next `try_lock`. -/
namespace Juggle.St
open Juggle.Utils Juggle.Count Juggle.Runs

namespace StaticFuture

/-- What no step but the first `init` changes. -/
def shape (task : StaticFuture) : Bool × Option String × Bool :=
  (task.startSuspended, task.name, task.hasFlags)

end StaticFuture

/-- The shape of a task after the first `init`. -/
def StaticParams.shape (params : StaticParams) : Bool × Option String × Bool :=
  (params.suspended, params.name, true)

namespace Pc

def pollsLocal : Pc → Bool
  | .inTask (.pollLocal _ _) _ _ => true
  | _ => false

/-- `init` is at work on a lock that was used before. -/
def initialising : Pc → Bool
  | .init _ _ => true
  | .inTask (.init _) _ _ => true
  | .back (.init _) _ _ => true
  | _ => false

end Pc

namespace Wheel

def shapes (s : Wheel) : List (Bool × Option String × Bool) := s.tasks.map StaticFuture.shape

theorem shapes_update (s : Wheel) (key : TaskKey) (f : StaticFuture → StaticFuture)
    (same : ∀ t, (f t).shape = t.shape) : (s.update key f).shapes = s.shapes := by
  refine List.ext_getElem? (fun i => ?_)
  simp only [shapes, tasks, update, withAlg, StaticAlgorithm.update, List.getElem?_map,
    List.getElem?_modify]
  by_cases here : key = i
  · simp [here, Function.comp_def, same]
  · simp [here]

theorem shapes_leave (s : Wheel) (c : Caller) (key : TaskKey) (isReady : Bool) :
    (s.leave c key isReady).shapes = s.shapes := by
  have same := shapes_update s key (StaticFuture.setPolling false) (fun _ => rfl)
  unfold leave
  cases c <;> exact same

theorem shapes_atStage (s : Wheel) (c : Caller) (key : TaskKey) (stage : Stage) :
    (s.atStage c key stage).shapes = s.shapes := by
  cases stage with
  | leave isReady => exact shapes_leave s c key isReady
  | _ => rfl

theorem shapes_pollProtected (s : Wheel) (c : Caller) (key : TaskKey) :
    (s.pollProtected c key).shapes = s.shapes := by
  unfold pollProtected
  split
  · rfl
  · split
    · rfl
    · exact (shapes_atStage _ _ _ _).trans (shapes_update s key _ (fun _ => rfl))

theorem shapes_settle (s : Wheel) : s.settle.shapes = s.shapes := by
  simp only [shapes, tasks, settle_alg]

theorem shapes_perform (s : Wheel) (c : Call) : (s.perform c).shapes = s.shapes := by
  cases c with
  | resume key =>
    rcases resume_cases s.alg key with no | ⟨task, found, held, yes⟩
    · simp only [perform, no]
    · simp only [perform, yes]
      exact shapes_update s key _ (fun _ => rfl)
  | suspend key =>
    rcases suspend_cases s.alg key with no | ⟨task, r, found, free, yes⟩
    · simp only [perform, no]
    · simp only [perform, yes]
      exact shapes_update s key _ (fun _ => rfl)
  | restart key =>
    rcases restart_cases s.alg key with no | ⟨_, _, _, no⟩ | ⟨task, found, fresh, yes⟩
    · simp only [perform, no]
    · simp only [perform, no]
    · have same := shapes_update s key (fun t => (t.setStopReason .restart).setEnded false)
        (fun _ => rfl)
      simp only [perform, yes]
      simpa only [shapes, tasks, update, withAlg, StaticAlgorithm.update, restartCounts_registry]
        using same
  | cancel key =>
    rcases cancel_cases s.alg key with no | ⟨task, found, live, yes⟩
    · simp only [perform, no]
    · have same := shapes_update s key (StaticFuture.setStopReason .cancelled) (fun _ => rfl)
      simp only [perform, yes]
      split <;> exact same
  | _ => rfl

theorem shapes_notifyWake (s : Wheel) : s.notifyWake.shapes = s.shapes := by
  simp only [shapes, notifyWake_same]

/-! What happens beside the wheel's own code: handle calls, and wakers on any thread. -/

def beside : Event → Bool
  | .call _ _ => true
  | .wake _ => true
  | .wakeBegin _ => true
  | .wakeStep _ => true
  | _ => false

/-- The generation and the number of sessions that have ended. -/
def epoch (s : Wheel) : Nat × Nat := (s.alg.currentGeneration, s.session)

theorem epoch_settle (s : Wheel) : s.settle.epoch = s.epoch := by
  unfold settle
  split <;> rfl

/-- A handle operation writes to the registry and to the counters only. -/
theorem perform_frame (s : Wheel) (c : Call) :
    (s.perform c).alg.currentGeneration = s.alg.currentGeneration ∧
      (s.perform c).alg.current = s.alg.current := by
  cases c with
  | resume key =>
    rcases resume_cases s.alg key with no | ⟨task, found, held, yes⟩
    · simp only [perform, no, and_self]
    · simp only [perform, yes]
      exact ⟨rfl, rfl⟩
  | suspend key =>
    rcases suspend_cases s.alg key with no | ⟨task, r, found, free, yes⟩
    · simp only [perform, no, and_self]
    · simp only [perform, yes]
      exact ⟨rfl, rfl⟩
  | restart key =>
    rcases restart_cases s.alg key with no | ⟨_, _, _, no⟩ | ⟨task, found, fresh, yes⟩
    · simp only [perform, no, and_self]
    · simp only [perform, no, and_self]
    · simp only [perform, yes]
      cases task.stopReason <;> exact ⟨rfl, rfl⟩
  | cancel key =>
    rcases cancel_cases s.alg key with no | ⟨task, found, live, yes⟩
    · simp only [perform, no, and_self]
    · simp only [perform, yes]
      split <;> exact ⟨rfl, rfl⟩
  | _ => exact ⟨rfl, rfl⟩

theorem epoch_perform (s : Wheel) (c : Call) : (s.perform c).epoch = s.epoch := by
  unfold epoch
  rw [(perform_frame s c).1]
  cases c <;> rfl

/-- All that a step beside the wheel's own code leaves alone. -/
structure Aside (s s' : Wheel) : Prop where
  pc' : s'.pc = s.pc ∨ ∃ v, s.pc = .returned v ∧ s'.pc = .idle
  kept : Kept s s'
  shapes : s'.shapes = s.shapes
  epoch : s'.epoch = s.epoch
  current : s'.alg.current = s.alg.current

/-- Settling afterwards takes a fresh answer away and nothing else. -/
theorem Aside.settle {s s₀ : Wheel} (aside : Aside s s₀) (pc : s₀.pc = s.pc) :
    Aside s s₀.settle where
  pc' := by
    unfold Wheel.settle
    split
    · rename_i v returned
      exact .inr ⟨v, pc ▸ returned, rfl⟩
    · exact .inl pc
  kept :=
    have same : Kept s₀ s₀.settle := .of_alg (by rw [settle_alg]) (by unfold Wheel.settle; split <;> rfl)
    ⟨fun k => (same.control k).trans (aside.kept.control k), same.future.trans aside.kept.future⟩
  shapes := (shapes_settle s₀).trans aside.shapes
  epoch := (epoch_settle s₀).trans aside.epoch
  current := by rw [settle_alg, aside.current]

theorem Aside.refl (s : Wheel) : Aside s s where
  pc' := .inl rfl
  kept := .of_alg rfl rfl
  shapes := rfl
  epoch := rfl
  current := rfl

theorem perform_aside (s : Wheel) (c : Call) : Aside s (s.perform c) where
  pc' := .inl (perform_pc s c)
  kept := perform_kept s c
  shapes := shapes_perform s c
  epoch := epoch_perform s c
  current := (perform_frame s c).2

theorem wake_aside (s : Wheel) (target : TaskKey) :
    Aside s (s.notifyWake.storeRunnable target) := by
  have shapes : (s.notifyWake.storeRunnable target).shapes = s.shapes :=
    (shapes_update s.notifyWake target (StaticFuture.setRunnable true) (fun _ => rfl)).trans
      (shapes_notifyWake s)
  have alg : s.notifyWake.alg.registry = s.alg.registry := (notifyWake_same s).1
  refine ⟨.inl (notifyWake_pc s), ?_, shapes, ?_, ?_⟩
  · refine .of_update (k := target) (f := StaticFuture.setRunnable true) (fun _ => rfl) ?_ ?_
    · rw [← alg]
      rfl
    · unfold notifyWake
      split <;> rfl
  · unfold notifyWake
    split <;> rfl
  · unfold notifyWake
    split <;> rfl

theorem aside_step {s s' : Wheel} {e : Event} (outside : beside e = true)
    (h : s.step e = some s') : Aside s s' := by
  cases e with
  | call session c =>
    simp only [step, call] at h
    split at h
    · cases h
      split
      · exact (perform_aside s c).settle (perform_pc s c)
      · exact (Aside.refl s).settle rfl
    · cases h
  | wake target =>
    simp only [step, wake] at h
    split at h
    · cases h
      exact (wake_aside s target).settle (notifyWake_pc s)
    · cases h
  | wakeBegin target =>
    cases h
    exact ⟨.inl rfl, .of_alg rfl rfl, rfl, rfl, rfl⟩
  | wakeStep i =>
    simp only [step, wakeStep] at h
    split at h
    · cases h
    · cases h
      exact ⟨.inl rfl, .of_alg rfl rfl, rfl, rfl, rfl⟩
    · cases h
      exact ⟨.inl rfl, .of_alg rfl rfl, rfl, rfl, rfl⟩
    · rename_i target _
      cases h
      have shapes := shapes_update s target (StaticFuture.setRunnable true) (fun _ => rfl)
      have kept : Kept s (s.storeRunnable target) :=
        .of_update (k := target) (f := StaticFuture.setRunnable true) (fun _ => rfl) rfl rfl
      exact ⟨.inl rfl, ⟨kept.control, kept.future⟩, shapes, rfl, rfl⟩
  | _ => cases outside

theorem shapes_visit (s : Wheel) (b : Beat) (key : TaskKey) (task : StaticFuture) :
    (s.visit b key task).shapes = s.shapes := by
  unfold visit
  split
  · split <;> rfl
  · exact (shapes_pollProtected _ _ _).trans (shapes_update s key _ (fun _ => rfl))
  · exact (shapes_pollProtected _ _ _).trans (shapes_update s key _ (fun _ => rfl))
  · exact (shapes_pollProtected _ _ _).trans (shapes_update s key _ (fun _ => rfl))
  · rfl
  · rfl

theorem shapes_resume (s : Wheel) (c : Caller) (key : TaskKey) (isReady : Bool) :
    (s.resume c key isReady).shapes = s.shapes := by
  cases c with
  | cancelled b => rfl
  | restart b => exact shapes_update s key _ (fun _ => rfl)
  | restartSuspended b => exact shapes_update s key _ (fun _ => rfl)
  | pollLocal b restart =>
    cases isReady with
    | true => exact shapes_update s key _ (fun _ => rfl)
    | false => rfl
  | cleanup unwinding => exact shapes_update s key _ (fun _ => rfl)
  | init suspended => exact shapes_update s key _ (fun _ => rfl)

theorem shapes_dispose (s : Wheel) (unwinding : Bool) : (s.dispose unwinding).shapes = s.shapes := by
  unfold dispose
  split <;> rfl

theorem shapes_run {s s' : Wheel} (h : s.run = some s') : s'.shapes = s.shapes := by
  unfold run at h
  split at h
  · cases h
    rfl
  · split at h
    · cases h
      exact shapes_visit _ _ _ _
    · cases h
      simp only [shapes, tasks, endBeat_same]
  · split at h
    · cases h
      split <;> rfl
    · cases h
  · cases h
    exact (shapes_pollProtected _ _ _).trans (shapes_update (s.setCurrent _) _ _ (fun _ => rfl))
  · cases h
    exact shapes_resume _ _ _ _
  · cases h
    rfl
  · cases h
    rfl
  · cases h
    split
    · exact shapes_pollProtected _ _ _
    · rfl
  · cases h
    split
    · exact shapes_pollProtected _ _ _
    · rfl
  · cases h

theorem shapes_panic {s s' : Wheel} (h : s.panic = some s') : s'.shapes = s.shapes := by
  unfold panic at h
  split at h
  · rename_i c key stage _
    have same := shapes_update s key (StaticFuture.setPolling false) (fun _ => rfl)
    split at h
    · cases c with
      | cleanup unwinding =>
        cases unwinding with
        | true => cases h
        | false =>
          cases h
          exact (shapes_update _ key (StaticFuture.setStopReason .cancelled) (fun _ => rfl)).trans same
      | init suspended =>
        cases h
        exact (shapes_dispose _ _).trans same
      | _ =>
        cases h
        exact same
    · cases h
  · cases h

theorem step_shapes {s s' : Wheel} {e : Event} (h : s.step e = some s') (later : e ≠ .lock) :
    s'.shapes = s.shapes := by
  cases e with
  | call session c => exact (aside_step rfl h).shapes
  | wake target => exact (aside_step rfl h).shapes
  | wakeBegin target => exact (aside_step rfl h).shapes
  | wakeStep i => exact (aside_step rfl h).shapes
  | poll w =>
    simp only [step, poll] at h
    split at h
    all_goals cases h
    all_goals rfl
  | run => exact shapes_run h
  | dropped =>
    simp only [step, dropped] at h
    split at h
    · cases h
      exact shapes_atStage _ _ _ _
    · cases h
      exact shapes_leave _ _ _ _
    · cases h
  | created =>
    simp only [step, created] at h
    split at h
    · cases h
      exact (shapes_atStage _ _ _ _).trans (shapes_update { s with nextFuture := s.nextFuture + 1 }
        _ (StaticFuture.setFlag _) (fun _ => rfl))
    · cases h
  | done isReady =>
    simp only [step, done] at h
    split at h
    · cases h
      exact (shapes_atStage _ _ _ _).trans (shapes_update s _ (StaticFuture.setFlag _) (fun _ => rfl))
    · cases h
  | panic => exact shapes_panic h
  | lock => exact absurd rfl later
  | drop =>
    simp only [step, drop] at h
    split at h
    · cases h
      exact shapes_dispose _ _
    · cases h
      exact shapes_dispose _ _
    · cases h

theorem length_of_shapes {s s' : Wheel} (same : s'.shapes = s.shapes) :
    s'.tasks.length = s.tasks.length := by
  simpa [shapes] using congrArg List.length same

/-! The guard of `poll_protected` over all sessions. -/

theorem guarded_of_quiet {s : Wheel} (quiet : ∀ k p f, s.control k = some (p, f) → p = false)
    (free : s.pc.subject = none) : Guarded s where
  polling k p f found := by
    rw [quiet k p f found, (Pc.idle_hands free).1]
    exact ⟨nofun, nofun⟩
  present k hand := nomatch free.symm.trans hand
  stage c k stage pc := by
    rw [pc] at free
    cases free

/-- The thread leaves all tasks alone and goes where it has none in hand. -/
theorem Guarded.kept {s s' : Wheel} (guarded : Guarded s) (outside : s.pc.inside = none)
    (kept : Kept s s') (free : s'.pc.subject = none) : Guarded s' :=
  guarded_of_quiet (fun k _ _ found => guarded.quiet outside ((kept.control k).symm.trans found)) free

/-- The thread enters `poll_protected` in order to drop a task. -/
theorem Guarded.enters {s s' : Wheel} (guarded : Guarded s) (outside : s.pc.inside = none)
    {c : Caller} (drop : c.polls = false) {key : TaskKey} {task : StaticFuture}
    (found : s.get key = some task) (length : s'.tasks.length = s.tasks.length)
    (entered : Staged s s' c key (handleTask task.flag c.status).2 true
      (handleTask task.flag c.status).1) : Guarded s' where
  polling _ _ _ hold := entered.polling (fun _ _ _ _ hold => guarded.quiet outside hold) hold
  present k hand := by
    rw [entered.pc', Pc.atStage_subject] at hand
    cases hand
    rw [length]
    exact (List.getElem?_eq_some_iff.mp found).1
  stage c' k stage pc _ := by
    rw [entered.pc'] at pc
    obtain ⟨rfl, rfl, rfl⟩ := Pc.atStage_eq_inTask pc
    rcases handleTask_drop_stage task.flag (Caller.drops drop) with ⟨v, eq⟩ | eq
    · exact ⟨v, eq⟩
    · rw [eq] at pc
      cases pc

/-- A loop over the registry drops the task at the key, or has come to its end. -/
theorem Guarded.walks {s s' r : Wheel} (guarded : Guarded s) (outside : s.pc.inside = none)
    {c : Caller} (drop : c.polls = false) {key : TaskKey}
    (goes : s' = if key < s.alg.registry.length then s.pollProtected c key else r)
    (length : s'.tasks.length = s.tasks.length) (kept : Kept s r) (free : r.pc.subject = none) :
    Guarded s' := by
  by_cases bound : key < s.alg.registry.length
  · rw [if_pos bound] at goes
    subst goes
    have found : s.get key = some s.alg.registry[key] := List.getElem?_eq_getElem bound
    exact guarded.enters outside drop found length
      (pollProtected_staged found (guarded.unpolled outside found))
  · rw [if_neg bound] at goes
    exact goes ▸ guarded.kept outside kept free

theorem dispose_pc (s : Wheel) (unwinding : Bool) : (s.dispose unwinding).pc.subject = none := by
  unfold dispose
  split <;> rfl

theorem dispose_kept (s : Wheel) (unwinding : Bool) : Kept s (s.dispose unwinding) := by
  unfold dispose
  split <;> exact .of_alg rfl rfl

theorem guarded_run {s s' : Wheel} (guarded : Guarded s) (h : s.step .run = some s') : Guarded s' := by
  have length := length_of_shapes (step_shapes h nofun)
  cases session : s.pc.inSession with
  | true => exact guarded_of_move guarded (run_move session h) length
  | false =>
    simp only [step, run] at h
    cases pc : s.pc with
    | dispose unwinding key =>
      have outside : s.pc.inside = none := by rw [pc]; rfl
      simp only [pc, Option.some.injEq] at h
      exact guarded.walks outside rfl h.symm length (.of_alg rfl rfl) rfl
    | init suspended key =>
      have outside : s.pc.inside = none := by rw [pc]; rfl
      simp only [pc, Option.some.injEq] at h
      exact guarded.walks outside rfl h.symm length (.of_alg rfl rfl) rfl
    | back c key isReady =>
      have outside : s.pc.inside = none := by rw [pc]; rfl
      simp only [pc, Option.some.injEq] at h
      subst h
      cases c with
      | cleanup unwinding =>
        exact guarded.kept outside
          (.of_update (k := key) (setStopReason_control .cancelled) rfl rfl) rfl
      | init suspended =>
        exact guarded.kept outside
          (.of_update (k := key) (f := StaticFuture.reset true) (fun _ => rfl) rfl rfl) rfl
      | _ => simp [pc, Pc.inSession, Caller.inSession] at session
    | _ => simp_all [Pc.inSession]

/-- After a panic the task is not being polled any more, and no other one is. -/
theorem Guarded.unwound {s s' : Wheel} (guarded : Guarded s) {c : Caller} {key : TaskKey}
    {stage : Stage} (pc : s.pc = .inTask c key stage)
    (kept : Kept (s.update key (StaticFuture.setPolling false)) s') (free : s'.pc.subject = none) :
    Guarded s' := by
  refine guarded_of_quiet (fun k p f found => ?_) free
  rw [kept.control] at found
  by_cases here : k = key
  · subst here
    rw [control_update_self] at found
    obtain ⟨task, _, eq⟩ := Option.map_eq_some_iff.mp found
    exact (congrArg Prod.fst eq).symm
  · rw [control_update_other s _ here] at found
    cases p with
    | false => rfl
    | true =>
      have at_key := (guarded.polling k true f found).mp rfl
      rw [pc] at at_key
      exact absurd (Option.some.inj at_key).symm here

theorem guarded_panic {s s' : Wheel} (guarded : Guarded s) (h : s.step .panic = some s') :
    Guarded s' := by
  simp only [step, panic] at h
  split at h
  · rename_i c key stage pc
    split at h
    · cases c with
      | cleanup unwinding =>
        cases unwinding with
        | true => cases h
        | false =>
          cases h
          exact guarded.unwound pc
            (.of_update (k := key) (setStopReason_control .cancelled) rfl rfl) rfl
      | init suspended =>
        cases h
        exact guarded.unwound pc (dispose_kept _ _) (dispose_pc _ _)
      | pollLocal b restart =>
        cases h
        exact guarded.unwound pc (.of_alg rfl rfl) rfl
      | _ =>
        cases h
        exact guarded.unwound pc (.of_alg rfl rfl) rfl
    · cases h
  · cases h

theorem firstInit_control (l : List StaticFuture) :
    (firstInit l).1.map StaticFuture.control = l.map StaticFuture.control := by
  induction l with
  | nil => rfl
  | cons task l ih =>
    simp only [firstInit]
    split
    · rfl
    · simp only [List.map_cons, ih]
      rfl

theorem guarded_lock {s s' : Wheel} (guarded : Guarded s) (h : s.step .lock = some s') :
    Guarded s' := by
  simp only [step, lock] at h
  split at h
  · rename_i pc
    have outside : s.pc.inside = none := by rw [pc]; rfl
    have kept : Kept s (s.withAlg (fun alg => { alg with registry := (firstInit alg.registry).1 })) := by
      refine ⟨fun k => ?_, rfl⟩
      have same := congrArg (fun l => l[k]?) (firstInit_control s.alg.registry)
      simp only [List.getElem?_map] at same
      exact same
    split at h
    · cases h
      split
      · have rest := dispose_kept
          (s.withAlg (fun alg => { alg with registry := (firstInit alg.registry).1 })) true
        exact guarded.kept outside ⟨fun k => (rest.control k).trans (kept.control k),
          rest.future.trans kept.future⟩ (dispose_pc _ _)
      · exact guarded.kept outside ⟨kept.control, kept.future⟩ rfl
    · cases h
      exact guarded.kept outside (.of_alg rfl rfl) rfl
  · cases h

theorem step_guarded {s s' : Wheel} {e : Event} (guarded : Guarded s) (h : s.step e = some s') :
    Guarded s' := by
  cases e with
  | call session c => exact guarded_of_move guarded (call_move h) (length_of_shapes (step_shapes h nofun))
  | wake target => exact guarded_of_move guarded (wake_move h) (length_of_shapes (step_shapes h nofun))
  | wakeBegin target =>
    cases h
    exact ⟨guarded.polling, guarded.present, guarded.stage⟩
  | wakeStep i => exact guarded_of_move guarded (wakeStep_move h) (length_of_shapes (step_shapes h nofun))
  | poll w => exact guarded_of_move guarded (poll_move h) (length_of_shapes (step_shapes h nofun))
  | run => exact guarded_run guarded h
  | dropped => exact guarded_of_move guarded (dropped_move h) (length_of_shapes (step_shapes h nofun))
  | created => exact guarded_of_move guarded (created_move h) (length_of_shapes (step_shapes h nofun))
  | done isReady => exact guarded_of_move guarded (done_move h) (length_of_shapes (step_shapes h nofun))
  | panic => exact guarded_panic guarded h
  | lock => exact guarded_lock guarded h
  | drop =>
    simp only [step, drop] at h
    split at h
    · rename_i pc
      cases h
      exact guarded.kept (by rw [pc]; rfl) (dispose_kept _ _) (dispose_pc _ _)
    · rename_i v pc
      cases h
      exact guarded.kept (by rw [pc]; rfl) (dispose_kept _ _) (dispose_pc _ _)
    · cases h

/-! Handles of earlier sessions. -/

theorem epoch_atStage (s : Wheel) (c : Caller) (key : TaskKey) (stage : Stage) :
    (s.atStage c key stage).epoch = s.epoch := by
  cases stage <;> cases c <;> rfl

theorem epoch_pollProtected (s : Wheel) (c : Caller) (key : TaskKey) :
    (s.pollProtected c key).epoch = s.epoch := by
  unfold pollProtected
  split
  · rfl
  · split
    · rfl
    · exact epoch_atStage _ _ _ _

theorem epoch_visit (s : Wheel) (b : Beat) (key : TaskKey) (task : StaticFuture) :
    (s.visit b key task).epoch = s.epoch := by
  unfold visit
  split
  · split <;> rfl
  · exact epoch_pollProtected _ _ _
  · exact epoch_pollProtected _ _ _
  · exact epoch_pollProtected _ _ _
  · rfl
  · rfl

theorem epoch_endBeat (s : Wheel) (b : Beat) : (s.endBeat b).epoch = s.epoch := by
  unfold endBeat
  split
  · rfl
  · rfl
  · rfl
  · dsimp only
    split <;> rfl

theorem epoch_resume (s : Wheel) (c : Caller) (key : TaskKey) (isReady : Bool) :
    (s.resume c key isReady).epoch = s.epoch := by
  cases c with
  | pollLocal b restart => cases isReady <;> rfl
  | _ => rfl

/-- The epoch stays, or `dispose` has ended the session. -/
def Passes (s s' : Wheel) : Prop :=
  s'.epoch = s.epoch ∨ s'.epoch = (wrappingInc s.alg.currentGeneration, s.session + 1)

theorem dispose_passes (s : Wheel) (unwinding : Bool) : Passes s (s.dispose unwinding) := by
  unfold dispose
  split
  · exact .inr rfl
  · exact .inl rfl

theorem run_passes {s s' : Wheel} (h : s.run = some s') : Passes s s' := by
  unfold run at h
  split at h
  · cases h
    exact .inl rfl
  · split at h
    · cases h
      exact .inl (epoch_visit _ _ _ _)
    · cases h
      exact .inl (epoch_endBeat _ _)
  · split at h
    · cases h
      split <;> exact .inl rfl
    · cases h
  · cases h
    exact .inl (epoch_pollProtected _ _ _)
  · cases h
    exact .inl (epoch_resume _ _ _ _)
  · cases h
    exact .inl rfl
  · cases h
    exact .inl rfl
  · cases h
    split
    · exact .inl (epoch_pollProtected _ _ _)
    · exact .inr rfl
  · cases h
    split
    · exact .inl (epoch_pollProtected _ _ _)
    · exact .inl rfl
  · cases h

theorem step_passes {s s' : Wheel} {e : Event} (h : s.step e = some s') : Passes s s' := by
  cases e with
  | call session c => exact .inl (aside_step rfl h).epoch
  | wake target => exact .inl (aside_step rfl h).epoch
  | wakeBegin target => exact .inl (aside_step rfl h).epoch
  | wakeStep i => exact .inl (aside_step rfl h).epoch
  | poll w =>
    simp only [step, poll] at h
    split at h
    all_goals cases h
    all_goals exact .inl rfl
  | run => exact run_passes h
  | dropped =>
    simp only [step, dropped] at h
    split at h
    · cases h
      exact .inl (epoch_atStage _ _ _ _)
    · rename_i c key v pc
      cases h
      exact .inl (epoch_atStage s c key (.leave true))
    · cases h
  | created =>
    simp only [step, created] at h
    split at h
    · cases h
      exact .inl (epoch_atStage _ _ _ _)
    · cases h
  | done isReady =>
    simp only [step, done] at h
    split at h
    · cases h
      exact .inl (epoch_atStage _ _ _ _)
    · cases h
  | panic =>
    simp only [step, panic] at h
    split at h
    · rename_i c key stage pc
      split at h
      · cases c with
        | cleanup unwinding =>
          cases unwinding <;> cases h
          exact .inl rfl
        | init suspended =>
          cases h
          exact dispose_passes _ _
        | _ =>
          cases h
          exact .inl rfl
      · cases h
    · cases h
  | lock =>
    simp only [step, lock] at h
    split at h
    · split at h
      · cases h
        split
        · exact dispose_passes _ _
        · exact .inl rfl
      · cases h
        exact .inl rfl
    · cases h
  | drop =>
    simp only [step, drop] at h
    split at h
    · cases h
      exact dispose_passes _ _
    · cases h
      exact dispose_passes _ _
    · cases h

/-- The generation counts the sessions, as far as a `usize` can. -/
def Aligned (s : Wheel) : Prop := s.alg.currentGeneration = s.session % (usizeMax + 1)

theorem aligned_step {s s' : Wheel} {e : Event} (aligned : Aligned s) (h : s.step e = some s') :
    Aligned s' := by
  unfold Aligned at aligned ⊢
  rcases step_passes h with same | next
  · have generation : s'.alg.currentGeneration = s.alg.currentGeneration := congrArg Prod.fst same
    have session : s'.session = s.session := congrArg Prod.snd same
    rw [generation, session]
    exact aligned
  · have generation : s'.alg.currentGeneration = wrappingInc s.alg.currentGeneration :=
      congrArg Prod.fst next
    have session : s'.session = s.session + 1 := congrArg Prod.snd next
    rw [generation, session, aligned]
    exact wrappingInc_mod s.session

/-- Up to `2 ^ 64` sessions a handle of an earlier one is refused. -/
theorem Aligned.stale {s : Wheel} (aligned : Aligned s) (few : s.session ≤ usizeMax) {session : Nat}
    (older : session < s.session) : s.isValid session = false := by
  unfold isValid
  have here : s.session % (usizeMax + 1) = s.session := Nat.mod_eq_of_lt (by omega)
  have there : session % (usizeMax + 1) = session := Nat.mod_eq_of_lt (by omega)
  rw [aligned, here, there]
  exact decide_eq_false (Nat.ne_of_lt older)

/-! `current` is set during a poll only. -/

theorem inTask_pollsLocal {c : Caller} {key : TaskKey} {stage : Stage} (drop : c.polls = false) :
    (Pc.inTask c key stage).pollsLocal = false := by
  cases c <;> first | rfl | cases drop

def Unhanded (s : Wheel) : Prop := s.pc.pollsLocal = false → s.alg.current = none

theorem Unhanded.same {s s' : Wheel} (unhanded : Unhanded s)
    (current : s'.alg.current = s.alg.current) (pc : s.pc.pollsLocal = true → s'.pc.pollsLocal = true) :
    Unhanded s' := by
  intro outside
  rw [current]
  refine unhanded ?_
  cases polls : s.pc.pollsLocal with
  | false => rfl
  | true => exact absurd (pc polls) (by simp [outside])

/-- A caller other than `poll_local` finds `current` unset, `poll_local` unsets it. -/
theorem unhanded_atStage (s : Wheel) (c : Caller) (key : TaskKey) (stage : Stage)
    (unset : c.polls = false → s.alg.current = none) : Unhanded (s.atStage c key stage) := by
  intro outside
  cases c with
  | pollLocal b restart =>
    cases stage with
    | leave isReady => rfl
    | _ => cases outside
  | _ => cases stage <;> exact unset rfl

theorem unhanded_pollProtected {s : Wheel} {c : Caller} {key : TaskKey} {task : StaticFuture}
    (found : s.get key = some task) (unset : c.polls = false → s.alg.current = none) :
    Unhanded (s.pollProtected c key) := by
  unfold pollProtected
  rw [found]
  dsimp only
  split
  · exact fun _ => rfl
  · exact unhanded_atStage _ _ _ _ unset

theorem dispose_unhanded {s : Wheel} {unwinding : Bool} (unset : s.alg.current = none) :
    Unhanded (s.dispose unwinding) := by
  unfold dispose
  split <;> exact fun _ => unset

theorem unhanded_visit {s : Wheel} {b : Beat} {key : TaskKey} {task : StaticFuture}
    (found : s.get key = some task) (unset : s.alg.current = none) : Unhanded (s.visit b key task) := by
  have prepared : ∀ f, (s.update key f).get key = some (f task) := by
    intro f
    rw [get_update_self, found]
    rfl
  unfold visit
  split
  · split <;> exact fun _ => unset
  · exact unhanded_pollProtected (prepared _) (fun _ => unset)
  · exact unhanded_pollProtected (prepared _) (fun _ => unset)
  · exact unhanded_pollProtected (prepared _) (fun _ => unset)
  · exact fun _ => unset
  · exact fun _ => unset

theorem unhanded_walks {s r : Wheel} {c : Caller} {key : TaskKey} (unset : s.alg.current = none)
    (rest : r.alg.current = none) :
    Unhanded (if key < s.alg.registry.length then s.pollProtected c key else r) := by
  by_cases bound : key < s.alg.registry.length
  · rw [if_pos bound]
    exact unhanded_pollProtected (List.getElem?_eq_getElem bound) (fun _ => unset)
  · rw [if_neg bound]
    exact fun _ => rest

theorem unhanded_run {s s' : Wheel} (guarded : Guarded s) (unhanded : Unhanded s)
    (h : s.run = some s') : Unhanded s' := by
  unfold run at h
  split at h
  · rename_i pc
    cases h
    exact fun _ => unhanded (by rw [pc]; rfl)
  · rename_i b key pc
    have unset := unhanded (by rw [pc]; rfl)
    split at h
    · rename_i task found
      cases h
      exact unhanded_visit found unset
    · cases h
      intro _
      rw [endBeat_same]
      exact unset
  · rename_i b key pc
    have unset := unhanded (by rw [pc]; rfl)
    split at h
    · cases h
      split <;> exact fun _ => unset
    · cases h
  · rename_i b key restart pc
    cases h
    obtain ⟨task, found⟩ := guarded.found (k := key) (by rw [pc]; rfl)
    have prepared : ((s.setCurrent (some key)).update key (StaticFuture.setRunnable false)).get key =
        some (task.setRunnable false) := by
      rw [get_update_self]
      exact congrArg _ found
    exact unhanded_pollProtected prepared nofun
  · rename_i c key isReady pc
    cases h
    have unset := unhanded (by rw [pc]; rfl)
    intro _
    cases c with
    | pollLocal b restart => cases isReady <;> exact unset
    | _ => exact unset
  · rename_i pc
    cases h
    exact fun _ => unhanded (by rw [pc]; rfl)
  · rename_i finished pc
    cases h
    exact fun _ => unhanded (by rw [pc]; rfl)
  · rename_i unwinding key pc
    cases h
    have unset := unhanded (by rw [pc]; rfl)
    exact unhanded_walks unset unset
  · rename_i suspended key pc
    cases h
    have unset := unhanded (by rw [pc]; rfl)
    exact unhanded_walks unset unset
  · cases h

theorem Aside.polls {s s' : Wheel} (aside : Aside s s') (polls : s.pc.pollsLocal = true) :
    s'.pc.pollsLocal = true := by
  rcases aside.pc' with same | ⟨v, pc, -⟩
  · rw [same, polls]
  · rw [pc] at polls
    cases polls

theorem step_unhanded {s s' : Wheel} {e : Event} (guarded : Guarded s) (unhanded : Unhanded s)
    (h : s.step e = some s') : Unhanded s' := by
  have beside : Aside s s' → Unhanded s' := fun aside => unhanded.same aside.current aside.polls
  cases e with
  | call session c => exact beside (aside_step rfl h)
  | wake target => exact beside (aside_step rfl h)
  | wakeBegin target => exact beside (aside_step rfl h)
  | wakeStep i => exact beside (aside_step rfl h)
  | poll w =>
    simp only [step, poll] at h
    split at h
    · rename_i pc
      cases h
      exact fun _ => unhanded (by rw [pc]; rfl)
    · rename_i v pc
      cases h
      exact fun _ => unhanded (by rw [pc]; rfl)
    · cases h
  | run => exact unhanded_run guarded unhanded h
  | dropped =>
    simp only [step, dropped] at h
    have unset : ∀ {c key stage}, s.pc = .inTask c key stage → c.polls = false → s.alg.current = none :=
      fun pc drop => unhanded (by rw [pc]; exact inTask_pollsLocal drop)
    split at h
    · rename_i c key v pc
      cases h
      exact unhanded_atStage _ _ _ _ (unset pc)
    · rename_i c key v pc
      cases h
      exact unhanded_atStage s c key (.leave true) (unset pc)
    · cases h
  | created =>
    simp only [step, created] at h
    split at h
    · rename_i c key pc
      cases h
      exact unhanded_atStage _ _ _ _ (fun drop => unhanded (by rw [pc]; exact inTask_pollsLocal drop))
    · cases h
  | done isReady =>
    simp only [step, done] at h
    split at h
    · rename_i c key v pc
      cases h
      exact unhanded_atStage _ _ _ _ (fun drop => unhanded (by rw [pc]; exact inTask_pollsLocal drop))
    · cases h
  | panic =>
    simp only [step, panic] at h
    split at h
    · rename_i c key stage pc
      split at h
      · have unset : c.polls = false → s.alg.current = none := fun drop =>
          unhanded (by rw [pc]; exact inTask_pollsLocal drop)
        cases c with
        | pollLocal b restart =>
          cases h
          exact fun _ => rfl
        | cleanup unwinding =>
          cases unwinding <;> cases h
          exact fun _ => unset rfl
        | init suspended =>
          cases h
          exact dispose_unhanded (unset rfl)
        | _ =>
          cases h
          exact fun _ => unset rfl
      · cases h
    · cases h
  | lock =>
    simp only [step, lock] at h
    split at h
    · rename_i pc
      have unset := unhanded (by rw [pc]; rfl)
      split at h
      · cases h
        split
        · exact dispose_unhanded unset
        · exact fun _ => unset
      · cases h
        exact fun _ => unset
    · cases h
  | drop =>
    simp only [step, drop] at h
    split at h
    · rename_i pc
      cases h
      exact dispose_unhanded (unhanded (by rw [pc]; rfl))
    · rename_i v pc
      cases h
      exact dispose_unhanded (unhanded (by rw [pc]; rfl))
    · cases h

/-! Before and after the first `init`. -/

/-- The definition has not been locked yet. -/
structure Unopened (config : List StaticParams) (s : Wheel) : Prop where
  pc : s.pc = .unlocked
  session : s.session = 0
  generation : s.alg.currentGeneration = 0
  tasks : s.tasks = config.map StaticFuture.new
  mark : s.alg.unfinishedCount = usizeMax
  current : s.alg.current = none

structure Opened (config : List StaticParams) (s : Wheel) : Prop where
  shapes : s.shapes = config.map StaticParams.shape
  guarded : Guarded s
  unhanded : Unhanded s
  aligned : Aligned s

/-- The state before a lock can be taken, and in every session after it. -/
def Known (config : List StaticParams) (s : Wheel) : Prop := Unopened config s ∨ Opened config s

/-- A wake before the first lock finds all tasks runnable already. -/
theorem setRunnable_new (config : List StaticParams) (key : TaskKey) :
    (config.map StaticFuture.new).modify key (StaticFuture.setRunnable true) =
      config.map StaticFuture.new := by
  refine List.ext_getElem? (fun i => ?_)
  rw [List.getElem?_modify, List.getElem?_map]
  cases config[i]? with
  | none => simp
  | some params => by_cases here : key = i <;> simp [here, StaticFuture.new, StaticFuture.setRunnable]

theorem Unopened.first {config : List StaticParams} {s : Wheel} (unopened : Unopened config s) :
    firstInit s.alg.registry =
      (config.map (fun params => (StaticFuture.new params).init.reset true), false) := by
  have tasks : s.alg.registry = config.map StaticFuture.new := unopened.tasks
  rw [tasks, firstInit_new]

/-- The first lock starts the first session. -/
theorem Unopened.lock {config : List StaticParams} {s s' : Wheel} (unopened : Unopened config s)
    (small : config.length < usizeMax) (h : s.step .lock = some s') :
    Fresh s' ∧ Opened config s' := by
  simp only [step, Wheel.lock, unopened.pc, unopened.mark, unopened.first, if_true,
    Bool.false_eq_true, if_false] at h
  cases h
  have fresh : Fresh ((s.withAlg (fun alg => { alg with
      registry := config.map (fun params => (StaticFuture.new params).init.reset true) })).started
        ((config.map (fun params => (StaticFuture.new params).init.reset true)).countP
          StaticFuture.startSuspended)) := by
    constructor
    case tasks =>
      intro task member
      obtain ⟨params, _, rfl⟩ := List.mem_map.mp member
      exact ⟨rfl, rfl, rfl, rfl, rfl, rfl⟩
    case small => simpa [Wheel.tasks, started, withAlg] using small
    case current => exact unopened.current
    all_goals rfl
  refine ⟨fresh, ?_, fresh.guarded, fun _ => unopened.current, ?_⟩
  · simp only [Wheel.shapes, Wheel.tasks, started, withAlg, List.map_map]
    rfl
  · have generation := unopened.generation
    have session := unopened.session
    simp only [Aligned, started, withAlg, generation, session, Nat.zero_mod]

theorem settle_eq {s : Wheel} (pc : ∀ v, s.pc ≠ .returned v) : s.settle = s := by
  unfold settle
  split
  · rename_i v returned
    exact absurd returned (pc v)
  · rfl

theorem Unopened.woken {config : List StaticParams} {s s' : Wheel} (unopened : Unopened config s)
    (target : TaskKey) (pc : s'.pc = s.pc) (session : s'.session = s.session)
    (generation : s'.alg.currentGeneration = s.alg.currentGeneration)
    (tasks : s'.tasks = s.tasks.modify target (StaticFuture.setRunnable true))
    (mark : s'.alg.unfinishedCount = s.alg.unfinishedCount)
    (current : s'.alg.current = s.alg.current) : Unopened config s' where
  pc := pc.trans unopened.pc
  session := session.trans unopened.session
  generation := generation.trans unopened.generation
  tasks := by rw [tasks, unopened.tasks, setRunnable_new]
  mark := mark.trans unopened.mark
  current := current.trans unopened.current

theorem unopened_step {config : List StaticParams} {s s' : Wheel} {e : Event}
    (unopened : Unopened config s) (small : config.length < usizeMax) (h : s.step e = some s') :
    Known config s' := by
  have pc := unopened.pc
  cases e with
  | call session c =>
    simp [step, call, live, pc, unopened.session] at h
  | wake target =>
    simp only [step, wake, userCode, pc, if_true] at h
    cases h
    have idle : (s.notifyWake.storeRunnable target).pc = .unlocked := (notifyWake_pc s).trans pc
    rw [settle_eq (by simp [idle])]
    unfold notifyWake
    cases s.alg.lastWaker with
    | none => exact .inl (unopened.woken target rfl rfl rfl rfl rfl rfl)
    | some w => exact .inl (unopened.woken target rfl rfl rfl rfl rfl rfl)
  | wakeBegin target =>
    cases h
    exact .inl ⟨unopened.pc, unopened.session, unopened.generation, unopened.tasks, unopened.mark,
      unopened.current⟩
  | wakeStep i =>
    simp only [step, wakeStep] at h
    split at h
    · cases h
    · cases h
      exact .inl ⟨unopened.pc, unopened.session, unopened.generation, unopened.tasks, unopened.mark,
        unopened.current⟩
    · cases h
      exact .inl ⟨unopened.pc, unopened.session, unopened.generation, unopened.tasks, unopened.mark,
        unopened.current⟩
    · rename_i target _
      cases h
      exact .inl (unopened.woken target rfl rfl rfl rfl rfl rfl)
  | lock => exact .inr (unopened.lock small h).2
  | _ => simp [step, poll, run, dropped, created, done, panic, drop, pc] at h

theorem Opened.flags {config : List StaticParams} {s : Wheel} (opened : Opened config s) :
    ∀ task ∈ s.tasks, task.hasFlags = true := by
  intro task member
  have shape : task.shape ∈ s.shapes := List.mem_map_of_mem member
  rw [opened.shapes] at shape
  obtain ⟨params, _, eq⟩ := List.mem_map.mp shape
  exact (congrArg (fun x => x.2.2) eq).symm

/-- Flags that are set make the first task panic. -/
theorem firstInit_set {l : List StaticFuture} (flags : ∀ task ∈ l, task.hasFlags = true) :
    firstInit l = (l, decide (l ≠ [])) := by
  cases l with
  | nil => rfl
  | cons task l => simp [firstInit, flags task List.mem_cons_self]

theorem opened_step {config : List StaticParams} {s s' : Wheel} {e : Event}
    (opened : Opened config s) (h : s.step e = some s') : Opened config s' := by
  refine ⟨?_, step_guarded opened.guarded h, step_unhanded opened.guarded opened.unhanded h,
    aligned_step opened.aligned h⟩
  refine Eq.trans ?_ opened.shapes
  by_cases later : e = .lock
  · subst later
    simp only [step, lock] at h
    split at h
    · split at h
      · cases h
        have kept : firstInit s.alg.registry = (s.alg.registry, _) := firstInit_set opened.flags
        have same : (s.withAlg (fun alg => { alg with
            registry := (firstInit s.alg.registry).1 })).shapes = s.shapes := by
          simp only [shapes, tasks, withAlg, kept]
        split
        · exact (shapes_dispose _ _).trans same
        · exact same
      · cases h
        rfl
    · cases h
  · exact step_shapes h later

theorem known_step {config : List StaticParams} (small : config.length < usizeMax) {s s' : Wheel}
    {e : Event} (known : Known config s) (h : s.step e = some s') : Known config s' :=
  known.elim (fun unopened => unopened_step unopened small h)
    (fun opened => .inr (opened_step opened h))

theorem reachable_known {config : List StaticParams} (small : config.length < usizeMax) {s : Wheel}
    (reach : Reachable step (fun s => s = new config) s) : Known config s := by
  refine invariant_reachable ?_ (fun r e r' known h => known_step small known h) reach
  rintro r rfl
  exact .inl ⟨rfl, rfl, rfl, rfl, rfl, rfl⟩

/-! The second loop of `init`. -/

/-- The tasks below the key have been reset, and the suspended ones of them counted. -/
structure Preparing (s : Wheel) (suspended : Nat) (key : TaskKey) : Prop where
  done : ∀ i t, i < key → s.get i = some t → t.Fresh
  count : suspended = (s.shapes.take key).countP (fun shape => shape.1)

/-- How far the loop has come. -/
inductive Setup (s : Wheel) : Prop where
  | head (suspended : Nat) (key : TaskKey) (pc : s.pc = .init suspended key)
      (prep : Preparing s suspended key)
  | dropping (suspended : Nat) (key : TaskKey) (v : FutureId)
      (pc : s.pc = .inTask (.init suspended) key (.dropOld v)) (prep : Preparing s suspended key)
      (flag : ∀ p f, s.control key = some (p, f) → f = .uninit)
  | back (suspended : Nat) (key : TaskKey) (isReady : Bool)
      (pc : s.pc = .back (.init suspended) key isReady) (prep : Preparing s suspended key)
      (flag : ∀ p f, s.control key = some (p, f) → f = .uninit)

/-- No destructor panics, and none uses a handle of an earlier session that more than
`2 ^ 64` sessions have made valid again. -/
def undisturbed (s : Wheel) (e : Event) : Prop :=
  e ≠ .panic ∧ ∀ session c, e = .call session c → s.session ≤ usizeMax ∨ s.isValid session = false

theorem Setup.initialising {s : Wheel} (setup : Setup s) : s.pc.initialising = true := by
  cases setup with
  | head suspended key pc => rw [pc]; rfl
  | dropping suspended key v pc => rw [pc]; rfl
  | back suspended key isReady pc => rw [pc]; rfl

theorem Preparing.kept {s s' : Wheel} {suspended : Nat} {key : TaskKey}
    (prep : Preparing s suspended key) (others : ∀ k, k ≠ key → s'.get k = s.get k)
    (shapes : s'.shapes = s.shapes) : Preparing s' suspended key where
  done i t below found := prep.done i t below (others i (Nat.ne_of_lt below) ▸ found)
  count := by rw [shapes]; exact prep.count

/-- A task that has been reset stays so when it is woken. -/
theorem Preparing.woken {s s' : Wheel} {suspended : Nat} {key target : TaskKey}
    (prep : Preparing s suspended key)
    (tasks : s'.tasks = s.tasks.modify target (StaticFuture.setRunnable true)) :
    Preparing s' suspended key where
  done i t' below after := by
    have length : s'.tasks.length = s.tasks.length := by rw [tasks, List.length_modify]
    have bound : i < s.tasks.length := length ▸ (List.getElem?_eq_some_iff.mp after).1
    have found : s.get i = some s.tasks[i] := List.getElem?_eq_getElem bound
    have fresh := prep.done i _ below found
    rcases get_of_modify tasks found with ⟨_, eq⟩ | ⟨_, eq⟩
    · rw [eq] at after
      cases after
      exact ⟨fresh.flags, rfl, fresh.reason, fresh.idle, fresh.flag, fresh.alive⟩
    · rw [eq] at after
      cases after
      exact fresh
  count := by
    have shapes : s'.shapes = s.shapes := by
      have := shapes_update s target (StaticFuture.setRunnable true) (fun _ => rfl)
      simp only [Wheel.shapes, tasks] at this ⊢
      exact this
    rw [shapes]
    exact prep.count

theorem Setup.woken {s s' : Wheel} {k : TaskKey} (setup : Setup s) (pc : s'.pc = s.pc)
    (tasks : s'.tasks = s.tasks.modify k (StaticFuture.setRunnable true))
    (future : s'.nextFuture = s.nextFuture) : Setup s' := by
  have kept : ∀ k, s'.control k = s.control k :=
    (Kept.of_update (f := StaticFuture.setRunnable true) (fun _ => rfl) tasks future).control
  cases setup with
  | head suspended key at_pc prep => exact .head suspended key (pc.trans at_pc) (prep.woken tasks)
  | dropping suspended key v at_pc prep flag =>
    exact .dropping suspended key v (pc.trans at_pc) (prep.woken tasks)
      (fun p f found => flag p f ((kept key).symm.trans found))
  | back suspended key isReady at_pc prep flag =>
    exact .back suspended key isReady (pc.trans at_pc) (prep.woken tasks)
      (fun p f found => flag p f ((kept key).symm.trans found))

theorem Setup.same {s s' : Wheel} (setup : Setup s) (pc : s'.pc = s.pc)
    (tasks : s'.tasks = s.tasks) : Setup s' := by
  have get : ∀ k, s'.get k = s.get k := fun k => congrArg (fun l => l[k]?) tasks
  have shapes : s'.shapes = s.shapes := by simp only [Wheel.shapes, tasks]
  have control : ∀ k, s'.control k = s.control k := fun k => by
    simp only [Wheel.control, get]
  cases setup with
  | head suspended key at_pc prep =>
    exact .head suspended key (pc.trans at_pc) (prep.kept (fun k _ => get k) shapes)
  | dropping suspended key v at_pc prep flag =>
    exact .dropping suspended key v (pc.trans at_pc) (prep.kept (fun k _ => get k) shapes)
      (fun p f found => flag p f ((control key).symm.trans found))
  | back suspended key isReady at_pc prep flag =>
    exact .back suspended key isReady (pc.trans at_pc) (prep.kept (fun k _ => get k) shapes)
      (fun p f found => flag p f ((control key).symm.trans found))

theorem leave_get_other (s : Wheel) (c : Caller) {key k : TaskKey} (isReady : Bool) (other : k ≠ key) :
    (s.leave c key isReady).get k = s.get k := by
  have same := get_update_other s (StaticFuture.setPolling false) other
  unfold leave
  cases c <;> exact same

theorem pollProtected_get_other (s : Wheel) (c : Caller) {key k : TaskKey} (other : k ≠ key) :
    (s.pollProtected c key).get k = s.get k := by
  unfold pollProtected
  split
  · rfl
  · split
    · rfl
    · rename_i task _ _
      have prepared := get_update_other s
        (fun t => (t.setPolling true).setFlag (handleTask task.flag c.status).1) other
      refine Eq.trans ?_ prepared
      dsimp only
      generalize (handleTask task.flag c.status).2 = stage
      cases stage with
      | leave isReady => exact leave_get_other _ _ _ other
      | _ => rfl

theorem handleTask_uninit (flag : InitFlag) : (handleTask flag .uninitTask).1 = .uninit := by
  cases flag <;> rfl

theorem head_enters {config : List StaticParams} {s s' : Wheel} {suspended : Nat} {key : TaskKey}
    (opened : Opened config s) (pc : s.pc = .init suspended key) (bound : key < s.tasks.length)
    (h : s.step .run = some s') :
    ((∃ v, s'.pc = .inTask (.init suspended) key (.dropOld v)) ∨
      s'.pc = .back (.init suspended) key true) ∧
    (∀ k, k ≠ key → s'.get k = s.get k) ∧
    ∀ p f, s'.control key = some (p, f) → f = .uninit := by
  have bound' : key < s.alg.registry.length := bound
  have found : s.get key = some s.alg.registry[key] := List.getElem?_eq_getElem bound
  simp only [step, run, pc, if_pos bound'] at h
  cases h
  have staged := pollProtected_staged (c := .init suspended) found
    (opened.guarded.unpolled (by rw [pc]; rfl) found)
  have pc' := staged.pc'
  refine ⟨?_, fun k other => pollProtected_get_other s _ other, ?_⟩
  · have drops : Status.uninitTask = .cancelTask ∨ Status.uninitTask = .uninitTask := .inr rfl
    rcases handleTask_drop_stage s.alg.registry[key].flag drops with
      ⟨v, eq⟩ | eq
    · rw [show (Caller.init suspended).status = .uninitTask from rfl, eq] at pc'
      exact .inl ⟨v, pc'⟩
    · rw [show (Caller.init suspended).status = .uninitTask from rfl, eq] at pc'
      exact .inr pc'
  · intro p f hold
    rw [staged.here] at hold
    cases hold
    exact handleTask_uninit _

/-- The loop takes up the next task, or is through. -/
theorem setup_head {config : List StaticParams} {s s' : Wheel} {suspended : Nat} {key : TaskKey}
    (small : config.length < usizeMax) (opened : Opened config s) (pc : s.pc = .init suspended key)
    (prep : Preparing s suspended key) (h : s.step .run = some s') : Setup s' ∨ Fresh s' := by
  by_cases bound : key < s.tasks.length
  · obtain ⟨pc', others, flag⟩ := head_enters opened pc bound h
    have prep' := prep.kept others (step_shapes h nofun)
    rcases pc' with ⟨v, pc'⟩ | pc'
    · exact .inl (.dropping suspended key v pc' prep' flag)
    · exact .inl (.back suspended key true pc' prep' flag)
  · simp only [step, run, pc, if_neg (show ¬ key < s.alg.registry.length from bound)] at h
    cases h
    refine .inr ?_
    have length : s.tasks.length = config.length := by
      simpa [Wheel.shapes] using congrArg List.length opened.shapes
    have all : s.shapes.take key = s.shapes := by
      refine List.take_of_length_le ?_
      simp only [Wheel.shapes, List.length_map]
      exact Nat.le_of_not_lt bound
    constructor
    case tasks =>
      intro task member
      obtain ⟨i, found⟩ := List.mem_iff_getElem?.mp member
      have below : i < s.tasks.length := (List.getElem?_eq_some_iff.mp found).1
      exact prep.done i task (Nat.lt_of_lt_of_le below (Nat.le_of_not_lt bound)) found
    case small => exact length ▸ small
    case suspended =>
      have count := prep.count
      rw [all, Wheel.shapes, List.countP_map] at count
      exact count
    case current => exact opened.unhanded (by rw [pc]; rfl)
    all_goals rfl

/-- `reset(true)` after the task has been dropped. -/
theorem setup_back {config : List StaticParams} {s s' : Wheel} {suspended : Nat} {key : TaskKey}
    {isReady : Bool} (opened : Opened config s) (pc : s.pc = .back (.init suspended) key isReady)
    (prep : Preparing s suspended key) (flag : ∀ p f, s.control key = some (p, f) → f = .uninit)
    (h : s.step .run = some s') : Setup s' := by
  have outside : s.pc.inside = none := by rw [pc]; rfl
  have shapes := step_shapes h nofun
  obtain ⟨task, found⟩ := opened.guarded.found (k := key) (by rw [pc]; rfl)
  have here := control_of_get found
  have idle := opened.guarded.unpolled outside found
  simp only [step, run, pc, resume, found, Option.any_some] at h
  cases h
  refine .head _ _ rfl ⟨?_, ?_⟩
  · intro i t below after
    by_cases at_key : i = key
    · subst at_key
      have eq := get_update_self s i (StaticFuture.reset true)
      rw [found] at eq
      cases eq.symm.trans after
      exact ⟨opened.flags task (List.mem_of_getElem? found), rfl, rfl, idle,
        flag _ _ here, rfl⟩
    · have eq := get_update_other s (StaticFuture.reset true) at_key
      exact prep.done i t (Nat.lt_of_le_of_ne (Nat.le_of_lt_succ below) at_key)
        (eq.symm.trans after)
  · rw [shapes, List.take_add_one, List.countP_append, ← prep.count]
    have shape : s.shapes[key]? = some task.shape := by
      rw [Wheel.shapes, List.getElem?_map]
      exact congrArg (Option.map _) found
    rw [shape]
    cases starts : task.startSuspended <;> simp [StaticFuture.shape, starts]

/-- The destructor has returned. -/
theorem setup_dropped {s s' : Wheel} {suspended : Nat} {key : TaskKey} {v : FutureId}
    (pc : s.pc = .inTask (.init suspended) key (.dropOld v)) (prep : Preparing s suspended key)
    (flag : ∀ p f, s.control key = some (p, f) → f = .uninit)
    (found : ∃ task, s.get key = some task) (h : s.step .dropped = some s') : Setup s' := by
  have shapes := step_shapes h nofun
  simp only [step, dropped, pc, atStage, afterDrop, Caller.status] at h
  cases h
  obtain ⟨task, found⟩ := found
  have here := control_of_get found
  have staged := leave_staged s (.init suspended) key true here
  refine .back suspended key true staged.pc'
    (prep.kept (fun k other => leave_get_other s _ _ other) shapes) ?_
  intro p f hold
  rw [staged.here] at hold
  cases hold
  exact flag _ _ here

theorem setup_step {config : List StaticParams} {s s' : Wheel} {e : Event}
    (small : config.length < usizeMax) (opened : Opened config s) (setup : Setup s)
    (calm : undisturbed s e) (h : s.step e = some s') : Setup s' ∨ Fresh s' := by
  have working := setup.initialising
  have unreturned : ∀ v, s.pc ≠ .returned v := by
    intro v pc
    rw [pc] at working
    cases working
  cases e with
  | call session c =>
    left
    have dead : s.live = false := by
      cases setup with
      | head suspended key pc => simp only [live, pc]
      | dropping suspended key v pc => simp only [live, pc]
      | back suspended key isReady pc => simp only [live, pc]
    simp only [step, call, dead, Bool.false_and, Bool.or_false] at h
    split at h
    · rename_i allowed
      have older : session < s.session := by
        simpa using (Bool.and_eq_true_iff.mp allowed).2
      have refused : s.isValid session = false := by
        rcases calm.2 session c rfl with few | refused
        · exact opened.aligned.stale few older
        · exact refused
      rw [refused, settle_eq unreturned] at h
      cases h
      exact setup
    · cases h
  | wake target =>
    left
    simp only [step, wake] at h
    split at h
    · cases h
      have same := notifyWake_same s
      have pc : (s.notifyWake.storeRunnable target).pc = s.pc := notifyWake_pc s
      rw [settle_eq (fun v => by rw [pc]; exact unreturned v)]
      refine setup.woken (k := target) pc ?_ ?_
      · rw [← same.1]
        rfl
      · unfold notifyWake
        split <;> rfl
    · cases h
  | wakeBegin target =>
    cases h
    exact .inl (setup.same rfl rfl)
  | wakeStep i =>
    left
    simp only [step, wakeStep] at h
    split at h
    · cases h
    · cases h
      exact setup.same rfl rfl
    · cases h
      exact setup.same rfl rfl
    · rename_i target _
      cases h
      exact setup.woken (k := target) rfl rfl rfl
  | run =>
    cases setup with
    | head suspended key pc prep => exact setup_head small opened pc prep h
    | dropping suspended key v pc prep flag => simp [step, run, pc] at h
    | back suspended key isReady pc prep flag => exact .inl (setup_back opened pc prep flag h)
  | dropped =>
    cases setup with
    | head suspended key pc prep => simp [step, dropped, pc] at h
    | dropping suspended key v pc prep flag =>
      exact .inl (setup_dropped pc prep flag (opened.guarded.found (by rw [pc]; rfl)) h)
    | back suspended key isReady pc prep flag => simp [step, dropped, pc] at h
  | panic => exact absurd rfl calm.1
  | _ =>
    cases setup with
    | head suspended key pc => simp [step, poll, created, done, lock, drop, pc] at h
    | dropping suspended key v pc => simp [step, poll, created, done, lock, drop, pc] at h
    | back suspended key isReady pc => simp [step, poll, created, done, lock, drop, pc] at h

theorem own_undisturbed (s : Wheel) {e : Event} (own : e = .run ∨ e = .dropped) :
    undisturbed s e := by
  rcases own with rfl | rfl
  · exact ⟨nofun, nofun⟩
  · exact ⟨nofun, nofun⟩

/-- The task in hand is reset, after its destructor if that still runs. -/
theorem setup_next {config : List StaticParams} (small : config.length < usizeMax) {s : Wheel}
    {suspended : Nat} {key : TaskKey} (opened : Opened config s) (setup : Setup s)
    (hand : (∃ v, s.pc = .inTask (.init suspended) key (.dropOld v)) ∨
      s.pc = .back (.init suspended) key true) :
    ∃ es t suspended', (∀ e ∈ es, e = Event.run ∨ e = Event.dropped) ∧ exec step s es = some t ∧
      Opened config t ∧ Setup t ∧ t.pc = .init suspended' (key + 1) := by
  have from_back : ∀ {r : Wheel}, Opened config r → Setup r →
      r.pc = .back (.init suspended) key true →
      ∃ t suspended', r.step .run = some t ∧ Opened config t ∧ Setup t ∧
        t.pc = .init suspended' (key + 1) := by
    intro r opened setup pc
    have taken : r.step .run = some (r.resume (.init suspended) key true) := by
      simp only [step, run, pc]
    have unfinished : ¬ Fresh (r.resume (.init suspended) key true) :=
      fun fresh => by cases show Pc.init _ _ = Pc.idle from fresh.pc
    have setup' := (setup_step small opened setup (own_undisturbed _ (by simp)) taken).resolve_right
      unfinished
    exact ⟨_, _, taken, opened_step opened taken, setup', rfl⟩
  rcases hand with ⟨v, pc⟩ | pc
  · have taken : s.step .dropped = some (s.leave (.init suspended) key true) := by
      simp only [step, dropped, pc]
      rfl
    have unfinished : ¬ Fresh (s.leave (.init suspended) key true) :=
      fun fresh => by cases show Pc.back _ _ _ = Pc.idle from fresh.pc
    have setup' := (setup_step small opened setup (own_undisturbed _ (by simp)) taken).resolve_right
      unfinished
    obtain ⟨t, suspended', next, opened', setup'', pc'⟩ :=
      from_back (opened_step opened taken) setup' rfl
    refine ⟨[.dropped, .run], t, suspended', by simp, ?_, opened', setup'', pc'⟩
    simp only [exec, taken, next, Option.bind_some]
  · obtain ⟨t, suspended', next, opened', setup', pc'⟩ := from_back opened setup pc
    refine ⟨[.run], t, suspended', by simp, ?_, opened', setup', pc'⟩
    simp only [exec, next, Option.bind_some]

/-- When the destructors return, the loop comes to its end. -/
theorem setup_completes {config : List StaticParams} (small : config.length < usizeMax) (n : Nat) :
    ∀ {s : Wheel} {suspended key : Nat}, Opened config s → Setup s →
    s.pc = .init suspended key → s.tasks.length - key ≤ n →
    ∃ es t, (∀ e ∈ es, e = Event.run ∨ e = Event.dropped) ∧ exec step s es = some t ∧ Fresh t := by
  have through : ∀ {s : Wheel} {suspended key : Nat}, Opened config s → Setup s →
      s.pc = .init suspended key → ¬ key < s.tasks.length →
      ∃ es t, (∀ e ∈ es, e = Event.run ∨ e = Event.dropped) ∧ exec step s es = some t ∧ Fresh t := by
    intro s suspended key opened setup pc past
    have taken : s.step .run = some (s.started suspended) := by
      simp only [step, run, pc, if_neg (show ¬ key < s.alg.registry.length from past)]
    have fresh := (setup_step small opened setup (own_undisturbed _ (by simp)) taken).resolve_left
      (fun setup' => by cases setup'.initialising)
    exact ⟨[.run], _, by simp, by simp only [exec, taken, Option.bind_some], fresh⟩
  induction n with
  | zero =>
    intro s suspended key opened setup pc left
    exact through opened setup pc (by omega)
  | succ n ih =>
    intro s suspended key opened setup pc left
    by_cases bound : key < s.tasks.length
    · have taken : s.step .run = some (s.pollProtected (.init suspended) key) := by
        simp only [step, run, pc, if_pos (show key < s.alg.registry.length from bound)]
      have hand := (head_enters opened pc bound taken).1
      have unfinished : ¬ Fresh (s.pollProtected (.init suspended) key) := by
        intro fresh
        rw [fresh.pc] at hand
        simp at hand
      have setup₁ := (setup_step small opened setup (own_undisturbed _ (by simp))
        taken).resolve_right unfinished
      obtain ⟨es, r, suspended', own, run, opened', setup', pc'⟩ :=
        setup_next small (opened_step opened taken) setup₁ hand
      have length : r.tasks.length = s.tasks.length := by
        have here := congrArg List.length opened.shapes
        have there := congrArg List.length opened'.shapes
        simpa [Wheel.shapes] using there.trans here.symm
      obtain ⟨fs, t, own', run', fresh⟩ := ih opened' setup' pc' (by omega)
      refine ⟨[.run] ++ es ++ fs, t, ?_, ?_, fresh⟩
      · intro e member
        simp only [List.mem_append, List.mem_singleton] at member
        rcases member with (rfl | member) | member
        · exact .inl rfl
        · exact own e member
        · exact own' e member
      · have first : exec step s [.run] = some (s.pollProtected (.init suspended) key) := by
          simp only [exec, taken, Option.bind_some]
        exact exec_append (exec_append first run) run'
    · exact through opened setup pc bound

/-! The result. -/

/-- The counter does not hold the mark of a definition that was never initialised, unless
it is one. -/
def Reusable (s : Wheel) : Prop :=
  s.alg.unfinishedCount = usizeMax → ∀ task ∈ s.tasks, task.hasFlags = false

instance (s : Wheel) : Decidable (Reusable s) := inferInstanceAs (Decidable (_ → _))

/-- The state of the very first lock. -/
structure Started (config : List StaticParams) (s : Wheel) : Prop where
  fresh : Fresh s
  params : s.tasks.map (fun task => StaticParams.mk task.startSuspended task.name) = config

theorem Opened.params {config : List StaticParams} {s : Wheel} (opened : Opened config s) :
    s.tasks.map (fun task => StaticParams.mk task.startSuspended task.name) = config := by
  have known := congrArg (List.map (fun shape => StaticParams.mk shape.1 shape.2.1)) opened.shapes
  simp only [Wheel.shapes, List.map_map] at known
  refine known.trans ?_
  have same : (fun shape => StaticParams.mk shape.1 shape.2.1) ∘ StaticParams.shape = id := rfl
  rw [same, List.map_id]

/-- What `try_lock` does to a released lock that is reusable. -/
theorem lock_reusable {config : List StaticParams} (small : config.length < usizeMax) {s : Wheel}
    (known : Known config s) (released : s.pc = .unlocked) (reusable : Reusable s) :
    ∃ s₁, s.step .lock = some s₁ ∧ Opened config s₁ ∧
      (Fresh s₁ ∨ (Setup s₁ ∧ s₁.pc = .init 0 0)) := by
  rcases known with unopened | opened
  · cases taken : s.step .lock with
    | none => simp [step, lock, released, unopened.mark] at taken
    | some s₁ =>
      obtain ⟨fresh, opened⟩ := unopened.lock small taken
      exact ⟨s₁, rfl, opened, .inl fresh⟩
  · by_cases mark : s.alg.unfinishedCount = usizeMax
    · have none : s.alg.registry = [] := by
        refine List.eq_nil_iff_forall_not_mem.mpr (fun task member => ?_)
        have set := opened.flags task member
        rw [reusable mark task member] at set
        cases set
      have taken : s.step .lock =
          some ((s.withAlg (fun alg => { alg with registry := [] })).started 0) := by
        simp only [step, lock, released, mark, none, firstInit, if_true, Bool.false_eq_true, if_false]
        rfl
      refine ⟨_, taken, opened_step opened taken, .inl ?_⟩
      constructor
      case tasks => rintro task ⟨⟩
      case small => exact Nat.lt_of_le_of_lt (Nat.zero_le _) small
      case current => exact opened.unhanded (by rw [released]; rfl)
      all_goals rfl
    · have taken : s.step .lock = some (s.goto (.init 0 0)) := by
        simp only [step, lock, released, if_neg mark]
      refine ⟨_, taken, opened_step opened taken, .inr ⟨.head 0 0 rfl ⟨?_, ?_⟩, rfl⟩⟩
      · exact fun i t below => absurd below (Nat.not_lt_zero i)
      · simp

/-- Otherwise `init` panics at the first task, whose flags are set already. -/
theorem lock_panics {config : List StaticParams} {s : Wheel} (known : Known config s)
    (released : s.pc = .unlocked) (spoilt : ¬ Reusable s) :
    s.step .lock = some (s.goto (.dispose true 0)) := by
  have mark : s.alg.unfinishedCount = usizeMax := by
    by_contra other
    exact spoilt (fun mark => absurd mark other)
  rcases known with unopened | opened
  · refine absurd (fun _ task member => ?_) spoilt
    rw [unopened.tasks] at member
    obtain ⟨params, _, rfl⟩ := List.mem_map.mp member
    rfl
  · have some_task : s.alg.registry ≠ [] := by
      intro none
      refine spoilt (fun _ task member => ?_)
      rw [show s.tasks = [] from none] at member
      cases member
    have kept : firstInit s.alg.registry = (s.alg.registry, decide (s.alg.registry ≠ [])) :=
      firstInit_set opened.flags
    have positive : ¬ usizeMax = 0 := by simp [usizeMax]
    simp only [step, lock, released, mark, kept, some_task, ne_eq, not_false_eq_true, decide_true,
      if_true, dispose, withAlg, if_neg positive]
    rw [← mark]
    rfl

/-- A released lock that is reusable is locked as for the first time: `init` only has to
run the destructors of what an earlier session has left, and its end is the state of the
very first lock. On any other released lock `try_lock` panics. -/
theorem lock_fresh {config : List StaticParams} (small : config.length < usizeMax) {s : Wheel}
    (reach : Reachable step (fun s => s = new config) s) (released : s.pc = .unlocked) :
    (Reusable s → ∃ s₁, s.step .lock = some s₁ ∧
      (∀ es, Along step (fun r e _ => r.pc.initialising = true → undisturbed r e) s₁ es →
        Until step (fun r => r.pc.initialising = true ∨ Started config r)
          (fun r _ => !r.pc.initialising) s₁ es) ∧
      ∃ es t, (∀ e ∈ es, e = Event.run ∨ e = Event.dropped) ∧ exec step s₁ es = some t ∧
        Started config t) ∧
    (¬ Reusable s → s.step .lock = some (s.goto (.dispose true 0))) := by
  have known := reachable_known small reach
  refine ⟨fun reusable => ?_, lock_panics known released⟩
  obtain ⟨s₁, taken, opened, begun⟩ := lock_reusable small known released reusable
  refine ⟨s₁, taken, fun es calm => ?_, ?_⟩
  · refine until_of_invariant (I := fun r => Opened config r ∧ (Setup r ∨ Fresh r)) ?_ ?_
      ⟨opened, begun.symm.imp And.left id⟩ calm
    · rintro r e r' ⟨opened, at_work⟩ h calm working
      have working : r.pc.initialising = true := by simpa using working
      refine ⟨opened_step opened h, ?_⟩
      rcases at_work with setup | fresh
      · exact setup_step small opened setup (calm working) h
      · rw [fresh.pc] at working
        cases working
    · rintro r ⟨opened, setup | fresh⟩
      · exact .inl setup.initialising
      · exact .inr ⟨fresh, opened.params⟩
  · rcases begun with fresh | ⟨setup, pc⟩
    · exact ⟨[], s₁, by simp, rfl, fresh, opened.params⟩
    · obtain ⟨es, t, own, run, fresh⟩ := setup_completes small _ opened setup pc (Nat.le_refl _)
      exact ⟨es, t, own, run, fresh, (invariant_run (fun r e r' inv h => opened_step inv h)
        opened run).params⟩

/-- A task that waits is still alive when the first session is dropped. -/
def droppedMidway : List Event :=
  [.lock, .poll 7, .run, .run, .run, .created, .done false, .run, .run, .run, .run, .run, .run,
    .run, .drop, .run, .dropped, .run, .run]

theorem lock_fresh_droppedMidway : ∃ s, exec step (new [⟨false, none⟩]) droppedMidway = some s ∧
    s.pc = .unlocked ∧ ∃ s₁ es t, s.step .lock = some s₁ ∧ exec step s₁ es = some t ∧
    Started [⟨false, none⟩] t := by
  have run : exec step (new [⟨false, none⟩]) droppedMidway =
      some (last step (new [⟨false, none⟩]) droppedMidway) := exec_last (by decide +kernel)
  have released : (last step (new [⟨false, none⟩]) droppedMidway).pc = .unlocked := by
    decide +kernel
  have reusable : Reusable (last step (new [⟨false, none⟩]) droppedMidway) := by decide +kernel
  have small : [StaticParams.mk false none].length < usizeMax := by simp [usizeMax]
  obtain ⟨s₁, taken, _, es, t, _, run₁, started⟩ :=
    (lock_fresh small ⟨_, _, rfl, run⟩ released).1 reusable
  exact ⟨_, run, released, s₁, es, t, taken, run₁, started⟩

/-- The only task is cancelled, the wheel is polled once and dropped. -/
def cancelledSession : List Event :=
  [.lock, .call 0 (.cancel 0), .poll 7] ++ List.replicate 8 .run ++ [.drop] ++
  List.replicate 3 .run

/-- Both sweeps have counted the task off, so that the counter holds the mark of a
definition that was never initialised: the next `try_lock` panics. -/
theorem cancelledSession_panics : ∃ s,
    exec step (new [⟨false, none⟩]) cancelledSession = some s ∧ s.pc = .unlocked ∧
    ∃ s₁, s.step .lock = some s₁ ∧ s₁.pc = .dispose true 0 ∧ ¬ s₁.pc.initialising = true ∧
    ¬ Fresh s₁ := by
  have run : exec step (new [⟨false, none⟩]) cancelledSession =
      some (last step (new [⟨false, none⟩]) cancelledSession) := exec_last (by decide +kernel)
  have taken : (last step (new [⟨false, none⟩]) cancelledSession).step .lock =
      some (last step (last step (new [⟨false, none⟩]) cancelledSession) [.lock]) :=
    step_last (by decide +kernel)
  have pc : (last step (last step (new [⟨false, none⟩]) cancelledSession) [.lock]).pc =
      .dispose true 0 := by decide +kernel
  refine ⟨_, run, by decide +kernel, _, taken, pc, ?_, ?_⟩
  · rw [pc]
    nofun
  · intro fresh
    rw [fresh.pc] at pc
    cases pc

end Wheel
end Juggle.St
