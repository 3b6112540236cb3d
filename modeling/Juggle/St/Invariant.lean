import Juggle.St.Move

/-! What holds throughout a session of the static wheel: only the task that the sweep
is inside of is being polled, and a task is marked as ended as its stop reason says. -/
namespace Juggle.St
open Juggle.Utils Juggle.Runs

/-- A task as `init` leaves it. -/
structure StaticFuture.Fresh (task : StaticFuture) : Prop where
  flags : task.hasFlags = true
  runnable : task.runnable = true
  reason : task.stopReason = task.resetReason true
  idle : task.polling = false
  flag : task.flag = .uninit
  alive : task.ended = false

namespace Caller

/-- An arm that keeps the task alive, or is to poll it. -/
def serves : Caller → Bool
  | .restart _ => true
  | .restartSuspended _ => true
  | .pollLocal _ _ => true
  | _ => false

def restarts : Caller → Bool
  | .restart _ => true
  | _ => false

def polls : Caller → Bool
  | .pollLocal _ _ => true
  | _ => false

end Caller

namespace Pc

/-- The task whose `handle_task` runs. -/
def inside : Pc → Option TaskKey
  | .inTask _ key _ => some key
  | _ => none

/-- The task the sweep has in hand. -/
def subject : Pc → Option TaskKey
  | .check _ key => some key
  | .chosen _ key _ => some key
  | .inTask _ key _ => some key
  | .back _ key _ => some key
  | _ => none

/-- The task that is polled next unless it waits. -/
def decided : Pc → Option TaskKey
  | .check _ key => some key
  | .chosen _ key _ => some key
  | _ => none

def serving : Pc → Option TaskKey
  | .inTask c key _ => if c.serves then some key else none
  | .back c key _ => if c.serves then some key else none
  | _ => none

/-- The task that a restart has left without a future. -/
def restarting : Pc → Option TaskKey
  | .inTask c key _ => if c.restarts then some key else none
  | .back c key _ => if c.restarts then some key else none
  | .check _ key => some key
  | .chosen _ key restart => if restart then some key else none
  | _ => none

end Pc

namespace Wheel

/-- The state in which `init` leaves the wheel. -/
structure Fresh (s : Wheel) : Prop where
  pc : s.pc = .idle
  tasks : ∀ task ∈ s.tasks, task.Fresh
  small : s.tasks.length < usizeMax
  suspended : s.alg.suspendedCount = s.tasks.countP StaticFuture.startSuspended
  unfinished : s.alg.unfinishedCount = s.tasks.length
  current : s.alg.current = none
  suspendedMark : s.alg.suspendedWrapped = false
  unfinishedMark : s.alg.unfinishedWrapped = false

/-- The next step of the wheel's own code writes the stop reason of this task. -/
def writes (s : Wheel) (k : TaskKey) : Bool :=
  match s.pc with
  | .sweep _ key => s.marks && key == k
  | .back (.cancelled _) _ _ => false
  | .back _ key _ => s.marks && key == k
  | _ => false

/-- The effect of a step on the stop reason of the task at one key. -/
inductive Turn (s : Wheel) (e : Event) (k : TaskKey) (t t' : StaticFuture) : Prop where
  | same (aside : e = .run → s.writes k = false) (reason : t'.stopReason = t.stopReason)
      (ended : t'.ended = t.ended)
  | resume (session : Nat) (event : e = .call session (.resume k))
      (valid : s.isValid session = true) (held : t.stopReason = .suspended)
      (reason : t'.stopReason = .none) (ended : t'.ended = t.ended)
  | suspend (session : Nat) (event : e = .call session (.suspend k))
      (valid : s.isValid session = true)
      (free : (t.stopReason = .none ∧ t'.stopReason = .suspended) ∨
        (t.stopReason = .restart ∧ t'.stopReason = .restartSuspended))
      (ended : t'.ended = t.ended)
  | restart (session : Nat) (event : e = .call session (.restart k))
      (valid : s.isValid session = true) (fresh : t.stopReason ≠ .restart)
      (reason : t'.stopReason = .restart) (ended : t'.ended = false)
  | cancel (session : Nat) (event : e = .call session (.cancel k))
      (valid : s.isValid session = true) (live : t.stopReason ≠ .cancelled)
      (reason : t'.stopReason = .cancelled) (ended : t'.ended = t.ended)
  | arm (b : Beat) (event : e = .run) (pc : s.pc = .sweep b k)
      (reason : (t.stopReason = .cancelled ∧ t'.stopReason = .cancelled ∧ t'.ended = true) ∨
        (t.stopReason = .restart ∧ t'.stopReason = .none ∧ t'.ended = t.ended) ∨
        (t.stopReason = .restartSuspended ∧ t'.stopReason = .suspended ∧ t'.ended = t.ended))
  | reset (b : Beat) (c : Caller) (isReady : Bool) (event : e = .run) (pc : s.pc = .back c k isReady)
      (arm : c = .restart b ∨ c = .restartSuspended b) (reason : t'.stopReason = .none)
      (ended : t'.ended = t.ended)
  | finished (b : Beat) (restart : Bool) (event : e = .run)
      (pc : s.pc = .back (.pollLocal b restart) k true) (reason : t'.stopReason = .finished)
      (ended : t'.ended = true)

theorem get_eq_tasks (s : Wheel) (k : TaskKey) : s.get k = s.tasks[k]? := rfl

/-- An update of one task, seen from any key. -/
theorem get_of_modify {s s' : Wheel} {key k : TaskKey} {f : StaticFuture → StaticFuture}
    {t : StaticFuture} (tasks : s'.tasks = s.tasks.modify key f) (found : s.get k = some t) :
    (k = key ∧ s'.get k = some (f t)) ∨ (k ≠ key ∧ s'.get k = some t) := by
  rw [get_eq_tasks] at found ⊢
  rw [tasks, List.getElem?_modify, found]
  by_cases here : key = k
  · exact .inl ⟨here.symm, by simp [here]⟩
  · exact .inr ⟨Ne.symm here, by simp [here]⟩

theorem writes_of_plain {s : Wheel} (plain : s.marks = false) (k : TaskKey) :
    s.writes k = false := by
  unfold writes
  split <;> simp [plain]

theorem writes_sweep {s : Wheel} {b : Beat} {key k : TaskKey} (pc : s.pc = .sweep b key)
    (other : k ≠ key) : s.writes k = false := by
  simp [writes, pc, Ne.symm other]

theorem writes_back {s : Wheel} {c : Caller} {key k : TaskKey} {isReady : Bool}
    (pc : s.pc = .back c key isReady) (other : k ≠ key) : s.writes k = false := by
  cases c <;> simp [writes, pc, Ne.symm other]

/-- A handle call seen from the key it names and from the others. -/
theorem turn_of_call {s s' : Wheel} {session : Nat} {c : Call} {key k : TaskKey}
    {f : StaticFuture → StaticFuture} {task t : StaticFuture} (hold : s.get key = some task)
    (here : Turn s (.call session c) key task (f task))
    (tasks : s'.tasks = s.tasks.modify key f) (found : s.get k = some t) :
    ∃ t', s'.get k = some t' ∧ Turn s (.call session c) k t t' := by
  rcases get_of_modify tasks found with ⟨rfl, eq⟩ | ⟨other, eq⟩
  · rw [found] at hold
    cases hold
    exact ⟨_, eq, here⟩
  · exact ⟨t, eq, .same nofun rfl rfl⟩

theorem Change.turn {s s' : Wheel} {e : Event} (change : Change s e s') {k : TaskKey}
    {t : StaticFuture} (found : s.get k = some t) :
    ∃ t', s'.get k = some t' ∧ Turn s e k t t' := by
  cases change with
  | quiet key f blind plain tasks counts =>
    have aside : e = .run → s.writes k = false := fun event => writes_of_plain (plain event) k
    rcases get_of_modify tasks found with ⟨here, eq⟩ | ⟨other, eq⟩
    · exact ⟨f t, eq, .same aside (blind t).1 (blind t).2⟩
    · exact ⟨t, eq, .same aside rfl rfl⟩
  | resume session key task event valid hold held tasks counts =>
    subst event
    exact turn_of_call hold (.resume session rfl valid held rfl rfl) tasks found
  | suspend session key task r event valid hold free tasks counts =>
    subst event
    exact turn_of_call hold (.suspend session rfl valid free rfl) tasks found
  | restart session key task event valid hold fresh tasks counts =>
    subst event
    exact turn_of_call hold (.restart session rfl valid fresh rfl rfl) tasks found
  | cancel session key task event valid hold live tasks counts =>
    subst event
    exact turn_of_call hold (.cancel session rfl valid live rfl rfl) tasks found
  | arm b key task f event pc hold reason tasks counts =>
    rcases get_of_modify tasks found with ⟨rfl, eq⟩ | ⟨other, eq⟩
    · rw [found] at hold
      cases hold
      exact ⟨_, eq, .arm b event pc reason⟩
    · exact ⟨t, eq, .same (fun _ => writes_sweep pc other) rfl rfl⟩
  | discharged b key isReady event pc tasks counts =>
    have aside : s.writes k = false := by simp [writes, pc]
    exact ⟨t, (congrArg (fun l => l[k]?) tasks).trans found, .same (fun _ => aside) rfl rfl⟩
  | reset b c key isReady event pc arm tasks counts =>
    rcases get_of_modify tasks found with ⟨rfl, eq⟩ | ⟨other, eq⟩
    · refine ⟨_, eq, .reset b c isReady event pc arm ?_ ?_⟩
      · simp [StaticFuture.reset, StaticFuture.resetReason]
      · simp [StaticFuture.reset]
    · exact ⟨t, eq, .same (fun _ => writes_back pc other) rfl rfl⟩
  | finished b restart key event pc tasks counts =>
    rcases get_of_modify tasks found with ⟨rfl, eq⟩ | ⟨other, eq⟩
    · exact ⟨_, eq, .finished b restart event pc rfl rfl⟩
    · exact ⟨t, eq, .same (fun _ => writes_back pc other) rfl rfl⟩

theorem Change.length_eq {s s' : Wheel} {e : Event} (change : Change s e s') :
    s'.tasks.length = s.tasks.length := by
  cases change with
  | discharged b key isReady event pc tasks counts => rw [tasks]
  | _ => simp only [*, List.length_modify]

/-- No task appears out of nothing. -/
theorem Change.origin {s s' : Wheel} {e : Event} (change : Change s e s') {k : TaskKey}
    {t' : StaticFuture} (found : s'.get k = some t') :
    ∃ t, s.get k = some t ∧ Turn s e k t t' := by
  have bound : k < s.tasks.length := by
    rw [← change.length_eq]
    exact (List.getElem?_eq_some_iff.mp found).1
  have before : s.get k = some s.tasks[k] := List.getElem?_eq_getElem bound
  obtain ⟨t, after, turn⟩ := change.turn before
  rw [found] at after
  cases after
  exact ⟨_, before, turn⟩

/-- The guard of `poll_protected` tells the task that the thread is inside of. -/
structure Guarded (s : Wheel) : Prop where
  polling : ∀ k p f, s.control k = some (p, f) → (p = true ↔ s.pc.inside = some k)
  present : ∀ k, s.pc.subject = some k → k < s.tasks.length
  /-- a call that only drops its task is in the destructor -/
  stage : ∀ c k stage, s.pc = .inTask c k stage → c.polls = false → ∃ v, stage = .dropOld v

structure Sound (s : Wheel) : Prop extends Guarded s where
  session : s.pc.inSession = true
  small : s.tasks.length < usizeMax
  reason : ∀ k task, s.pc.decided = some k → s.get k = some task → task.stopReason = .none
  ended : ∀ k task, s.get k = some task → task.ended = true →
    task.stopReason = .cancelled ∨ task.stopReason = .finished
  finished : ∀ k task, s.get k = some task → task.stopReason = .finished → task.ended = true
  living : ∀ k task, s.pc.serving = some k → s.get k = some task → task.ended = false
  uninit : ∀ k p f, s.pc.restarting = some k → s.control k = some (p, f) → f = .uninit

end Wheel

namespace Pc

theorem atStage_inSession (c : Caller) (key : TaskKey) (stage : Stage) :
    (atStage c key stage).inSession = c.inSession := by
  cases stage <;> rfl

theorem atStage_inside (c : Caller) (key : TaskKey) (stage : Stage) :
    (atStage c key stage).inside = if stage.userCode then some key else none := by
  cases stage <;> rfl

theorem atStage_subject (c : Caller) (key : TaskKey) (stage : Stage) :
    (atStage c key stage).subject = some key := by
  cases stage <;> rfl

theorem atStage_decided (c : Caller) (key : TaskKey) (stage : Stage) :
    (atStage c key stage).decided = none := by
  cases stage <;> rfl

theorem atStage_serving (c : Caller) (key : TaskKey) (stage : Stage) :
    (atStage c key stage).serving = if c.serves then some key else none := by
  cases stage <;> rfl

theorem atStage_restarting (c : Caller) (key : TaskKey) (stage : Stage) :
    (atStage c key stage).restarting = if c.restarts then some key else none := by
  cases stage <;> rfl

theorem atStage_eq_inTask {c c' : Caller} {key key' : TaskKey} {stage stage' : Stage}
    (h : atStage c key stage = .inTask c' key' stage') : c = c' ∧ key = key' ∧ stage = stage' := by
  cases stage <;> cases h <;> exact ⟨rfl, rfl, rfl⟩

/-- With no task in hand the other questions have no answer either. -/
theorem idle_hands {pc : Pc} (free : pc.subject = none) :
    pc.inside = none ∧ pc.decided = none ∧ pc.serving = none ∧ pc.restarting = none := by
  cases pc <;> first | exact ⟨rfl, rfl, rfl, rfl⟩ | cases free

end Pc

theorem Caller.drops {c : Caller} (drop : c.polls = false) :
    c.status = .cancelTask ∨ c.status = .uninitTask := by
  cases c with
  | cancelled b => exact .inl rfl
  | pollLocal b restart => cases drop
  | _ => exact .inr rfl

theorem Arm.inSession {b : Beat} {r : StopReason} {c : Caller} (arm : Arm b r c) :
    c.inSession = true := by
  cases arm <;> rfl

theorem Arm.drops {b : Beat} {r : StopReason} {c : Caller} (arm : Arm b r c) :
    c.status = .cancelTask ∨ c.status = .uninitTask := by
  cases arm
  · exact .inl rfl
  · exact .inr rfl
  · exact .inr rfl

namespace Wheel

theorem Ended.free {s : Wheel} {b : Beat} {pc : Pc} (ended : Ended s b pc) :
    pc.subject = none ∧ pc.inSession = true := by
  cases ended <;> exact ⟨rfl, rfl⟩

theorem Guarded.quiet {s : Wheel} (guarded : Guarded s) (outside : s.pc.inside = none) {k : TaskKey}
    {p : Bool} {f : InitFlag} (found : s.control k = some (p, f)) : p = false := by
  have known := guarded.polling k p f found
  rw [outside] at known
  cases p with
  | false => rfl
  | true => exact absurd (known.mp rfl) nofun

theorem Guarded.unpolled {s : Wheel} (guarded : Guarded s) (outside : s.pc.inside = none)
    {key : TaskKey} {task : StaticFuture} (found : s.get key = some task) : task.polling = false :=
  guarded.quiet outside (control_of_get found)

/-- Outside of user code no task is being polled, so `poll_protected` never refuses. -/
theorem Guarded.not_nested {s : Wheel} (guarded : Guarded s) {key : TaskKey}
    (busy : ∀ f, s.control key ≠ some (false, f))
    (hand : (∃ b, s.pc = .sweep b key ∧ ∃ task, s.get key = some task) ∨
      ∃ b restart, s.pc = .chosen b key restart) : False := by
  have found : ∃ task, s.get key = some task := by
    rcases hand with ⟨b, pc, found⟩ | ⟨b, restart, pc⟩
    · exact found
    · have bound := guarded.present key (by rw [pc]; rfl)
      exact ⟨_, List.getElem?_eq_getElem bound⟩
  have outside : s.pc.inside = none := by
    rcases hand with ⟨b, pc, found⟩ | ⟨b, restart, pc⟩ <;> rw [pc] <;> rfl
  obtain ⟨task, found⟩ := found
  have here := control_of_get found
  have known := guarded.polling key task.polling task.flag here
  rw [outside] at known
  cases polling : task.polling with
  | true => exact absurd (known.mp polling) nofun
  | false =>
    rw [polling] at here
    exact busy task.flag here

theorem Guarded.found {s : Wheel} (guarded : Guarded s) {k : TaskKey}
    (hand : s.pc.subject = some k) : ∃ task, s.get k = some task :=
  ⟨_, List.getElem?_eq_getElem (guarded.present k hand)⟩

/-- A step of `handle_task` can be followed: its task exists. -/
theorem Guarded.staged {s s' : Wheel} (guarded : Guarded s) {c : Caller} {key : TaskKey}
    {stage stage' : Stage} {write : InitFlag → InitFlag} (pc : s.pc = .inTask c key stage)
    (staged : ∀ p f, s.control key = some (p, f) → Staged s s' c key stage' p (write f)) :
    ∃ f, s.control key = some (true, f) ∧ Staged s s' c key stage' true (write f) := by
  obtain ⟨task, found⟩ := guarded.found (k := key) (by rw [pc]; rfl)
  have here := control_of_get found
  have polled : task.polling = true := (guarded.polling key _ _ here).mpr (by rw [pc]; rfl)
  rw [polled] at here
  exact ⟨task.flag, here, staged _ _ here⟩

theorem step_session {s s' : Wheel} {e : Event} (sound : Sound s) (move : Move s e s') :
    s'.pc.inSession = true := by
  have session := sound.session
  cases move with
  | stay pc' => rw [pc']; exact session
  | ended b key event pc past ended => exact ended.free.2
  | arm b key task c event pc found arm free entered =>
    rw [entered.pc', Pc.atStage_inSession]
    exact arm.inSession
  | pollBegin b key restart task c event pc found free caller entered =>
    rw [entered.pc', Pc.atStage_inSession, caller]
    rfl
  | handled c key stage stage' write next pc handle staged =>
    obtain ⟨f, here, staged⟩ := sound.staged pc staged
    rw [staged.pc', Pc.atStage_inSession]
    rw [pc] at session
    exact session
  | resumed c key isReady event pc pc' =>
    rw [pc']
    cases c <;> rfl
  | nested key event busy hand => exact (sound.not_nested busy hand).elim
  | _ => simp only [*, Pc.inSession]

theorem step_subject {s s' : Wheel} {e : Event} (guarded : Guarded s) (move : Move s e s')
    {k : TaskKey} (hand : s'.pc.subject = some k) : k < s.tasks.length := by
  have bound : ∀ {task}, s.get k = some task → k < s.tasks.length :=
    fun found => (List.getElem?_eq_some_iff.mp found).1
  cases move with
  | stay pc' => exact guarded.present k (pc' ▸ hand)
  | ended b key event pc past ended =>
    rw [ended.free.1] at hand
    cases hand
  | choose b key task event pc found reason runnable pc' =>
    rw [pc'] at hand
    cases hand
    exact bound found
  | arm b key task c event pc found arm free entered =>
    rw [entered.pc', Pc.atStage_subject] at hand
    cases hand
    exact bound found
  | proceed b key task event pc found runnable pc' =>
    rw [pc'] at hand
    cases hand
    exact bound found
  | pollBegin b key restart task c event pc found free caller entered =>
    rw [entered.pc', Pc.atStage_subject] at hand
    cases hand
    exact bound found
  | handled c key stage stage' write next pc handle staged =>
    obtain ⟨f, here, staged⟩ := guarded.staged pc staged
    rw [staged.pc', Pc.atStage_subject] at hand
    cases hand
    exact guarded.present k (by rw [pc]; rfl)
  | resumed c key isReady event pc pc' =>
    rw [pc'] at hand
    refine guarded.present k ?_
    rw [pc]
    cases c <;> cases hand
    rfl
  | nested key event busy hand => exact (guarded.not_nested busy hand).elim
  | _ => simp only [*, Pc.subject, reduceCtorEq] at hand

/-- The flag `polling` follows the thread into `handle_task` and out of it. -/
theorem Staged.polling {s s' : Wheel} {c : Caller} {key : TaskKey} {stage : Stage} {f : InitFlag}
    (staged : Staged s s' c key stage true f)
    (others : ∀ k p g, k ≠ key → s.control k = some (p, g) → p = false) {k : TaskKey} {p : Bool}
    {g : InitFlag} (found : s'.control k = some (p, g)) : p = true ↔ s'.pc.inside = some k := by
  rw [staged.pc', Pc.atStage_inside]
  by_cases here : k = key
  · subst here
    rw [staged.here] at found
    cases found
    cases stage.userCode <;> simp
  · rw [staged.others k here] at found
    rw [others k p g here found]
    split <;> simp [Ne.symm here]

theorem step_polling {s s' : Wheel} {e : Event} (guarded : Guarded s) (move : Move s e s')
    {k : TaskKey} {p : Bool} {f : InitFlag} (found : s'.control k = some (p, f)) :
    p = true ↔ s'.pc.inside = some k := by
  have before := guarded.polling
  have kept : Kept s s' → s'.pc.inside = s.pc.inside → (p = true ↔ s'.pc.inside = some k) := by
    intro kept same
    rw [same]
    exact before k p f ((kept.control k).symm.trans found)
  have others : ∀ {j : TaskKey}, (∀ k, s.pc.inside = some k → k = j) →
      ∀ k p g, k ≠ j → s.control k = some (p, g) → p = false := by
    intro key only k p g other hold
    have := before k p g hold
    cases p with
    | false => rfl
    | true => exact absurd (only k (this.mp rfl)) other
  cases move with
  | stay pc' quiet same => exact kept same (by rw [pc'])
  | settled v pc pc' quiet same => exact kept same (by rw [pc', pc]; rfl)
  | enter w event pc pc' same =>
    refine kept same ?_
    rcases pc with pc | ⟨v, pc⟩ <;> rw [pc', pc] <;> rfl
  | begins second event begins pc' same =>
    refine kept same ?_
    cases begins with
    | clear pc => rw [pc', pc]; rfl
    | register pc => rw [pc', pc]; rfl
    | again b key pc => rw [pc', pc]; rfl
  | ended b key event pc past ended same =>
    exact kept same (by rw [pc, (Pc.idle_hands ended.free.1).1]; rfl)
  | skip b key task event pc hold rest pc' same => exact kept same (by rw [pc', pc]; rfl)
  | choose b key task event pc hold reason runnable pc' same =>
    exact kept same (by rw [pc', pc]; rfl)
  | arm b key task c event pc hold arm free entered =>
    exact entered.polling (others (by rw [pc]; nofun)) found
  | pass b key task event pc hold waiting pc' same => exact kept same (by rw [pc', pc]; rfl)
  | proceed b key task event pc hold runnable pc' same => exact kept same (by rw [pc', pc]; rfl)
  | pollBegin b key restart task c event pc hold free caller entered =>
    exact entered.polling (others (by rw [pc]; nofun)) found
  | handled c key stage stage' write next pc handle staged =>
    obtain ⟨f, here, staged⟩ := guarded.staged pc staged
    refine staged.polling (others ?_) found
    rw [pc]
    intro k hk
    exact (Option.some.inj hk).symm
  | resumed c key isReady event pc pc' same =>
    refine kept same ?_
    rw [pc', pc]
    cases c <;> rfl
  | answer finished event pc pc' same => exact kept same (by rw [pc', pc]; rfl)
  | unwound c key stage event pc code pc' here rest =>
    rw [pc']
    by_cases at_key : k = key
    · subst at_key
      rw [here] at found
      obtain ⟨g, hold, eq⟩ := Option.map_eq_some_iff.mp found
      cases eq
      exact ⟨nofun, nofun⟩
    · rw [rest k at_key] at found
      have quiet := others (j := key) (by rw [pc]; exact fun k hk => (Option.some.inj hk).symm)
        k p f at_key found
      rw [quiet]
      exact ⟨nofun, nofun⟩
  | nested key event busy hand => exact (guarded.not_nested busy hand).elim

/-- `handle_task` called to drop its task runs nothing but a destructor. -/
theorem handleTask_drop_stage (flag : InitFlag) {status : Status}
    (drops : status = .cancelTask ∨ status = .uninitTask) :
    (∃ v, (handleTask flag status).2 = .dropOld v) ∨ (handleTask flag status).2 = .leave true := by
  rcases drops with rfl | rfl <;> cases flag with
  | created v => exact .inl ⟨v, rfl⟩
  | _ => exact .inr rfl

theorem step_stage {s s' : Wheel} {e : Event} (guarded : Guarded s) (move : Move s e s') {c : Caller}
    {k : TaskKey} {stage : Stage} (at_stage : s'.pc = .inTask c k stage) (drop : c.polls = false) :
    ∃ v, stage = .dropOld v := by
  cases move with
  | stay pc' => exact guarded.stage c k stage (pc' ▸ at_stage) drop
  | ended b key event pc past ended =>
    have free := ended.free.1
    rw [at_stage] at free
    cases free
  | arm b key task c' event pc found arm free entered =>
    rw [entered.pc'] at at_stage
    obtain ⟨rfl, rfl, rfl⟩ := Pc.atStage_eq_inTask at_stage
    rcases handleTask_drop_stage task.flag arm.drops with ⟨v, eq⟩ | eq
    · exact ⟨v, eq⟩
    · rw [eq] at at_stage
      cases at_stage
  | pollBegin b key restart task c' event pc found free caller entered =>
    rw [entered.pc'] at at_stage
    obtain ⟨rfl, rfl, rfl⟩ := Pc.atStage_eq_inTask at_stage
    rw [caller] at drop
    cases drop
  | handled c' key stage₀ stage' write next pc handle staged =>
    obtain ⟨f, here, staged⟩ := guarded.staged pc staged
    rw [staged.pc'] at at_stage
    obtain ⟨rfl, rfl, rfl⟩ := Pc.atStage_eq_inTask at_stage
    obtain ⟨v, rfl⟩ := guarded.stage c' key stage₀ pc drop
    cases handle
    rcases Caller.drops drop with status | status <;> rw [status] at at_stage <;> cases at_stage
  | resumed c' key isReady event pc pc' =>
    rw [pc'] at at_stage
    cases c' <;> cases at_stage
  | nested key event busy hand => exact (guarded.not_nested busy hand).elim
  | _ => simp only [*, reduceCtorEq] at at_stage

theorem guarded_of_move {s s' : Wheel} {e : Event} (guarded : Guarded s) (move : Move s e s')
    (length : s'.tasks.length = s.tasks.length) : Guarded s' where
  polling _ _ _ found := step_polling guarded move found
  present _ hand := length ▸ step_subject guarded move hand
  stage _ _ _ at_stage drop := step_stage guarded move at_stage drop

/-- Handle calls happen where user code runs. -/
theorem call_open {s s' : Wheel} {session : Nat} {c : Call}
    (h : s.step (.call session c) = some s') : s.userCode = true := by
  simp only [step, call] at h
  split at h
  · rename_i allowed
    exact (Bool.and_eq_true_iff.mp allowed).1
  · cases h

/-- Between two steps of the wheel's own code the stop reasons stay as they are. -/
theorem Turn.undisturbed {s s' : Wheel} {e : Event} {k : TaskKey} {t t' : StaticFuture}
    (turn : Turn s e k t t') (h : s.step e = some s') (found : s.get k = some t)
    (closed : s.userCode = false) (own : e = .run → s.writes k = false) :
    t'.stopReason = t.stopReason ∧ t'.ended = t.ended := by
  have call : ∀ {session c}, e ≠ .call session c := by
    rintro session c rfl
    exact absurd (call_open h) (closed ▸ nofun)
  cases turn with
  | same aside reason ended => exact ⟨reason, ended⟩
  | resume session event => exact absurd event call
  | suspend session event => exact absurd event call
  | restart session event => exact absurd event call
  | cancel session event => exact absurd event call
  | arm b event pc reason =>
    have quiet := own event
    rcases reason with ⟨reason, _⟩ | ⟨reason, _⟩ | ⟨reason, _⟩ <;>
      simp [writes, marks, pc, found, reason] at quiet
  | reset b c isReady event pc arm =>
    have quiet := own event
    rcases arm with rfl | rfl <;> simp [writes, marks, pc] at quiet
  | finished b restart event pc =>
    have quiet := own event
    simp [writes, marks, pc] at quiet

theorem step_reason {s s' : Wheel} {e : Event} (sound : Sound s) (move : Move s e s')
    (h : s.step e = some s') {k : TaskKey} {t t' : StaticFuture} (decided : s'.pc.decided = some k)
    (found : s.get k = some t) (turn : Turn s e k t t') : t'.stopReason = .none := by
  cases move with
  | stay pc' quiet =>
    rw [pc'] at decided
    have closed : s.userCode = false := by
      cases pc : s.pc with
      | check b key => simp [userCode, pc]
      | chosen b key restart => simp [userCode, pc]
      | _ => simp [pc, Pc.decided] at decided
    rw [(turn.undisturbed h found closed (fun event => absurd event quiet)).1]
    exact sound.reason k t decided found
  | ended b key event pc past ended =>
    rw [(Pc.idle_hands ended.free.1).2.1] at decided
    cases decided
  | choose b key task event pc hold reason runnable pc' =>
    rw [pc'] at decided
    cases decided
    rw [found] at hold
    cases hold
    rw [(turn.undisturbed h found (by simp [userCode, pc])
      (fun _ => by simp [writes, marks, pc, found, reason])).1]
    exact reason
  | arm b key task c event pc hold arm free entered =>
    rw [entered.pc', Pc.atStage_decided] at decided
    cases decided
  | proceed b key task event pc hold runnable pc' =>
    rw [pc'] at decided
    cases decided
    rw [(turn.undisturbed h found (by simp [userCode, pc]) (fun _ => by simp [writes, pc])).1]
    exact sound.reason k t (by rw [pc]; rfl) found
  | pollBegin b key restart task c event pc hold free caller entered =>
    rw [entered.pc', Pc.atStage_decided] at decided
    cases decided
  | handled c key stage stage' write next pc handle staged =>
    obtain ⟨f, here, staged⟩ := sound.staged pc staged
    rw [staged.pc', Pc.atStage_decided] at decided
    cases decided
  | resumed c key isReady event pc pc' =>
    rw [pc'] at decided
    cases c with
    | restart b =>
      cases decided
      cases turn with
      | same aside => exact absurd (aside event) (by simp [writes, marks, pc])
      | reset b c isReady event pc arm reason => exact reason
      | resume session call => cases event.symm.trans call
      | suspend session call => cases event.symm.trans call
      | restart session call => cases event.symm.trans call
      | cancel session call => cases event.symm.trans call
      | arm b event pc₂ => cases pc.symm.trans pc₂
      | finished b restart event pc₂ => cases pc.symm.trans pc₂
    | _ => cases decided
  | nested key event busy hand => exact (sound.not_nested busy hand).elim
  | _ => simp only [*, Pc.decided, reduceCtorEq] at decided

theorem step_ended {s : Wheel} {e : Event} (sound : Sound s) {k : TaskKey}
    {t t' : StaticFuture} (found : s.get k = some t) (turn : Turn s e k t t')
    (ended : t'.ended = true) : t'.stopReason = .cancelled ∨ t'.stopReason = .finished := by
  have before := sound.ended k t found
  cases turn with
  | same aside reason eq =>
    rw [reason]
    exact before (eq ▸ ended)
  | resume session event valid held reason eq =>
    have := before (eq ▸ ended)
    simp [held] at this
  | suspend session event valid free eq =>
    have := before (eq ▸ ended)
    rcases free with ⟨held, _⟩ | ⟨held, _⟩ <;> simp [held] at this
  | restart session event valid fresh reason eq =>
    rw [eq] at ended
    cases ended
  | cancel session event valid live reason eq => exact .inl reason
  | arm b event pc reason =>
    rcases reason with ⟨_, after, _⟩ | ⟨held, _, eq⟩ | ⟨held, _, eq⟩
    · exact .inl after
    · have := before (eq ▸ ended)
      simp [held] at this
    · have := before (eq ▸ ended)
      simp [held] at this
  | reset b c isReady event pc arm reason eq =>
    have alive := sound.living k t (by rw [pc]; rcases arm with rfl | rfl <;> rfl) found
    rw [eq, alive] at ended
    cases ended
  | finished b restart event pc reason eq => exact .inr reason

theorem step_finished {s : Wheel} {e : Event} (sound : Sound s) {k : TaskKey}
    {t t' : StaticFuture} (found : s.get k = some t) (turn : Turn s e k t t')
    (finished : t'.stopReason = .finished) : t'.ended = true := by
  cases turn with
  | same aside reason eq =>
    rw [eq]
    exact sound.finished k t found (reason ▸ finished)
  | resume session event valid held reason eq => exact absurd (reason.symm.trans finished) nofun
  | suspend session event valid free eq =>
    rcases free with ⟨_, reason⟩ | ⟨_, reason⟩ <;> exact absurd (reason.symm.trans finished) nofun
  | restart session event valid fresh reason eq => exact absurd (reason.symm.trans finished) nofun
  | cancel session event valid live reason eq => exact absurd (reason.symm.trans finished) nofun
  | arm b event pc reason =>
    rcases reason with ⟨_, reason, _⟩ | ⟨_, reason, _⟩ | ⟨_, reason, _⟩ <;>
      exact absurd (reason.symm.trans finished) nofun
  | reset b c isReady event pc arm reason eq => exact absurd (reason.symm.trans finished) nofun
  | finished b restart event pc reason eq => exact eq

/-- Only the sweep ends a task: where it drops a cancelled one, and after a poll. -/
theorem Turn.keeps_alive {s : Wheel} {e : Event} {k : TaskKey} {t t' : StaticFuture}
    (turn : Turn s e k t t') (alive : t.ended = false)
    (live : e = .run → ∀ b, s.pc = .sweep b k → t.stopReason ≠ .cancelled)
    (unpolled : e = .run → ∀ b restart, s.pc ≠ .back (.pollLocal b restart) k true) :
    t'.ended = false := by
  cases turn with
  | same aside reason eq => exact eq.trans alive
  | resume session event valid held reason eq => exact eq.trans alive
  | suspend session event valid free eq => exact eq.trans alive
  | restart session event valid fresh reason eq => exact eq
  | cancel session event valid live reason eq => exact eq.trans alive
  | arm b event pc reason =>
    rcases reason with ⟨held, _⟩ | ⟨_, _, eq⟩ | ⟨_, _, eq⟩
    · exact absurd held (live event b pc)
    · exact eq.trans alive
    · exact eq.trans alive
  | reset b c isReady event pc arm reason eq => exact eq.trans alive
  | finished b restart event pc => exact absurd pc (unpolled event b restart)

theorem Handle.quiet {next next' : FutureId} {c : Caller} {e : Event} {stage stage' : Stage}
    {write : InitFlag → InitFlag} (handle : Handle next c e stage stage' write next') :
    e ≠ .run := by
  cases handle <;> nofun

theorem step_living {s s' : Wheel} {e : Event} (sound : Sound s) (move : Move s e s')
    {k : TaskKey} {t t' : StaticFuture} (serving : s'.pc.serving = some k)
    (found : s.get k = some t) (turn : Turn s e k t t') : t'.ended = false := by
  have alive_of : t.stopReason ≠ .cancelled → t.stopReason ≠ .finished → t.ended = false := by
    intro live unfinished
    cases ended : t.ended with
    | false => rfl
    | true => rcases sound.ended k t found ended with h | h <;> contradiction
  cases move with
  | stay pc' quiet =>
    rw [pc'] at serving
    exact turn.keeps_alive (sound.living k t serving found) (fun event => absurd event quiet)
      (fun event => absurd event quiet)
  | ended b key event pc past ended =>
    rw [(Pc.idle_hands ended.free.1).2.2.1] at serving
    cases serving
  | arm b key task c event pc hold arm free entered =>
    rw [entered.pc', Pc.atStage_serving] at serving
    split at serving
    · rename_i serves
      cases serving
      rw [found] at hold
      cases hold
      have live : t.stopReason ≠ .cancelled ∧ t.stopReason ≠ .finished := by
        generalize t.stopReason = r at arm
        cases arm
        · cases serves
        · exact ⟨nofun, nofun⟩
        · exact ⟨nofun, nofun⟩
      exact turn.keeps_alive (alive_of live.1 live.2) (fun _ _ _ => live.1) (fun _ => by simp [pc])
    · cases serving
  | pollBegin b key restart task c event pc hold free caller entered =>
    rw [entered.pc', Pc.atStage_serving, caller] at serving
    cases serving
    have reason := sound.reason k t (by rw [pc]; rfl) found
    refine turn.keeps_alive (alive_of ?_ ?_) (fun _ => by simp [pc]) (fun _ => by simp [pc]) <;>
      simp [reason]
  | handled c key stage stage' write next pc handle staged =>
    obtain ⟨f, here, staged⟩ := sound.staged pc staged
    rw [staged.pc', Pc.atStage_serving] at serving
    have alive := sound.living k t (by rw [pc]; exact serving) found
    exact turn.keeps_alive alive (fun event => absurd event handle.quiet)
      (fun event => absurd event handle.quiet)
  | resumed c key isReady event pc pc' =>
    rw [pc'] at serving
    cases c <;> cases serving
  | nested key event busy hand => exact (sound.not_nested busy hand).elim
  | _ => simp only [*, Pc.serving, reduceCtorEq] at serving

theorem step_uninit {s s' : Wheel} {e : Event} (sound : Sound s) (move : Move s e s')
    {k : TaskKey} {p : Bool} {f : InitFlag} (restarting : s'.pc.restarting = some k)
    (found : s'.control k = some (p, f)) : f = .uninit := by
  have kept : Kept s s' → s.pc.restarting = some k → f = .uninit := fun same before =>
    sound.uninit k p f before ((same.control k).symm.trans found)
  cases move with
  | stay pc' quiet same => exact kept same (pc' ▸ restarting)
  | ended b key event pc past ended =>
    rw [(Pc.idle_hands ended.free.1).2.2.2] at restarting
    cases restarting
  | choose b key task event pc hold reason runnable pc' =>
    rw [pc'] at restarting
    cases restarting
  | arm b key task c event pc hold arm free entered =>
    rw [entered.pc', Pc.atStage_restarting] at restarting
    split at restarting
    · rename_i restarts
      cases restarting
      rw [entered.here] at found
      cases found
      generalize task.stopReason = r at arm
      cases arm
      · cases restarts
      · cases task.flag <;> rfl
      · cases restarts
    · cases restarting
  | proceed b key task event pc hold runnable pc' same =>
    rw [pc'] at restarting
    exact kept same (by rw [pc]; exact restarting)
  | pollBegin b key restart task c event pc hold free caller entered =>
    rw [entered.pc', Pc.atStage_restarting, caller] at restarting
    cases restarting
  | handled c key stage stage' write next pc handle staged =>
    obtain ⟨f₀, here, staged⟩ := sound.staged pc staged
    rw [staged.pc', Pc.atStage_restarting] at restarting
    split at restarting
    · rename_i restarts
      cases restarting
      have drop : c.polls = false := by cases c <;> first | rfl | cases restarts
      obtain ⟨v, rfl⟩ := sound.stage c k stage pc drop
      rw [staged.here] at found
      cases found
      cases handle
      exact sound.uninit k true f₀ (by rw [pc]; simp [Pc.restarting, restarts]) here
    · cases restarting
  | resumed c key isReady event pc pc' same =>
    refine kept same ?_
    rw [pc'] at restarting
    cases c with
    | restart b =>
      rw [pc]
      exact restarting
    | _ => cases restarting
  | nested key event busy hand => exact (sound.not_nested busy hand).elim
  | _ => simp only [*, Pc.restarting, reduceCtorEq] at restarting

theorem step_sound {s s' : Wheel} {e : Event} (sound : Sound s) (goes_on : e ≠ .drop)
    (h : s.step e = some s') : Sound s' := by
  have change := step_change sound.session goes_on h
  have move := step_move sound.session goes_on h
  constructor
  case toGuarded => exact guarded_of_move sound.toGuarded move change.length_eq
  case session => exact step_session sound move
  case small => exact change.length_eq ▸ sound.small
  case reason =>
    intro k t' decided after
    obtain ⟨t, before, turn⟩ := change.origin after
    exact step_reason sound move h decided before turn
  case ended =>
    intro k t' after ended
    obtain ⟨t, before, turn⟩ := change.origin after
    exact step_ended sound before turn ended
  case finished =>
    intro k t' after finished
    obtain ⟨t, before, turn⟩ := change.origin after
    exact step_finished sound before turn finished
  case living =>
    intro k t' serving after
    obtain ⟨t, before, turn⟩ := change.origin after
    exact step_living sound move serving before turn
  case uninit => exact fun k p f restarting found => step_uninit sound move restarting found

theorem Fresh.guarded {s : Wheel} (fresh : Fresh s) : Guarded s := by
  constructor
  case polling =>
    intro k p f found
    obtain ⟨task, hold, known⟩ := Option.map_eq_some_iff.mp found
    have idle := (fresh.tasks task (List.mem_of_getElem? hold)).idle
    have known : p = false := (congrArg Prod.fst known).symm.trans idle
    rw [fresh.pc, known]
    exact ⟨nofun, nofun⟩
  case present => rw [fresh.pc]; exact fun k hand => nomatch hand
  case stage => rw [fresh.pc]; exact fun c k stage h => nomatch h

theorem Fresh.sound {s : Wheel} (fresh : Fresh s) : Sound s := by
  have task_fresh : ∀ {k task}, s.get k = some task → task.Fresh :=
    fun found => fresh.tasks _ (List.mem_of_getElem? found)
  constructor
  case toGuarded => exact fresh.guarded
  case session => rw [fresh.pc]; rfl
  case small => exact fresh.small
  case reason => rw [fresh.pc]; exact fun k task h => nomatch h
  case ended =>
    intro k task found ended
    rw [(task_fresh found).alive] at ended
    cases ended
  case finished =>
    intro k task found finished
    rw [(task_fresh found).reason, StaticFuture.resetReason] at finished
    split at finished <;> cases finished
  case living => rw [fresh.pc]; exact fun k task h => nomatch h
  case uninit => rw [fresh.pc]; exact fun k p f h => nomatch h

/-- The session is not ended by dropping the wheel. -/
def continues : Event → Bool
  | .drop => false
  | _ => true

theorem run_sound {s t : Wheel} {es : List Event} (sound : Sound s) (run : exec step s es = some t)
    (session : Along step (fun _ e _ => continues e = true) s es) : Sound t := by
  refine invariant_along (I := Sound) (P := fun _ e _ => continues e = true) ?_ sound run session
  rintro r e r' inv h goes_on
  exact step_sound inv (by rintro rfl; cases goes_on) h

/-! The first session. -/

theorem firstInit_new (config : List StaticParams) :
    firstInit (config.map StaticFuture.new) =
      (config.map (fun params => (StaticFuture.new params).init.reset true), false) := by
  induction config with
  | nil => rfl
  | cons params config ih =>
    have unset : (StaticFuture.new params).hasFlags = false := rfl
    simp only [List.map_cons, firstInit, unset, ih, Bool.false_eq_true, if_false]

/-- The wheel after the very first `try_lock`. -/
def opened (config : List StaticParams) : Wheel :=
  let tasks := config.map (fun params => (StaticFuture.new params).init.reset true)
  ((new config).withAlg (fun alg => { alg with registry := tasks })).started
    (tasks.countP StaticFuture.startSuspended)

theorem lock_new (config : List StaticParams) : (new config).step .lock = some (opened config) := by
  have first : (new config).alg.unfinishedCount = usizeMax := rfl
  have tasks : (new config).alg.registry = config.map StaticFuture.new := rfl
  have pc : (new config).pc = .unlocked := rfl
  simp only [step, lock, pc, first, tasks, firstInit_new, if_true, Bool.false_eq_true, if_false]
  rfl

theorem opened_fresh {config : List StaticParams} (small : config.length < usizeMax) :
    Fresh (opened config) := by
  constructor
  case pc => rfl
  case tasks =>
    intro task member
    obtain ⟨params, _, rfl⟩ := List.mem_map.mp member
    exact ⟨rfl, rfl, rfl, rfl, rfl, rfl⟩
  case small => simpa [tasks, opened, started, withAlg] using small
  case suspended => rfl
  case unfinished => rfl
  case current => rfl
  case suspendedMark => rfl
  case unfinishedMark => rfl

end Wheel
end Juggle.St
