import Juggle.Lib.Bell
import Juggle.St.Sessions
import Mathlib.Data.List.InsertIdx

/-! Wake-ups of static tasks from other threads, over all sessions. The wheel is the
sleeper at the bell made of its `last_waker` and the wakes under way. -/
namespace Juggle.St
open Juggle.Utils Juggle.Runs Juggle.Bells

/-- The sweep that decides whether `poll_internal` sleeps. -/
def Beat.last (b : Beat) : Bool := b.second && !b.anyPoll

def Caller.last : Caller → Bool
  | .cancelled b => b.last
  | .restart b => b.last
  | .restartSuspended b => b.last
  | .pollLocal b _ => b.last
  | .cleanup _ => false
  | .init _ => false

namespace Pc

/-- The waker was registered and nothing has been polled since. -/
def vigil : Pc → Bool
  | .sweep b _ => b.last
  | .check b _ => b.last
  | .chosen b _ _ => b.last
  | .inTask c _ _ => c.last
  | .back c _ _ => c.last
  | .returned .pending => true
  | _ => false

/-- The key the sweep stands at. -/
def cursor : Pc → Option TaskKey
  | .sweep _ key => some key
  | .check _ key => some key
  | .chosen _ key _ => some key
  | .inTask _ key _ => some key
  | .back _ key _ => some key
  | _ => none

/-- The call of `poll_protected` that is running or has just returned. -/
def caller : Pc → Option (Caller × TaskKey)
  | .inTask c key _ => some (c, key)
  | .back c key _ => some (c, key)
  | _ => none

/-- Inside of `beat_once`, or where `poll_internal` has returned. -/
def active : Pc → Bool
  | .sweep _ _ => true
  | .check _ _ => true
  | .chosen _ _ _ => true
  | .inTask c _ _ => c.inSession
  | .back c _ _ => c.inSession
  | .returned _ => true
  | _ => false

/-- The last sweep has passed the key. -/
def passed (k : TaskKey) (pc : Pc) : Bool :=
  match pc with
  | .returned .pending => true
  | _ => pc.cursor.any (fun key => decide (k < key))

end Pc

def WakePc.phase : WakePc → Phase Waker
  | .notify => .take
  | .invoke w => .invoke w
  | .store => .store

namespace Wheel

def bell (s : Wheel) : Bell TaskKey Waker where
  cell := s.alg.lastWaker
  calls := s.wakes.map (fun c => (c.target, c.pc.phase))
  rung := s.woken

/-- The waker of this call of `poll_internal` was invoked or is about to be. -/
def heard (s : Wheel) : Bool := decide (s.bell.Answered s.waker)

/-- A task that may be polled is runnable or about to become so. -/
def exposed (s : Wheel) (k : TaskKey) : Bool :=
  match s.get k with
  | some task => decide (task.stopReason = .none) && (task.runnable || decide (s.bell.Owes k))
  | none => false

/-- The sweep is about to pass the key because the task waits. -/
def passing (s : Wheel) : Option TaskKey :=
  match s.pc with
  | .sweep _ key => if (s.get key).any (fun task => !task.hasWork) then some key else none
  | .check _ key => if (s.get key).any (fun task => !task.runnable) then some key else none
  | _ => none

/-- The last sweep loads a runnable flag in the middle of a wake that did not find the
waker, or leaves a restarted and suspended task behind it as it has reset it, or a
destructor run by it resumes an exposed task that it has passed. -/
def lapses (s : Wheel) : Event → Bool
  | .run =>
    s.pc.vigil && !s.heard &&
      match s.pc with
      | .back (.restartSuspended _) _ _ => true
      | _ => s.passing.any s.exposed
  | .call session (.resume k) =>
    match s.pc with
    | .inTask _ _ _ =>
      s.pc.vigil && !s.heard && s.isValid session && s.pc.passed k &&
        (s.perform (.resume k)).exposed k
    | _ => false
  | _ => false

/-- A task that may be polled and that the last sweep has passed. -/
def seen (s : Wheel) (k : TaskKey) : Prop :=
  s.pc.passed k = true ∧ ∃ task, s.get k = some task ∧ task.stopReason = .none

def marked (s : Wheel) (k : TaskKey) : Prop := ∃ task, s.get k = some task ∧ task.runnable = true

/-- The callers of the last sweep only drop their task, and what `Cancelled` drops stays
barred until it is restarted. -/
structure Watchful (s : Wheel) : Prop where
  covers : s.pc.vigil = true → s.bell.Covers s.waker s.seen s.marked
  busy : ∀ c key, s.pc.caller = some (c, key) → c.polls = true → c.last = false
  spent : ∀ b key task, s.pc.caller = some (.cancelled b, key) → s.get key = some task →
    task.stopReason ≠ .none ∧ task.stopReason ≠ .suspended

section Outside
variable {s s' : Wheel} {e : Event}

theorem wakeStep_pc {i : Nat} (h : s.step (.wakeStep i) = some s') : s'.pc = s.pc := by
  simp only [Wheel.step, wakeStep] at h
  split at h
  all_goals cases h
  all_goals rfl

theorem leave_active (s : Wheel) (c : Caller) (key : TaskKey) (isReady : Bool) :
    (s.leave c key isReady).pc.active = c.inSession := by
  unfold leave
  cases c <;> rfl

theorem atStage_active (s : Wheel) (c : Caller) (key : TaskKey) (stage : Stage) :
    (s.atStage c key stage).pc.active = c.inSession := by
  cases stage with
  | leave isReady => exact leave_active s c key isReady
  | _ => rfl

theorem pollProtected_inactive (s : Wheel) {c : Caller} (key : TaskKey)
    (outside : c.inSession = false) : (s.pollProtected c key).pc.active = false := by
  unfold pollProtected
  split
  · rfl
  · split
    · rfl
    · exact (atStage_active _ c key _).trans outside

theorem dispose_inactive (s : Wheel) (unwinding : Bool) : (s.dispose unwinding).pc.active = false := by
  unfold dispose
  split <;> rfl

theorem active_inSession {pc : Pc} (active : pc.active = true) : pc.inSession = true := by
  cases pc <;> first | rfl | exact active

/-- `init` and `dispose` do not lead into a sweep. -/
theorem run_inactive (h : s.run = some s') (outside : s.pc.inSession = false) :
    s'.pc.active = false := by
  unfold run at h
  cases pc : s.pc with
  | back c key isReady =>
    simp only [pc, Option.some.injEq] at h
    subst h
    cases c with
    | cleanup unwinding => rfl
    | init suspended => rfl
    | _ => simp [pc, Pc.inSession, Caller.inSession] at outside
  | dispose unwinding key =>
    simp only [pc, Option.some.injEq] at h
    subst h
    split
    · exact pollProtected_inactive s key rfl
    · rfl
  | init suspended key =>
    simp only [pc, Option.some.injEq] at h
    subst h
    split
    · exact pollProtected_inactive s key rfl
    · rfl
  | _ => simp_all [Pc.inSession]

/-- A step of user code ends the answer of `poll_internal` and keeps all else in place. -/
theorem settle_active (s₀ : Wheel) (pc : s₀.pc = s.pc) (active : s₀.settle.pc.active = true) :
    s.pc.active = true := by
  unfold settle at active
  split at active
  · cases active
  · exact pc ▸ active

theorem panic_inactive (h : s.step .panic = some s') : s'.pc.active = false := by
  simp only [Wheel.step, panic] at h
  split at h
  · rename_i c key stage pc
    split at h
    · cases c with
      | cleanup unwinding =>
        cases unwinding with
        | true => cases h
        | false =>
          cases h
          rfl
      | init suspended =>
        cases h
        exact dispose_inactive _ true
      | _ =>
        cases h
        rfl
    · cases h
  · cases h

theorem vigil_active {pc : Pc} (vigil : pc.vigil = true) : pc.active = true := by
  cases pc with
  | inTask c key stage => cases c <;> first | rfl | cases vigil
  | back c key isReady => cases c <;> first | rfl | cases vigil
  | _ => first | rfl | cases vigil

/-- A sweep is reached from inside of the session only. -/
theorem active_inside (h : s.step e = some s') (active : s'.pc.active = true) :
    s.pc.inSession = true ∧ e ≠ .drop := by
  cases e with
  | call session c =>
    refine ⟨?_, by rintro ⟨⟩⟩
    simp only [Wheel.step, call] at h
    split at h
    · cases h
      split at active
      · exact active_inSession (settle_active _ (perform_pc s c) active)
      · exact active_inSession (settle_active s rfl active)
    · cases h
  | wake target =>
    refine ⟨?_, by rintro ⟨⟩⟩
    simp only [Wheel.step, wake] at h
    split at h
    · cases h
      exact active_inSession
        (settle_active (s.notifyWake.storeRunnable target) (notifyWake_pc s) active)
    · cases h
  | wakeBegin target =>
    cases h
    exact ⟨active_inSession active, by rintro ⟨⟩⟩
  | wakeStep i =>
    have pc' : s'.pc = s.pc := wakeStep_pc h
    exact ⟨active_inSession (pc' ▸ active), by rintro ⟨⟩⟩
  | poll w =>
    simp only [Wheel.step, poll] at h
    split at h
    all_goals cases h
    all_goals cases active
  | run =>
    refine ⟨?_, by rintro ⟨⟩⟩
    by_contra outside
    rw [run_inactive h (by simpa using outside)] at active
    cases active
  | dropped =>
    refine ⟨?_, by rintro ⟨⟩⟩
    simp only [Wheel.step, dropped] at h
    split at h
    · rename_i pc
      cases h
      rw [pc]
      exact (atStage_active s _ _ _).symm.trans active
    · rename_i pc
      cases h
      rw [pc]
      exact (leave_active s _ _ _).symm.trans active
    · cases h
  | created =>
    refine ⟨?_, by rintro ⟨⟩⟩
    simp only [Wheel.step, created] at h
    split at h
    · rename_i pc
      cases h
      rw [pc]
      exact (atStage_active _ _ _ _).symm.trans active
    · cases h
  | done isReady =>
    refine ⟨?_, by rintro ⟨⟩⟩
    simp only [Wheel.step, done] at h
    split at h
    · rename_i pc
      cases h
      rw [pc]
      exact (atStage_active _ _ _ _).symm.trans active
    · cases h
  | panic =>
    rw [panic_inactive h] at active
    cases active
  | lock =>
    simp only [Wheel.step, lock] at h
    split at h
    · split at h
      · cases h
        split at active
        · rw [dispose_inactive] at active
          cases active
        · cases active
      · cases h
        cases active
    · cases h
  | drop =>
    simp only [Wheel.step, drop] at h
    split at h
    all_goals cases h
    all_goals rw [dispose_inactive] at active
    all_goals cases active

end Outside

section Bell

/-- The bell and the waker whose answer counts. -/
def post (s : Wheel) : Bell TaskKey Waker × Waker := (s.bell, s.waker)

/-- A step of anyone but the wheel itself, seen from the bell. -/
structure Rings (s s' : Wheel) : Prop where
  step : Bell.Step s.bell s'.bell
  waker : s'.waker = s.waker

theorem Rings.same {s s' : Wheel} (eq : s'.post = s.post) : Rings s s' where
  step := .same (congrArg Prod.fst eq)
  waker := congrArg Prod.snd eq

theorem post_settle (s : Wheel) : s.settle.post = s.post := by
  unfold settle
  split <;> rfl

theorem post_leave (s : Wheel) (c : Caller) (key : TaskKey) (isReady : Bool) :
    (s.leave c key isReady).post = s.post := by
  unfold leave
  cases c <;> rfl

theorem post_atStage (s : Wheel) (c : Caller) (key : TaskKey) (stage : Stage) :
    (s.atStage c key stage).post = s.post := by
  cases stage with
  | leave isReady => exact post_leave s c key isReady
  | _ => rfl

theorem post_pollProtected (s : Wheel) (c : Caller) (key : TaskKey) :
    (s.pollProtected c key).post = s.post := by
  unfold pollProtected
  split
  · rfl
  · split
    · rfl
    · exact post_atStage _ c key _

theorem post_visit (s : Wheel) (b : Beat) (key : TaskKey) (task : StaticFuture) :
    (s.visit b key task).post = s.post := by
  unfold visit
  split
  · split <;> rfl
  · exact post_pollProtected _ _ key
  · exact post_pollProtected _ _ key
  · exact post_pollProtected _ _ key
  · rfl
  · rfl

theorem post_endBeat (s : Wheel) (b : Beat) : (s.endBeat b).post = s.post := by
  unfold endBeat
  split
  · rfl
  · rfl
  · rfl
  · dsimp only
    split <;> rfl

theorem post_resume (s : Wheel) (c : Caller) (key : TaskKey) (isReady : Bool) :
    (s.resume c key isReady).post = s.post := by
  cases c with
  | pollLocal b restart => cases isReady <;> rfl
  | _ => rfl

theorem post_perform (s : Wheel) (c : Call) : (s.perform c).post = s.post := by
  cases c with
  | resume key =>
    rcases resume_cases s.alg key with no | ⟨task, found, held, yes⟩
    · simp only [post, bell, perform, no]
    · simp only [post, bell, perform, yes]
      rfl
  | suspend key =>
    rcases suspend_cases s.alg key with no | ⟨task, r, found, free, yes⟩
    · simp only [post, bell, perform, no]
    · simp only [post, bell, perform, yes]
      rfl
  | restart key =>
    rcases restart_cases s.alg key with no | ⟨_, _, _, no⟩ | ⟨task, found, fresh, yes⟩
    · simp only [post, bell, perform, no]
    · simp only [post, bell, perform, no]
    · simp only [post, bell, perform, yes]
      cases task.stopReason <;> rfl
  | cancel key =>
    rcases cancel_cases s.alg key with no | ⟨task, found, live, yes⟩
    · simp only [post, bell, perform, no]
    · simp only [post, bell, perform, yes]
      split <;> rfl
  | _ => rfl

theorem notifyWake_rings (s : Wheel) : Rings s s.notifyWake := by
  unfold notifyWake
  cases cell : s.alg.lastWaker with
  | none => exact ⟨.whole cell rfl (by simp [bell, cell]), rfl⟩
  | some w => exact ⟨.whole rfl rfl (by simp [bell, cell]), rfl⟩

theorem wake_rings {s s' : Wheel} {target : TaskKey} (h : s.wake target = some s') : Rings s s' := by
  unfold wake at h
  split at h
  · cases h
    have settled := post_settle (s.notifyWake.storeRunnable target)
    obtain ⟨step, waker⟩ := notifyWake_rings s
    refine ⟨?_, (congrArg Prod.snd settled).trans waker⟩
    rw [show (s.notifyWake.storeRunnable target).settle.bell = s.notifyWake.bell from
      congrArg Prod.fst settled]
    exact step
  · cases h

theorem wakeStep_rings {s s' : Wheel} {i : Nat} (h : s.wakeStep i = some s') : Rings s s' := by
  suffices goes : s.bell.advance i = some s'.bell ∧ s'.waker = s.waker from
    ⟨Bell.advance_step goes.1, goes.2⟩
  unfold wakeStep at h
  split at h
  · cases h
  · rename_i target here
    cases h
    refine ⟨?_, rfl⟩
    cases cell : s.alg.lastWaker <;>
      simp [Bell.advance, bell, here, cell, WakePc.phase, Phase.taken, setLastWaker, withAlg]
  · rename_i target w here
    cases h
    exact ⟨by simp [Bell.advance, bell, here, WakePc.phase], rfl⟩
  · rename_i target here
    cases h
    refine ⟨?_, rfl⟩
    simp [Bell.advance, bell, here, WakePc.phase, storeRunnable, update, withAlg,
      StaticAlgorithm.update, List.eraseIdx_map]

theorem run_rings {s s' : Wheel} (h : s.run = some s') (vigil : s'.pc.vigil = true)
    (session : s.pc.inSession = true) (registered : s.pc ≠ .register) : Rings s s' := by
  unfold run at h
  split at h
  · cases h
    cases vigil
  · split at h
    · cases h
      exact .same (post_visit s _ _ _)
    · cases h
      exact .same (post_endBeat s _)
  · split at h
    · cases h
      split <;> exact .same rfl
    · cases h
  · cases h
    exact .same (post_pollProtected _ _ _)
  · cases h
    exact .same (post_resume s _ _ _)
  · rename_i pc
    exact absurd pc registered
  · cases h
    cases vigil
  · rename_i pc
    rw [pc] at session
    cases session
  · rename_i pc
    rw [pc] at session
    cases session
  · cases h

/-- Where the wheel keeps vigil after a step, its own part in the step was at most to
register the waker. -/
theorem step_rings {s s' : Wheel} {e : Event} (h : s.step e = some s') (vigil : s'.pc.vigil = true)
    (session : s.pc.inSession = true) (goes_on : e ≠ .drop) (registered : s.pc ≠ .register) :
    Rings s s' := by
  cases e with
  | call session c =>
    simp only [Wheel.step, call] at h
    split at h
    · cases h
      split
      · exact .same ((post_settle _).trans (post_perform s c))
      · exact .same (post_settle s)
    · cases h
  | wake target => exact wake_rings h
  | wakeBegin target =>
    cases h
    exact ⟨.call target rfl (by simp [bell, WakePc.phase]) rfl, rfl⟩
  | wakeStep i => exact wakeStep_rings h
  | poll w =>
    simp only [Wheel.step, poll] at h
    split at h
    all_goals cases h
    all_goals cases vigil
  | run => exact run_rings h vigil session registered
  | dropped =>
    simp only [Wheel.step, dropped] at h
    split at h
    all_goals cases h
    · exact .same (post_atStage s _ _ _)
    · exact .same (post_leave s _ _ _)
  | created =>
    simp only [Wheel.step, created] at h
    split at h
    all_goals cases h
    exact .same (post_atStage _ _ _ _)
  | done isReady =>
    simp only [Wheel.step, done] at h
    split at h
    all_goals cases h
    exact .same (post_atStage _ _ _ _)
  | panic =>
    have active := vigil_active vigil
    rw [panic_inactive h] at active
    cases active
  | lock =>
    simp only [Wheel.step, lock] at h
    split at h
    · rename_i pc
      rw [pc] at session
      cases session
    · cases h
  | drop => exact absurd rfl goes_on

end Bell

section Others
variable {s s' : Wheel} {e : Event} {k : TaskKey}

theorem atStage_get_other (s : Wheel) (c : Caller) {key : TaskKey} (stage : Stage) (other : k ≠ key) :
    (s.atStage c key stage).get k = s.get k := by
  cases stage with
  | leave isReady => exact leave_get_other s c isReady other
  | _ => rfl

theorem visit_get_other (s : Wheel) (b : Beat) {key : TaskKey} (task : StaticFuture)
    (other : k ≠ key) : (s.visit b key task).get k = s.get k := by
  unfold visit
  split
  · split <;> rfl
  · exact (pollProtected_get_other _ _ other).trans (get_update_other s _ other)
  · exact (pollProtected_get_other _ _ other).trans (get_update_other s _ other)
  · exact (pollProtected_get_other _ _ other).trans (get_update_other s _ other)
  · rfl
  · rfl

theorem resume_get_other (s : Wheel) (c : Caller) {key : TaskKey} (isReady : Bool) (other : k ≠ key) :
    (s.resume c key isReady).get k = s.get k := by
  cases c with
  | cancelled b => rfl
  | restart b => exact get_update_other s _ other
  | restartSuspended b => exact get_update_other s _ other
  | pollLocal b restart =>
    cases isReady with
    | true => exact get_update_other s _ other
    | false => rfl
  | cleanup unwinding => exact get_update_other s _ other
  | init suspended => exact get_update_other s _ other

theorem run_get_other (h : s.run = some s') (session : s.pc.inSession = true)
    (other : s.pc.cursor ≠ some k) : s'.get k = s.get k := by
  unfold run at h
  cases pc : s.pc with
  | clear =>
    simp only [pc, Option.some.injEq] at h
    subst h
    rfl
  | sweep b key =>
    have away : k ≠ key := fun here => other (by rw [pc, here]; rfl)
    simp only [pc] at h
    split at h
    · cases h
      exact visit_get_other s b _ away
    · cases h
      simp only [get, endBeat_same]
  | check b key =>
    simp only [pc] at h
    split at h
    · cases h
      split <;> rfl
    · cases h
  | chosen b key restart =>
    have away : k ≠ key := fun here => other (by rw [pc, here]; rfl)
    simp only [pc, Option.some.injEq] at h
    subst h
    exact (pollProtected_get_other _ _ away).trans (get_update_other (s.setCurrent (some key)) _ away)
  | back c key isReady =>
    have away : k ≠ key := fun here => other (by rw [pc, here]; rfl)
    simp only [pc, Option.some.injEq] at h
    subst h
    exact resume_get_other s c isReady away
  | register =>
    simp only [pc, Option.some.injEq] at h
    subst h
    rfl
  | finish finished =>
    simp only [pc, Option.some.injEq] at h
    subst h
    rfl
  | dispose unwinding key => rw [pc] at session; cases session
  | init suspended key => rw [pc] at session; cases session
  | _ => simp only [pc, reduceCtorEq] at h

/-- Handle calls and wakes apart, a step reaches the task in hand only. -/
def ownStep : Event → Bool
  | .call _ _ => false
  | .wake _ => false
  | .wakeBegin _ => false
  | .wakeStep _ => false
  | _ => true

theorem own_get_other (h : s.step e = some s') (session : s.pc.inSession = true)
    (goes_on : e ≠ .drop) (active : s'.pc.active = true) (own : ownStep e = true)
    (other : s.pc.cursor ≠ some k) : s'.get k = s.get k := by
  have away : ∀ c key stage, s.pc = .inTask c key stage → k ≠ key :=
    fun c key stage pc here => other (by rw [pc, here]; rfl)
  cases e with
  | run => exact run_get_other h session other
  | poll w =>
    simp only [Wheel.step, poll] at h
    split at h
    all_goals cases h
    all_goals rfl
  | dropped =>
    simp only [Wheel.step, dropped] at h
    split at h
    · rename_i pc
      cases h
      exact atStage_get_other s _ _ (away _ _ _ pc)
    · rename_i pc
      cases h
      exact leave_get_other s _ true (away _ _ _ pc)
    · cases h
  | created =>
    simp only [Wheel.step, created] at h
    split at h
    · rename_i pc
      cases h
      exact (atStage_get_other _ _ _ (away _ _ _ pc)).trans (get_update_other _ _ (away _ _ _ pc))
    · cases h
  | done isReady =>
    simp only [Wheel.step, done] at h
    split at h
    · rename_i pc
      cases h
      exact (atStage_get_other _ _ _ (away _ _ _ pc)).trans (get_update_other _ _ (away _ _ _ pc))
    · cases h
  | panic =>
    rw [panic_inactive h] at active
    cases active
  | lock =>
    simp only [Wheel.step, lock] at h
    split at h
    · rename_i pc
      rw [pc] at session
      cases session
    · cases h
  | drop => exact absurd rfl goes_on
  | _ => cases own

end Others

section Step
variable {s s' : Wheel} {e : Event} {k : TaskKey}

theorem heard_iff : s.heard = true ↔ s.bell.Answered s.waker := decide_eq_true_iff

theorem passed_apart {pc : Pc} (passed : pc.passed k = true) : pc.cursor ≠ some k := by
  intro here
  unfold Pc.passed at passed
  split at passed
  · cases here
  · rw [here] at passed
    simp at passed

/-- The cursor moves on by one key, and passes it. -/
theorem passed_succ {pc pc' : Pc} {key : TaskKey} (before : pc.cursor = some key)
    (after : pc'.cursor = some (key + 1)) (passed : pc'.passed k = true) :
    pc.passed k = true ∨ k = key := by
  have low : k < key + 1 := by
    unfold Pc.passed at passed
    split at passed
    · cases after
    · simpa [after] using passed
  refine (Nat.lt_succ_iff_lt_or_eq.mp low).imp_left (fun low => ?_)
  unfold Pc.passed
  split
  · rfl
  · simpa [before] using low

theorem Ended.vigil {b : Beat} {pc : Pc} (ended : Ended s b pc) (vigil : pc.vigil = true) :
    b.last = true := by
  cases ended with
  | pending second quiet => simp [Beat.last, second, quiet]
  | _ => cases vigil

theorem atStage_vigil (c : Caller) (key : TaskKey) (stage : Stage) :
    (Pc.atStage c key stage).vigil = c.last := by
  cases stage <;> rfl

theorem atStage_caller (c : Caller) (key : TaskKey) (stage : Stage) :
    (Pc.atStage c key stage).caller = some (c, key) := by
  cases stage <;> rfl

theorem atStage_passed (c : Caller) (key : TaskKey) (stage : Stage) :
    (Pc.atStage c key stage).passed k = decide (k < key) := by
  cases stage <;> rfl

theorem arm_last {b : Beat} {r : StopReason} {c : Caller} (arm : Arm b r c) : c.last = b.last := by
  cases arm <;> rfl

/-- The vigil begins when the waker is registered. -/
theorem vigil_before (guarded : Guarded s) (move : Move s e s') (vigil : s'.pc.vigil = true)
    (registered : s.pc ≠ .register) :
    s.pc.vigil = true := by
  cases move with
  | stay pc' => exact pc' ▸ vigil
  | settled v pc pc' => rw [pc'] at vigil; cases vigil
  | enter w event pc pc' => rw [pc'] at vigil; cases vigil
  | begins second event begins pc' =>
    rw [pc'] at vigil
    cases begins with
    | register pc => exact absurd pc registered
    | _ => cases vigil
  | ended b key event pc past ended =>
    rw [pc]
    exact ended.vigil vigil
  | skip b key task event pc found rest pc' => rw [pc'] at vigil; rw [pc]; exact vigil
  | choose b key task event pc found reason runnable pc' =>
    rw [pc'] at vigil; rw [pc]; exact vigil
  | arm b key task c event pc found arm free entered =>
    rw [entered.pc', atStage_vigil, arm_last arm] at vigil
    rw [pc]
    exact vigil
  | pass b key task event pc found waiting pc' => rw [pc'] at vigil; rw [pc]; exact vigil
  | proceed b key task event pc found runnable pc' => rw [pc'] at vigil; rw [pc]; exact vigil
  | pollBegin b key restart task c event pc found free caller entered =>
    rw [entered.pc', atStage_vigil, caller] at vigil
    simp [Caller.last, Beat.last] at vigil
  | handled c key stage stage' write next pc handle staged =>
    obtain ⟨f, here, staged⟩ := guarded.staged pc staged
    rw [staged.pc', atStage_vigil] at vigil
    rw [pc]
    exact vigil
  | resumed c key isReady event pc pc' =>
    rw [pc'] at vigil
    rw [pc]
    cases c with
    | cleanup unwinding => cases vigil
    | init suspended => cases vigil
    | _ => exact vigil
  | answer finished event pc pc' => rw [pc'] at vigil; cases vigil
  | unwound c key stage event pc code pc' => rw [pc'] at vigil; cases vigil
  | nested key event refused hand => exact (guarded.not_nested refused hand).elim

theorem exposed_of_work (free : ∃ task, s.get k = some task ∧ task.stopReason = .none)
    (work : s.marked k ∨ s.bell.Owes k) : s.exposed k = true := by
  obtain ⟨task, found, reason⟩ := free
  rcases work with ⟨task', found', runnable⟩ | owes
  · rw [found] at found'
    cases found'
    simp [exposed, found, reason, runnable]
  · simp [exposed, found, reason, owes]

/-- Where the task was seen before and nothing happens to it, nothing is new. -/
theorem known_of_same (same : s'.get k = s.get k) (passed : s.pc.passed k = true) (look : s'.seen k) :
    s.seen k ∧ (s'.marked k → s.marked k ∨ s.bell.Owes k) := by
  obtain ⟨_, task, found, reason⟩ := look
  refine ⟨⟨passed, task, same ▸ found, reason⟩, ?_⟩
  rintro ⟨task', found', runnable⟩
  exact .inl ⟨task', same ▸ found', runnable⟩

/-- A waker that was heard stays heard. -/
theorem heard_step (rings : Rings s s') (heard : s.heard = true) : s'.heard = true := by
  refine heard_iff.mpr ?_
  rw [rings.waker]
  exact (heard_iff.mp heard).step rings.step

/-- A task that waits is passed. Where its runnable flag is owed, the waker was heard. -/
theorem pass_heard (armed : s.bell.Armed s.waker) (rings : Rings s s') (same : s'.get k = s.get k)
    {task : StaticFuture} (found : s.get k = some task) (waiting : task.runnable = false)
    (lapse : s.exposed k = true → s.heard = true) (look : s'.seen k)
    (work : s'.marked k ∨ s'.bell.Owes k) : s'.heard = true := by
  obtain ⟨_, task', found', reason⟩ := look
  rw [same, found] at found'
  cases found'
  have owes : s'.bell.Owes k := by
    refine work.resolve_left ?_
    rintro ⟨task', found', runnable⟩
    rw [same, found] at found'
    cases found'
    rw [waiting] at runnable
    cases runnable
  rcases Bell.owes_step armed rings.step owes with before | answered
  · exact heard_step rings (lapse (exposed_of_work ⟨task, found, reason⟩ (.inr before)))
  · refine heard_iff.mpr ?_
    rw [rings.waker]
    exact answered

theorem passing_heard (vigil : s.pc.vigil = true) (lapse : s.lapses .run = false)
    (passing : s.passing = some k) (exposed : s.exposed k = true) : s.heard = true := by
  cases heard : s.heard with
  | true => rfl
  | false =>
    cases pc : s.pc with
    | sweep b key =>
      rw [pc] at vigil
      simp [lapses, vigil, heard, pc, passing, exposed] at lapse
    | check b key =>
      rw [pc] at vigil
      simp [lapses, vigil, heard, pc, passing, exposed] at lapse
    | _ => simp [Wheel.passing, pc] at passing

theorem visit_rest {b : Beat} {key : TaskKey} {task : StaticFuture} (rest : task.hasWork = false) :
    s.visit b key task = s.goto (.sweep b (key + 1)) := by
  unfold StaticFuture.hasWork at rest
  unfold visit
  cases reason : task.stopReason with
  | none =>
    rw [reason] at rest
    simp only [rest, Bool.false_eq_true, if_false]
  | finished => rfl
  | suspended => rfl
  | _ =>
    rw [reason] at rest
    cases rest

/-- The sweep passes a key where the task waits, where it was dropped, or where it was
reset in the `RestartSuspended` arm. -/
theorem own_known (guarded : Guarded s) (watchful : Watchful s) (h : s.step e = some s')
    (own : ownStep e = true) (vigil : s.pc.vigil = true) (vigil' : s'.pc.vigil = true)
    (rings : Rings s s') (lapse : s.lapses e = false) (look : s'.seen k)
    (work : s'.marked k ∨ s'.bell.Owes k) :
    (s.seen k ∧ (s'.marked k → s.marked k ∨ s.bell.Owes k)) ∨ s'.heard = true := by
  obtain ⟨session, goes_on⟩ := active_inside h (vigil_active vigil')
  have passed := look.1
  have armed := (watchful.covers vigil).armed
  have kept : s.pc.passed k = true → s.seen k ∧ (s'.marked k → s.marked k ∨ s.bell.Owes k) :=
    fun before => known_of_same
      (own_get_other h session goes_on (vigil_active vigil') own (passed_apart before)) before look
  cases step_move session goes_on h with
  | stay pc' quiet => exact .inl (kept (pc' ▸ passed))
  | settled v pc pc' => rw [pc'] at vigil'; cases vigil'
  | enter w event pc pc' => rw [pc'] at vigil'; cases vigil'
  | begins second event begins pc' => rw [pc'] at passed; simp [Pc.passed, Pc.cursor] at passed
  | ended b key event pc past ended =>
    subst event
    have same : s'.get k = s.get k := by
      simp only [Wheel.step, run, pc, past] at h
      cases h
      simp only [get, endBeat_same]
    obtain ⟨task, found, _⟩ := look.2
    rw [same] at found
    have bound : k < s.tasks.length := (List.getElem?_eq_some_iff.mp found).1
    have beyond : s.tasks.length ≤ key := List.getElem?_eq_none_iff.mp past
    exact .inl (kept (by simpa [pc, Pc.passed, Pc.cursor] using Nat.lt_of_lt_of_le bound beyond))
  | skip b key task event pc found rest pc' =>
    rcases passed_succ (congrArg Pc.cursor pc) (congrArg Pc.cursor pc') passed with before | rfl
    · exact .inl (kept before)
    · subst event
      have same : s'.get k = s.get k := by
        simp only [Wheel.step, run, pc, found, visit_rest rest] at h
        cases h
        rfl
      obtain ⟨task', found', reason⟩ := look.2
      rw [same, found] at found'
      cases found'
      have waiting : task.runnable = false := by simpa [StaticFuture.hasWork, reason] using rest
      have passing : s.passing = some k := by simp [Wheel.passing, pc, found, rest]
      exact .inr (pass_heard armed rings same found waiting (passing_heard vigil lapse passing) look work)
  | choose b key task event pc found reason runnable pc' =>
    rw [pc'] at passed
    exact .inl (kept (by rw [pc]; exact passed))
  | arm b key task c event pc found arm free entered =>
    rw [entered.pc', atStage_passed] at passed
    exact .inl (kept (by rw [pc]; exact passed))
  | pass b key task event pc found waiting pc' =>
    rcases passed_succ (congrArg Pc.cursor pc) (congrArg Pc.cursor pc') passed with before | rfl
    · exact .inl (kept before)
    · subst event
      have same : s'.get k = s.get k := by
        simp only [Wheel.step, run, pc, found, waiting, Bool.false_eq_true, if_false] at h
        cases h
        rfl
      have passing : s.passing = some k := by simp [Wheel.passing, pc, found, waiting]
      exact .inr (pass_heard armed rings same found waiting (passing_heard vigil lapse passing) look work)
  | proceed b key task event pc found runnable pc' =>
    rw [pc'] at passed
    exact .inl (kept (by rw [pc]; exact passed))
  | pollBegin b key restart task c event pc found free caller entered =>
    rw [entered.pc', atStage_passed] at passed
    exact .inl (kept (by rw [pc]; exact passed))
  | handled c key stage stage' write next pc handle staged =>
    obtain ⟨f, here, staged⟩ := guarded.staged pc staged
    rw [staged.pc', atStage_passed] at passed
    exact .inl (kept (by rw [pc]; exact passed))
  | resumed c key isReady event pc pc' =>
    cases c with
    | cancelled b =>
      rcases passed_succ (congrArg Pc.cursor pc) (congrArg Pc.cursor pc') passed with before | rfl
      · exact .inl (kept before)
      · subst event
        have same : s'.get k = s.get k := by
          simp only [Wheel.step, run, pc] at h
          cases h
          rfl
        obtain ⟨task, found, reason⟩ := look.2
        rw [same] at found
        exact absurd reason (watchful.spent b k task (by rw [pc]; rfl) found).1
    | restart b =>
      rw [pc'] at passed
      exact .inl (kept (by rw [pc]; exact passed))
    | restartSuspended b =>
      rcases passed_succ (congrArg Pc.cursor pc) (congrArg Pc.cursor pc') passed with before | rfl
      · exact .inl (kept before)
      · subst event
        rw [pc] at vigil
        have heard : s.heard = true := by simpa [lapses, pc, vigil] using lapse
        exact .inr (heard_step rings heard)
    | pollLocal b restart =>
      have quiet := watchful.busy _ key (by rw [pc]; rfl) rfl
      rw [pc] at vigil
      cases quiet.symm.trans vigil
    | cleanup unwinding => rw [pc] at vigil; cases vigil
    | init suspended => rw [pc] at vigil; cases vigil
  | answer finished event pc pc' => rw [pc'] at vigil'; cases vigil'
  | unwound c key stage event pc code pc' => rw [pc'] at vigil'; cases vigil'
  | nested key event busy hand => exact (guarded.not_nested busy hand).elim

/-! What user code and other threads do to the tasks that were passed. -/

theorem settle_vigil (s₀ : Wheel) (vigil : s₀.settle.pc.vigil = true) : s₀.settle = s₀ := by
  unfold settle at vigil ⊢
  split at vigil
  · cases vigil
  · rfl

/-- A handle operation does not touch runnable flags, and only `resume` lets a task be
polled again. -/
theorem perform_get (s : Wheel) (c : Call) (k : TaskKey) :
    (s.perform c).get k = s.get k ∨
    ∃ t t', s.get k = some t ∧ (s.perform c).get k = some t' ∧
      (t'.stopReason ≠ .none ∨ c = .resume k) := by
  have updated : ∀ key f, (∀ t, s.get key = some t → (f t).stopReason ≠ .none ∨ c = .resume key) →
      (s.perform c).tasks = s.tasks.modify key f → (s.perform c).get k = s.get k ∨
      ∃ t t', s.get k = some t ∧ (s.perform c).get k = some t' ∧
        (t'.stopReason ≠ .none ∨ c = .resume k) := by
    intro key f bars tasks
    cases found : s.get k with
    | none =>
      left
      rw [get_eq_tasks] at found ⊢
      rw [tasks, List.getElem?_modify, found]
      rfl
    | some t =>
      rcases get_of_modify tasks found with ⟨rfl, eq⟩ | ⟨other, eq⟩
      · exact .inr ⟨t, _, rfl, eq, bars t found⟩
      · exact .inl eq
  cases c with
  | resume key =>
    rcases resume_cases s.alg key with no | ⟨task, found, held, yes⟩
    · exact .inl (by simp only [get, perform, no])
    · refine updated key (StaticFuture.setStopReason .none) (fun _ _ => .inr rfl) ?_
      simp only [tasks, perform, yes]
      rfl
  | suspend key =>
    rcases suspend_cases s.alg key with no | ⟨task, r, found, free, yes⟩
    · exact .inl (by simp only [get, perform, no])
    · refine updated key (StaticFuture.setStopReason r) (fun _ _ => .inl ?_) ?_
      · rcases free with ⟨_, rfl⟩ | ⟨_, rfl⟩ <;> rintro ⟨⟩
      · simp only [tasks, perform, yes]
        rfl
  | restart key =>
    rcases restart_cases s.alg key with no | ⟨_, _, _, no⟩ | ⟨task, found, fresh, yes⟩
    · exact .inl (by simp only [get, perform, no])
    · exact .inl (by simp only [get, perform, no])
    · refine updated key (fun t => (t.setStopReason .restart).setEnded false)
        (fun _ _ => .inl (by rintro ⟨⟩)) ?_
      simp only [tasks, perform, yes, StaticAlgorithm.update, restartCounts_registry]
  | cancel key =>
    rcases cancel_cases s.alg key with no | ⟨task, found, live, yes⟩
    · exact .inl (by simp only [get, perform, no])
    · refine updated key (StaticFuture.setStopReason .cancelled) (fun _ _ => .inl (by rintro ⟨⟩)) ?_
      simp only [tasks, perform, yes]
      split <;> rfl
  | _ => exact .inl rfl

/-- User code that the last sweep runs is that of a task, but for what runs after it. -/
theorem vigil_userCode (runs : s.userCode = true) (vigil : s.pc.vigil = true)
    (fresh : ∀ v, s.pc ≠ .returned v) : ∃ c key stage, s.pc = .inTask c key stage := by
  unfold userCode at runs
  split at runs
  · rename_i pc
    rw [pc] at vigil
    cases vigil
  · rename_i pc
    rw [pc] at vigil
    cases vigil
  · rename_i v pc
    exact absurd pc (fresh v)
  · rename_i c key stage pc
    exact ⟨c, key, stage, pc⟩
  · cases runs

theorem call_known {session : Nat} {c : Call} (h : s.step (.call session c) = some s')
    (vigil : s'.pc.vigil = true) (rings : Rings s s') (lapse : s.lapses (.call session c) = false)
    (look : s'.seen k) (work : s'.marked k ∨ s'.bell.Owes k) :
    (s.seen k ∧ (s'.marked k → s.marked k ∨ s.bell.Owes k)) ∨ s'.heard = true := by
  simp only [Wheel.step, call] at h
  split at h
  · rename_i runs
    cases h
    split at vigil
    · rename_i valid
      have settled := settle_vigil _ vigil
      simp only [valid, if_true] at look work rings vigil ⊢
      rw [settled] at look work rings vigil ⊢
      have passed : s.pc.passed k = true := perform_pc s c ▸ look.1
      rcases perform_get s c k with same | ⟨t, t', _, after, barred | resumes⟩
      · exact .inl (known_of_same same passed look)
      · obtain ⟨_, task, found, reason⟩ := look
        rw [after] at found
        cases found
        exact absurd reason barred
      · subst resumes
        have exposed := exposed_of_work look.2 work
        rw [perform_pc] at vigil
        obtain ⟨c, key, stage, pc⟩ := vigil_userCode (Bool.and_eq_true_iff.mp runs).1 vigil
          (fun v pc => by
            have left := congrArg Wheel.pc settled
            simp [settle, goto, perform_pc, pc] at left)
        rw [pc] at vigil passed
        have heard : s.heard = true := by
          simpa [lapses, vigil, valid, passed, exposed, pc] using lapse
        exact .inr (heard_step rings heard)
    · rename_i stale
      have settled := settle_vigil s vigil
      simp only [stale, Bool.false_eq_true, if_false] at look work ⊢
      rw [settled] at look ⊢
      exact .inl ⟨look, .inl⟩
  · cases h

theorem notifyWake_cell (s : Wheel) : s.notifyWake.bell.cell = none := by
  unfold notifyWake
  cases cell : s.alg.lastWaker with
  | none => exact cell
  | some w => rfl

/-- A wake by user code invokes the waker if nobody has taken it. -/
theorem wake_heard {target : TaskKey} (armed : s.bell.Armed s.waker)
    (h : s.step (.wake target) = some s') : s'.heard = true := by
  have rings := wake_rings h
  have cell : s'.bell.cell = none := by
    simp only [Wheel.step, wake] at h
    split at h
    · cases h
      exact (congrArg (fun p => p.1.cell) (post_settle (s.notifyWake.storeRunnable target))).trans
        (notifyWake_cell s)
    · cases h
  refine heard_iff.mpr ?_
  rw [rings.waker]
  exact (armed.step rings.step).resolve_left (by rw [cell]; rintro ⟨⟩)

theorem wakeBegin_known {target : TaskKey} (h : s.step (.wakeBegin target) = some s')
    (look : s'.seen k) : s.seen k ∧ (s'.marked k → s.marked k ∨ s.bell.Owes k) := by
  cases h
  exact ⟨look, .inl⟩

/-- A wake that stores a runnable flag was owed before. -/
theorem wakeStep_known {i : Nat} (h : s.step (.wakeStep i) = some s') (look : s'.seen k) :
    s.seen k ∧ (s'.marked k → s.marked k ∨ s.bell.Owes k) := by
  have passed : s.pc.passed k = true := wakeStep_pc h ▸ look.1
  simp only [Wheel.step, wakeStep] at h
  split at h
  · cases h
  · cases h
    exact ⟨look, .inl⟩
  · cases h
    exact ⟨look, .inl⟩
  · rename_i target stores
    cases h
    by_cases here : k = target
    · subst here
      obtain ⟨_, task', found, reason⟩ := look
      have updated := get_update_self s k (StaticFuture.setRunnable true)
      obtain ⟨task, before, rfl⟩ := Option.map_eq_some_iff.mp (updated.symm.trans found)
      refine ⟨⟨passed, task, before, reason⟩, fun _ => .inr ?_⟩
      exact ⟨_, List.mem_map_of_mem (List.mem_of_getElem? stores), rfl, by rintro ⟨⟩⟩
    · exact known_of_same (get_update_other s _ here) passed look

theorem registered_covers (h : s.step e = some s') (pc : s.pc = .register)
    (vigil : s'.pc.vigil = true) : s'.bell.Covers s'.waker s'.seen s'.marked := by
  cases e with
  | run =>
    simp only [Wheel.step, run, pc] at h
    cases h
    refine .start rfl (fun k look => ?_)
    have passed := look.1
    simp [beginBeat, goto, Pc.passed, Pc.cursor] at passed
  | wakeStep i =>
    rw [wakeStep_pc h, pc] at vigil
    cases vigil
  | wakeBegin target =>
    cases h
    have before : s.pc.vigil = true := vigil
    rw [pc] at before
    cases before
  | _ => simp [Wheel.step, call, wake, userCode, poll, dropped, created, done, panic, lock, drop, pc] at h

theorem step_covers (guarded : Guarded s) (watchful : Watchful s) (h : s.step e = some s')
    (lapse : s.lapses e = false) (vigil : s'.pc.vigil = true) :
    s'.bell.Covers s'.waker s'.seen s'.marked := by
  by_cases registered : s.pc = .register
  · exact registered_covers h registered vigil
  · obtain ⟨session, goes_on⟩ := active_inside h (vigil_active vigil)
    have before := vigil_before guarded (step_move session goes_on h) vigil registered
    have covers := watchful.covers before
    have rings := step_rings h vigil session goes_on registered
    rw [rings.waker]
    refine covers.step rings.step (fun k look work => ?_)
    rw [← rings.waker, ← heard_iff]
    cases e with
    | call session c => exact call_known h vigil rings lapse look work
    | wake target => exact .inr (wake_heard covers.armed h)
    | wakeBegin target => exact .inl (wakeBegin_known h look)
    | wakeStep i => exact .inl (wakeStep_known h look)
    | _ => exact own_known guarded watchful h rfl before vigil rings lapse look work

theorem caller_active {pc : Pc} {c : Caller} {key : TaskKey} (calls : pc.caller = some (c, key))
    (session : c.inSession = true) : pc.active = true := by
  cases pc with
  | inTask c' key' stage =>
    cases calls
    exact session
  | back c' key' isReady =>
    cases calls
    exact session
  | _ => cases calls

theorem Ended.no_caller {b : Beat} {pc : Pc} (ended : Ended s b pc) : pc.caller = none := by
  cases ended <;> rfl

/-- A poll makes the sweep that it belongs to not the last. -/
theorem step_busy (guarded : Guarded s) (watchful : Watchful s) (h : s.step e = some s') (c : Caller)
    (key : TaskKey) (calls : s'.pc.caller = some (c, key)) (polls : c.polls = true) :
    c.last = false := by
  have inside : c.inSession = true := by
    cases c with
    | pollLocal b restart => rfl
    | _ => cases polls
  obtain ⟨session, goes_on⟩ := active_inside h (caller_active calls inside)
  cases step_move session goes_on h with
  | stay pc' => exact watchful.busy c key (pc' ▸ calls) polls
  | ended b key event pc past ended =>
    rw [ended.no_caller] at calls
    cases calls
  | arm b key' task c' event pc found arm free entered =>
    rw [entered.pc', atStage_caller] at calls
    cases calls
    generalize task.stopReason = r at arm
    cases arm <;> cases polls
  | pollBegin b key' restart task c' event pc found free caller entered =>
    rw [entered.pc', atStage_caller] at calls
    cases calls
    simp [caller, Caller.last, Beat.last]
  | handled c' key' stage stage' write next pc handle staged =>
    obtain ⟨f, here, staged⟩ := guarded.staged pc staged
    rw [staged.pc', atStage_caller] at calls
    cases calls
    exact watchful.busy c key (by rw [pc]; rfl) polls
  | resumed c' key' isReady event pc pc' =>
    rw [pc'] at calls
    cases c' <;> cases calls
  | nested key event refused hand => exact (guarded.not_nested refused hand).elim
  | _ => simp only [*, Pc.caller, reduceCtorEq] at calls

/-- Out of the hands of the `Cancelled` arm a task comes back only by a restart. -/
theorem step_spent (guarded : Guarded s) (watchful : Watchful s) (h : s.step e = some s') (b : Beat)
    (key : TaskKey) (task' : StaticFuture) (calls : s'.pc.caller = some (.cancelled b, key))
    (after : s'.get key = some task') : task'.stopReason ≠ .none ∧ task'.stopReason ≠ .suspended := by
  obtain ⟨session, goes_on⟩ := active_inside h (caller_active calls rfl)
  obtain ⟨task, found, turn⟩ := (step_change session goes_on h).origin after
  have kept : s.pc.caller = some (.cancelled b, key) →
      task'.stopReason ≠ .none ∧ task'.stopReason ≠ .suspended := by
    intro before
    obtain ⟨barred, unheld⟩ := watchful.spent b key task before found
    cases turn with
    | same aside reason => exact reason ▸ ⟨barred, unheld⟩
    | resume session event valid held => exact absurd held unheld
    | suspend session event valid free =>
      rcases free with ⟨reason, _⟩ | ⟨_, reason⟩
      · exact absurd reason barred
      · rw [reason]
        exact ⟨nofun, nofun⟩
    | restart session event valid fresh reason => rw [reason]; exact ⟨nofun, nofun⟩
    | cancel session event valid live reason => rw [reason]; exact ⟨nofun, nofun⟩
    | arm b event pc => rw [pc] at before; cases before
    | reset b c isReady event pc arm =>
      rw [pc] at before
      rcases arm with rfl | rfl <;> cases before
    | finished b restart event pc reason => rw [reason]; exact ⟨nofun, nofun⟩
  cases step_move session goes_on h with
  | stay pc' => exact kept (pc' ▸ calls)
  | ended b key event pc past ended =>
    rw [ended.no_caller] at calls
    cases calls
  | arm b' key' task₀ c event pc hold arm free entered =>
    rw [entered.pc', atStage_caller] at calls
    cases calls
    rw [found] at hold
    cases hold
    have cancelled : task.stopReason = .cancelled := by
      generalize task.stopReason = r at arm
      cases arm
      rfl
    have reason : task'.stopReason = .cancelled := by
      cases turn with
      | same aside same => exact same.trans cancelled
      | arm b event pc reason =>
        rcases reason with ⟨_, after, _⟩ | ⟨pending, _⟩ | ⟨pending, _⟩
        · exact after
        · cases cancelled.symm.trans pending
        · cases cancelled.symm.trans pending
      | reset b c isReady event at_pc => cases pc.symm.trans at_pc
      | finished b restart event at_pc => cases pc.symm.trans at_pc
      | resume session call => cases event.symm.trans call
      | suspend session call => cases event.symm.trans call
      | restart session call => cases event.symm.trans call
      | cancel session call => cases event.symm.trans call
    rw [reason]
    exact ⟨nofun, nofun⟩
  | pollBegin b' key' restart task₀ c event pc hold free caller entered =>
    rw [entered.pc', atStage_caller, caller] at calls
    cases calls
  | handled c key' stage stage' write next pc handle staged =>
    obtain ⟨f, here, staged⟩ := guarded.staged pc staged
    rw [staged.pc', atStage_caller] at calls
    exact kept (by rw [pc]; exact calls)
  | resumed c key' isReady event pc pc' =>
    rw [pc'] at calls
    cases c <;> cases calls
  | nested key event refused hand => exact (guarded.not_nested refused hand).elim
  | _ => simp only [*, Pc.caller, reduceCtorEq] at calls

theorem watchful_step (guarded : Guarded s) (watchful : Watchful s) (h : s.step e = some s')
    (lapse : s.lapses e = false) : Watchful s' :=
  ⟨step_covers guarded watchful h lapse, step_busy guarded watchful h, step_spent guarded watchful h⟩

end Step

/-- When `poll_internal` has returned Pending and no wake is under way, no task that may
be polled is runnable, or the waker was invoked. -/
def Unmissed (s : Wheel) : Prop :=
  s.pc = .returned .pending → s.wakes = [] →
    (∀ k task, s.get k = some task → task.stopReason = .none → task.runnable = false) ∨
      s.waker ∈ s.woken

theorem Watchful.unmissed {s : Wheel} (watchful : Watchful s) : Unmissed s := by
  intro pc finished
  have covers := watchful.covers (by rw [pc]; rfl)
  refine (covers.sleeps (by simp [bell, finished])).imp_left (fun rest k task found reason => ?_)
  have look : s.seen k := ⟨by rw [pc]; rfl, task, found, reason⟩
  cases runnable : task.runnable with
  | false => rfl
  | true => exact absurd ⟨task, found, runnable⟩ (rest k look)

theorem new_guarded (config : List StaticParams) : Guarded (new config) := by
  refine guarded_of_quiet (fun k p f found => ?_) rfl
  obtain ⟨task, hold, known⟩ := Option.map_eq_some_iff.mp found
  have member : task ∈ config.map StaticFuture.new := List.mem_of_getElem? hold
  obtain ⟨params, _, rfl⟩ := List.mem_map.mp member
  exact (congrArg Prod.fst known).symm

theorem new_watchful (config : List StaticParams) : Watchful (new config) := by
  have pc : (new config).pc = .unlocked := rfl
  constructor
  case covers =>
    intro vigil
    rw [pc] at vigil
    cases vigil
  case busy =>
    intro c key calls
    rw [pc] at calls
    cases calls
  case spent =>
    intro b key task calls
    rw [pc] at calls
    cases calls

theorem run_unmissed {config : List StaticParams} {s : Wheel} {es : List Event}
    (run : exec step (new config) es = some s)
    (fine : Along step (fun s e _ => s.lapses e = false) (new config) es) : Unmissed s := by
  have kept : ∀ r e t, Guarded r ∧ Watchful r → step r e = some t → r.lapses e = false →
      Guarded t ∧ Watchful t :=
    fun r e t inv h lapse => ⟨step_guarded inv.1 h, watchful_step inv.1 inv.2 h lapse⟩
  have start := And.intro (new_guarded config) (new_watchful config)
  exact (invariant_along kept start run fine).2.unmissed

end Wheel
end Juggle.St
