import Juggle.Dy.Quiescence
import Juggle.Lib.Bell
import Mathlib.Data.List.InsertIdx

/-! Wake-ups from other threads. The wheel is the sleeper at the bell made of its
`last_waker` and the wakes under way: it trusts what its second sweep has seen. -/
namespace Juggle.Dy
open Juggle.Utils Juggle.Runs Juggle.Bells

/-- The sweep that decides whether `poll_internal` sleeps. -/
def Beat.last (b : Beat) : Bool := b.second && !b.anyPoll

namespace Pc

/-- The waker was registered and nothing has been polled since. -/
def vigil : Pc → Bool
  | .sweep b _ => b.last
  | .chosen b _ _ => b.last
  | .removing b _ _ => b.last
  | .dropping b _ _ => b.last
  | .returned .pending => true
  | _ => false

/-- The sweep has passed the key or will not reach it. -/
def Settled (k : TaskKey) : Pc → Prop
  | .sweep b key => k < key ∨ b.cap ≤ k
  | .chosen b key _ => k < key ∨ b.cap ≤ k
  | .removing b key _ => k < key ∨ b.cap ≤ k
  | .dropping b key _ => k ≤ key ∨ b.cap ≤ k
  | .returned .pending => True
  | _ => False

end Pc

def WakePc.phase : WakePc → Phase Waker
  | .notify => .take
  | .invoke w => .invoke w
  | .store => .store

namespace Wheel

def bell (s : Wheel) : Bell TaskRef Waker where
  cell := s.alg.lastWaker
  calls := s.wakes.map (fun c => (c.target, c.pc.phase))
  rung := s.woken

/-- The waker of this call of `poll_internal` was invoked or is about to be. -/
def heard (s : Wheel) : Bool := decide (s.bell.Answered s.waker)

/-- A wake has taken from `last_waker` and not yet stored the task's runnable flag. -/
def owed (s : Wheel) (k : TaskKey) (task : DynamicFuture) : Bool :=
  decide (s.bell.Owes ⟨k, task.tid⟩)

/-- A task that may be polled is runnable or about to become so. -/
def exposed (s : Wheel) (k : TaskKey) : Bool :=
  match s.get k with
  | some task => decide (task.stopReason = .none) && (task.runnable || s.owed k task)
  | none => false

/-- The last sweep loads a runnable flag in the middle of a wake that did not find the
waker, or a destructor run by it leaves an exposed task where the sweep does not look. -/
def lapses (s : Wheel) : Event → Bool
  | .run =>
    match s.pc with
    | .sweep b key =>
      b.last && decide (key < b.cap) && !s.hasWork key && s.exposed key && !s.heard
    | _ => false
  | .call c =>
    match s.pc, s.target c with
    | .dropping b key _, some k =>
      b.last && (decide (k ≤ key) || decide (b.cap ≤ k)) && (s.perform c).exposed k &&
        !(s.perform c).heard
    | _, _ => false
  | _ => false

/-- A task that may be polled and that the last sweep has dealt with. -/
def seen (s : Wheel) (ref : TaskRef) : Prop :=
  s.pc.Settled ref.key ∧ ∃ task, s.get ref.key = some task ∧ task.tid = ref.tid ∧
    task.stopReason = .none

def marked (s : Wheel) (ref : TaskRef) : Prop :=
  ∃ task, s.get ref.key = some task ∧ task.runnable = true

structure Watchful (s : Wheel) : Prop where
  covers : s.pc.vigil = true → s.bell.Covers s.waker s.seen s.marked
  busy : ∀ b key tid, s.pc = .polling b key tid → b.anyPoll = true

section Bell

/-- The bell and the waker whose answer counts. -/
def post (s : Wheel) : Bell TaskRef Waker × Waker := (s.bell, s.waker)

/-- A step of anyone but the wheel itself, seen from the bell. -/
structure Rings (s s' : Wheel) : Prop where
  step : Bell.Step s.bell s'.bell
  waker : s'.waker = s.waker

theorem Rings.same {s s' : Wheel} (eq : s'.post = s.post) : Rings s s' where
  step := .same (congrArg Prod.fst eq)
  waker := congrArg Prod.snd eq

theorem post_borrowOpt (s : Wheel) (ref : Option Tid) : (s.borrowOpt ref).post = s.post := by
  cases ref <;> rfl

theorem post_releaseOpt (s : Wheel) (ref : Option Tid) : (s.releaseOpt ref).post = s.post := by
  cases ref <;> rfl

theorem post_storeRunnable (s : Wheel) (target : TaskRef) :
    (s.storeRunnable target).post = s.post := by
  rcases storeRunnable_cases s target with no | ⟨task, found, identity, yes⟩
  · rw [no]
  · rw [yes]
    rfl

theorem post_visit (s : Wheel) (b : Beat) (key : TaskKey) : (s.visit b key).post = s.post := by
  unfold visit
  split
  · rfl
  · split
    · split <;> rfl
    · split <;> rfl

theorem post_endBeat (s : Wheel) (b : Beat) : (s.endBeat b).post = s.post := by
  unfold endBeat
  split
  · rfl
  · rfl
  · rfl
  · dsimp only
    split <;> rfl

theorem post_pollLocal (s : Wheel) (b : Beat) (key : TaskKey) (tid : Tid) :
    (s.pollLocal b key tid).post = s.post := by
  unfold pollLocal
  split
  · rfl
  · split <;> rfl

theorem post_remove (s : Wheel) (b : Beat) (key : TaskKey) : (s.remove b key).post = s.post := by
  unfold remove
  split <;> rfl

theorem notifyWake_rings (s : Wheel) : Rings s s.notifyWake := by
  unfold notifyWake
  cases cell : s.alg.lastWaker with
  | none => exact ⟨.whole cell rfl (by simp [bell, cell]), rfl⟩
  | some w => exact ⟨.whole rfl rfl (by simp [bell, cell]), rfl⟩

theorem register_lastWaker (alg : UnorderedAlgorithm) (task : DynamicFuture) :
    (alg.register task).2.lastWaker = alg.lastWaker := by
  unfold UnorderedAlgorithm.register
  dsimp only
  split <;> rfl

/-- A handle call leaves the cell alone, unless it is a wake. -/
theorem perform_rings (s : Wheel) (c : Call) : Rings s (s.perform c) := by
  cases c with
  | register params => exact .same (by simp only [post, bell, perform, register_lastWaker])
  | suspend key =>
    rcases suspend_cases s key with no | ⟨task, found, free, yes⟩
    · exact .same (by simp only [post, bell, perform, no])
    · refine .same ?_
      simp only [post, bell, perform, yes]
      rfl
  | resume key =>
    rcases resume_cases s key with no | ⟨task, found, held, yes⟩
    · exact .same (by simp only [post, bell, perform, no])
    · refine .same ?_
      simp only [post, bell, perform, yes]
      rfl
  | cancel key =>
    rcases cancel_cases s key with no | ⟨task, found, live, yes⟩
    · exact .same (by simp only [post, bell, perform, no])
    · refine .same ?_
      simp only [post, bell, perform, yes]
      split <;> rfl
  | wake target =>
    have stored := post_storeRunnable s.notifyWake target
    obtain ⟨step, waker⟩ := notifyWake_rings s
    refine ⟨?_, (congrArg Prod.snd stored).trans waker⟩
    rw [show (s.perform (.wake target)).bell = s.notifyWake.bell from congrArg Prod.fst stored]
    exact step
  | getState key => exact .same rfl
  | getByName name => exact .same rfl
  | registeredCount => exact .same rfl

theorem wakeStep_rings {s s' : Wheel} {i : Nat} (h : s.wakeStep i = some s') : Rings s s' := by
  suffices goes : s.bell.advance i = some s'.bell ∧ s'.waker = s.waker from
    ⟨Bell.advance_step goes.1, goes.2⟩
  unfold wakeStep at h
  split at h
  · cases h
  · rename_i target here
    cases h
    refine ⟨?_, rfl⟩
    cases cell : s.alg.lastWaker <;>
      simp [Bell.advance, bell, here, cell, WakePc.phase, Phase.taken, setLastWaker]
  · rename_i target w here
    cases h
    exact ⟨by simp [Bell.advance, bell, here, WakePc.phase], rfl⟩
  · rename_i target here
    cases h
    have stored := post_storeRunnable s target
    have cell : (s.storeRunnable target).alg.lastWaker = s.alg.lastWaker :=
      congrArg (fun p => p.1.cell) stored
    have rung : (s.storeRunnable target).woken = s.woken := congrArg (fun p => p.1.rung) stored
    refine ⟨?_, congrArg Prod.snd stored⟩
    simp [Bell.advance, bell, here, cell, rung, WakePc.phase, List.eraseIdx_map]

/-- Where the wheel keeps vigil after a step, its own part in the step was at most to
register the waker. -/
theorem step_rings {s s' : Wheel} {e : Event} (h : s.step e = some s') (vigil : s'.pc.vigil = true) :
    Rings s s' ∨ e = .run ∧ s.pc = .register ∧ s'.bell.cell = some s'.waker := by
  cases e with
  | call c =>
    obtain ⟨step, waker⟩ := perform_rings s c
    simp only [Wheel.step, call] at h
    split at h
    all_goals cases h
    all_goals exact .inl ⟨step, waker⟩
  | withName key =>
    simp only [step, withName] at h
    split at h
    all_goals cases h
    all_goals exact .inl (.same (post_borrowOpt s _))
  | withNameEnd =>
    simp only [step, withNameEnd] at h
    split at h
    all_goals cases h
    all_goals exact .inl (.same (post_releaseOpt s _))
  | wakeBegin target =>
    cases h
    exact .inl ⟨.call target rfl (by simp [bell, WakePc.phase]) rfl, rfl⟩
  | wakeStep i => exact .inl (wakeStep_rings h)
  | poll w =>
    simp only [step, poll] at h
    split at h
    all_goals cases h
    all_goals cases vigil
  | run =>
    simp only [step, run] at h
    split at h
    · cases h
      cases vigil
    · cases h
      split
      · exact .inl (.same (post_visit s _ _))
      · exact .inl (.same (post_endBeat s _))
    · cases h
      exact .inl (.same (post_pollLocal s _ _ _))
    · cases h
      exact .inl (.same (post_remove s _ _))
    · rename_i pc
      cases h
      exact .inr ⟨rfl, pc, rfl⟩
    · cases h
      cases vigil
    · cases h
  | done isReady =>
    simp only [step, done] at h
    split at h
    all_goals cases h
    exact .inl (.same rfl)
  | dropped =>
    simp only [step, dropped] at h
    split at h
    all_goals cases h
    exact .inl (.same rfl)
  | panic =>
    simp only [step, panic] at h
    split at h
    all_goals cases h
    all_goals cases vigil

end Bell

section Step
variable {s s' : Wheel} {e : Event} {ref : TaskRef}

theorem heard_iff : s.heard = true ↔ s.bell.Answered s.waker := decide_eq_true_iff

theorem Ended.vigil {b : Beat} {pc : Pc} (ended : Ended s b pc) (vigil : pc.vigil = true) :
    b.last = true := by
  cases ended with
  | pending second quiet => simp [Beat.last, second, quiet]
  | _ => cases vigil

/-- The vigil begins when the waker is registered. -/
theorem vigil_before (busy : ∀ b key tid, s.pc = .polling b key tid → b.anyPoll = true)
    (move : Move s e s') (vigil : s'.pc.vigil = true) (registered : s.pc ≠ .register) :
    s.pc.vigil = true := by
  have unpolled : ∀ b key tid, s.pc = .polling b key tid → b.last = false := fun b key tid pc => by
    simp [Beat.last, busy b key tid pc]
  cases move with
  | stay pc' => exact pc' ▸ vigil
  | begins second event begins pc' =>
    rw [pc'] at vigil
    cases begins with
    | register pc => exact absurd pc registered
    | _ => cases vigil
  | ended b key event pc past ended =>
    rw [pc]
    exact ended.vigil vigil
  | pending b key tid event pc pc' =>
    rw [pc'] at vigil
    exact absurd vigil (by simp [Pc.vigil, unpolled b key tid pc])
  | ready b key tid event pc pc' =>
    rw [pc'] at vigil
    exact absurd vigil (by simp [Pc.vigil, unpolled b key tid pc])
  | pollBegin b key tid event pc pc' => rw [pc'] at vigil; cases vigil
  | enter w event pc pc' => rw [pc'] at vigil; cases vigil
  | leave v pc pc' => rw [pc'] at vigil; cases vigil
  | answer finished event pc pc' => rw [pc'] at vigil; cases vigil
  | unwound event pc' => rw [pc'] at vigil; cases vigil
  | broken event lost pc' => rw [pc'] at vigil; cases vigil
  | note b key tid c event pc pc' => rw [pc'] at vigil; rw [pc]; exact vigil
  | skip b key event pc inside rest pc' => rw [pc'] at vigil; rw [pc]; exact vigil
  | choose b key task event pc inside found reason runnable pc' =>
    rw [pc'] at vigil; rw [pc]; exact vigil
  | condemn b key task event pc inside found reason pc' => rw [pc'] at vigil; rw [pc]; exact vigil
  | removed b key tid tid' event pc pc' => rw [pc'] at vigil; rw [pc]; exact vigil
  | dropped b key tid event pc pc' => rw [pc'] at vigil; rw [pc]; exact vigil

theorem exposed_of_work (free : ∃ task, s.get ref.key = some task ∧ task.tid = ref.tid ∧
    task.stopReason = .none) (work : s.marked ref ∨ s.bell.Owes ref) : s.exposed ref.key = true := by
  obtain ⟨task, found, identity, reason⟩ := free
  have same : (⟨ref.key, task.tid⟩ : TaskRef) = ref := by rw [identity]
  rcases work with ⟨task', found', runnable⟩ | owes
  · rw [found] at found'
    cases found'
    simp [exposed, found, reason, runnable]
  · simp [exposed, found, reason, owed, same, owes]

/-- Where the task was seen before and nothing happens to it, nothing is new. -/
theorem known_of_same (same : s'.get ref.key = s.get ref.key) (passed : s.pc.Settled ref.key)
    (look : s'.seen ref) :
    s.seen ref ∧ (s'.marked ref → s.marked ref ∨ s.bell.Owes ref) := by
  obtain ⟨_, task, found, rest⟩ := look
  refine ⟨⟨passed, task, same ▸ found, rest⟩, ?_⟩
  rintro ⟨task', found', runnable⟩
  exact .inl ⟨task', same ▸ found', runnable⟩

theorem wakeStep_pc {i : Nat} (h : s.step (.wakeStep i) = some s') : s'.pc = s.pc := by
  simp only [Wheel.step, wakeStep] at h
  split at h
  all_goals cases h
  · rfl
  · rfl
  · exact storeRunnable_pc s _

/-- A wake that stores a runnable flag was owed before. -/
theorem wakeStep_known {i : Nat} (con : Consistent s) (h : s.step (.wakeStep i) = some s')
    (look : s'.seen ref) : s.seen ref ∧ (s'.marked ref → s.marked ref ∨ s.bell.Owes ref) := by
  have pc' : s'.pc = s.pc := wakeStep_pc h
  have passed : s.pc.Settled ref.key := pc' ▸ look.1
  cases step_change con.wf h with
  | same slab => exact known_of_same (congrArg (fun slab => slab.get ref.key) slab) passed look
  | wake target task found identity event slab =>
    rcases update_look (k := ref.key) slab with ⟨here, eq⟩ | ⟨other, eq⟩
    · obtain ⟨_, task', found', identity', reason⟩ := look
      rw [here, found] at eq
      rw [here, eq] at found'
      cases found'
      have same : target = ref := by
        cases ref
        cases target
        cases here
        exact congrArg _ (identity.symm.trans identity')
      refine ⟨⟨passed, task, here ▸ found, identity', reason⟩, fun _ => .inr ?_⟩
      rcases event with event | ⟨j, event, stores⟩
      · cases event
      · cases event
        refine ⟨_, List.mem_map_of_mem (List.mem_of_getElem? stores), same, nofun⟩
    · exact known_of_same eq passed look
  | spawn params key event => cases event
  | reason key task r found request => simp at request
  | pollBegin b key tid task event => cases event
  | pollEnd b key tid event => simp at event
  | remove b key tid task event => cases event

/-- A destructor changes the task that its call is about, and no other. -/
theorem call_known {c : Call} (con : Consistent s) (h : s.step (.call c) = some s')
    (vigil : s'.pc.vigil = true) (lapse : s.lapses (.call c) = false) (look : s'.seen ref)
    (work : s'.marked ref ∨ s'.bell.Owes ref) :
    (s.seen ref ∧ (s'.marked ref → s.marked ref ∨ s.bell.Owes ref)) ∨ s'.heard = true := by
  have change := (step_change con.wf h).look ref.key
  simp only [Wheel.step, call] at h
  split at h
  · rename_i pc
    cases h
    rw [perform_pc, pc] at vigil
    cases vigil
  · cases h
    cases vigil
  · rename_i pc
    cases h
    rw [perform_pc, pc] at vigil
    cases vigil
  · rename_i b key tid pc
    cases h
    by_cases here : s.target c = some ref.key
    · right
      have work := exposed_of_work look.2 work
      have exposed : (s.perform c).exposed ref.key = true := work
      have last : b.last = true := vigil
      have behind : ref.key ≤ key ∨ b.cap ≤ ref.key := look.1
      have passed : (decide (ref.key ≤ key) || decide (b.cap ≤ ref.key)) = true := by
        simpa using behind
      have answered : (s.perform c).heard = true := by
        simpa [lapses, pc, here, last, passed, exposed] using lapse
      exact answered
    · refine .inl (known_of_same (call_other change here) ?_ look)
      rw [pc]
      exact look.1
  · cases h

/-- A lowered flag that is owed was loaded when the waker was heard already. -/
theorem skip_heard (armed : s.bell.Armed s.waker) (rings : Rings s s')
    (free : ∃ task, s.get ref.key = some task ∧ task.tid = ref.tid ∧ task.stopReason = .none)
    (lapse : s.exposed ref.key = true → s.heard = true) (owes : s'.bell.Owes ref) :
    s'.heard = true := by
  refine heard_iff.mpr ?_
  rw [rings.waker]
  rcases Bell.owes_step armed rings.step owes with before | answered
  · exact (heard_iff.mp (lapse (exposed_of_work free (.inr before)))).step rings.step
  · exact answered

/-- The sweep passes a key where it finds nothing, or where the task was removed. -/
theorem own_known (con : Consistent s) (h : s.step e = some s') (own : ownStep e = true)
    (vigil : s.pc.vigil = true) (armed : s.bell.Armed s.waker) (rings : Rings s s')
    (lapse : s.lapses e = false) (look : s'.seen ref) (work : s'.marked ref ∨ s'.bell.Owes ref) :
    (s.seen ref ∧ (s'.marked ref → s.marked ref ∨ s.bell.Owes ref)) ∨ s'.heard = true := by
  have change := (step_change con.wf h).look ref.key
  have passed := look.1
  have kept : (e = .run ∨ s.pc.pollingAt = some ref.key → ∀ tid, s.pc.subject ≠ some (ref.key, tid)) →
      s.pc.Settled ref.key →
      s.seen ref ∧ (s'.marked ref → s.marked ref ∨ s.bell.Owes ref) :=
    fun other before => known_of_same (change.undisturbed own other) before look
  cases step_move con.wf h with
  | stay pc' beats quiet =>
    refine .inl (kept ?_ (pc' ▸ passed))
    rintro (run | polling)
    · exact absurd run quiet
    · obtain ⟨b, tid, pc⟩ := Pc.pollingAt_eq_some polling
      rw [pc] at vigil
      cases vigil
  | leave v pc pc' => rw [pc'] at passed; exact passed.elim
  | note b key tid c event => rw [event] at own; cases own
  | enter w event pc pc' => rw [pc'] at passed; exact passed.elim
  | begins second event begins pc' =>
    cases begins with
    | clear pc => rw [pc] at vigil; cases vigil
    | register pc => rw [pc] at vigil; cases vigil
    | again b key pc past first =>
      rw [pc] at vigil
      simp [Pc.vigil, Beat.last, first] at vigil
  | skip b key event pc inside rest pc' =>
    rw [pc'] at passed
    rcases passed with below | high
    · rcases Nat.lt_succ_iff_lt_or_eq.mp below with low | here
      · exact .inl (kept (by simp [pc, Pc.subject]) (by rw [pc]; exact .inl low))
      · -- the key that is passed now
        have same : s'.get ref.key = s.get ref.key :=
          change.undisturbed own (fun _ => by simp [pc, Pc.subject])
        obtain ⟨task, found, identity, reason⟩ := look.2
        rw [same] at found
        subst here
        refine .inr (skip_heard armed rings ⟨task, found, identity, reason⟩ ?_ ?_)
        · have last : b.last = true := by
            rw [pc] at vigil
            exact vigil
          simpa [lapses, event, pc, last, inside, rest] using lapse
        · refine work.resolve_left ?_
          rintro ⟨task', found', runnable⟩
          rw [same, found] at found'
          cases found'
          simp [hasWork, found, reason, runnable, StopReason.isPollAllowed] at rest
    · exact .inl (kept (by simp [pc, Pc.subject]) (by rw [pc]; exact .inr high))
  | choose b key task event pc inside found reason runnable pc' =>
    rw [pc'] at passed
    exact .inl (kept (by simp [pc, Pc.subject]) (by rw [pc]; exact passed))
  | condemn b key task event pc inside found reason pc' =>
    rw [pc'] at passed
    exact .inl (kept (by simp [pc, Pc.subject]) (by rw [pc]; exact passed))
  | ended b key event pc past ended =>
    refine .inl (kept (by simp [pc, Pc.subject]) ?_)
    rw [pc]
    rcases Nat.lt_or_ge ref.key key with low | high
    · exact .inl low
    · exact .inr (Nat.le_trans past high)
  | pollBegin b key tid event pc pc' => rw [pc'] at passed; exact passed.elim
  | pending b key tid event pc => rw [pc] at vigil; cases vigil
  | ready b key tid event pc => rw [pc] at vigil; cases vigil
  | removed b key tid tid' event pc pc' =>
    rw [pc'] at passed
    subst event
    by_cases here : ref.key = key
    · obtain ⟨task, _, _, removed, _⟩ := remove_found con pc h
      obtain ⟨_, task', found, _⟩ := look
      rw [here] at found
      cases removed.gone.symm.trans found
    · refine .inl (kept (by simp [pc, Pc.subject, Ne.symm here]) ?_)
      rw [pc]
      exact passed.imp_left (fun le => Nat.lt_of_le_of_ne le here)
  | dropped b key tid event pc pc' =>
    rw [pc'] at passed
    refine .inl (kept (by simp [pc, Pc.subject]) ?_)
    rw [pc]
    exact passed.imp_left Nat.le_of_lt_succ
  | answer finished event pc pc' => rw [pc'] at passed; exact passed.elim
  | unwound event pc' => rw [pc'] at passed; exact passed.elim
  | broken event lost pc' => rw [pc'] at passed; exact passed.elim

theorem wakeBegin_known {target : TaskRef} (h : s.step (.wakeBegin target) = some s')
    (look : s'.seen ref) : s.seen ref ∧ (s'.marked ref → s.marked ref ∨ s.bell.Owes ref) := by
  cases h
  exact ⟨look, .inl⟩

/-- No key was passed when the vigil begins, and there is no task out of its reach. -/
theorem registered_covers (con : Consistent s) (h : s.step e = some s') (pc : s.pc = .register)
    (vigil : s'.pc.vigil = true) : s'.bell.Covers s'.waker s'.seen s'.marked := by
  cases step_move con.wf h with
  | begins second event begins pc' =>
    subst event
    simp only [Wheel.step, run, pc] at h
    cases h
    refine .start rfl (fun ref look => ?_)
    obtain ⟨low | high, task, found, _⟩ := look
    · exact absurd low (Nat.not_lt_zero _)
    · exact absurd (ChunkSlab.get_lt_capacity found) (Nat.not_lt_of_le high)
  | stay pc' => simp [pc', pc, Pc.vigil] at vigil
  | _ => simp_all [Pc.vigil]

theorem watchful_step (con : Consistent s) (watchful : Watchful s) (h : s.step e = some s')
    (lapse : s.lapses e = false) : Watchful s' := by
  refine ⟨fun vigil => ?_, own_busy con watchful.busy h⟩
  by_cases registered : s.pc = .register
  · exact registered_covers con h registered vigil
  · have before := vigil_before watchful.busy (step_move con.wf h) vigil registered
    have covers := watchful.covers before
    have rings : Rings s s' :=
      (step_rings h vigil).resolve_right (fun start => registered start.2.1)
    rw [rings.waker]
    refine covers.step rings.step (fun ref look work => ?_)
    rw [← rings.waker, ← heard_iff]
    cases e with
    | call c => exact call_known con h vigil lapse look work
    | wakeStep i => exact .inl (wakeStep_known con h look)
    | wakeBegin target => exact .inl (wakeBegin_known h look)
    | _ => exact own_known con h rfl before covers.armed rings lapse look work

end Step

/-- When `poll_internal` has returned Pending and no wake is under way, no task that may
be polled is runnable, or the waker was invoked. -/
def Unmissed (s : Wheel) : Prop :=
  s.pc = .returned .pending → s.wakes = [] →
    (∀ k task, s.get k = some task → task.stopReason = .none → task.runnable = false) ∨
      s.waker ∈ s.woken

theorem Watchful.unmissed {s : Wheel} (watchful : Watchful s) : Unmissed s := by
  intro pc finished
  have covers := watchful.covers (by rw [pc]; rfl)
  refine (covers.sleeps (by simp [bell, finished])).imp_left (fun rest k task found reason => ?_)
  have look : s.seen ⟨k, task.tid⟩ := by
    refine ⟨?_, task, found, rfl, reason⟩
    rw [pc]
    trivial
  cases runnable : task.runnable with
  | false => rfl
  | true => exact absurd ⟨task, found, runnable⟩ (rest _ look)

theorem run_unmissed {s : Wheel} {es : List Event} (run : exec step new es = some s)
    (fine : Along step (fun s e _ => s.lapses e = false) new es) : Unmissed s := by
  have kept : ∀ r e t, Consistent r ∧ Watchful r → step r e = some t → r.lapses e = false →
      Consistent t ∧ Watchful t :=
    fun r e t inv h lapse => ⟨step_consistent inv.1 h, watchful_step inv.1 inv.2 h lapse⟩
  have start : Consistent new ∧ Watchful new := ⟨new_consistent, ⟨nofun, nofun⟩⟩
  exact (invariant_along kept start run fine).2.unmissed

end Wheel
end Juggle.Dy
