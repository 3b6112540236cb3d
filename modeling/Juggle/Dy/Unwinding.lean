import Juggle.Dy.Borrow

/-! A panic of user code inside of `poll_internal`, and what the guards of `beat_once` and
`poll_local` leave behind when it has unwound. -/
namespace Juggle.Dy
open Juggle.Utils Juggle.Runs

namespace Wheel

/-- What the scheduler raises around user code, apart from references. -/
def guards (s : Wheel) : Option TaskKey × Nat := (s.alg.current, s.alg.registry.iterateFlag)

/-- `current` is the key of the task being polled, and nobody iterates. -/
def Posted (s : Wheel) : Prop := s.guards = (s.pc.pollingAt, 0)

section Guards
variable {s s' : Wheel} {e : Event}

theorem notifyWake_guards (s : Wheel) : s.notifyWake.guards = s.guards := by
  unfold notifyWake
  split <;> rfl

theorem storeRunnable_guards (s : Wheel) (target : TaskRef) :
    (s.storeRunnable target).guards = s.guards := by
  rcases storeRunnable_cases s target with no | ⟨task, found, identity, yes⟩
  · rw [no]
  · rw [yes]
    rfl

theorem register_guards (alg : UnorderedAlgorithm) (dynamic : DynamicFuture) :
    (alg.register dynamic).2.current = alg.current ∧
      (alg.register dynamic).2.registry.iterateFlag = alg.registry.iterateFlag := by
  have kept : (alg.registry.insert dynamic).2.iterateFlag = alg.registry.iterateFlag := by
    unfold Registry.insert
    split <;> rfl
  unfold UnorderedAlgorithm.register
  dsimp only
  split <;> exact ⟨rfl, kept⟩

theorem perform_guards (s : Wheel) (c : Call) : (s.perform c).guards = s.guards := by
  cases c with
  | register params =>
    obtain ⟨current, iterate⟩ := register_guards s.alg (DynamicFuture.new s.nextTid params)
    exact Prod.ext current iterate
  | suspend key =>
    rcases suspend_cases s key with no | ⟨task, found, free, yes⟩
    · simp only [perform, no]
    · simp only [perform, yes]
      rfl
  | resume key =>
    rcases resume_cases s key with no | ⟨task, found, held, yes⟩
    · simp only [perform, no]
    · simp only [perform, yes]
      rfl
  | cancel key =>
    rcases cancel_cases s key with no | ⟨task, found, live, yes⟩
    · simp only [perform, no]
    · simp only [perform, yes]
      split <;> rfl
  | wake target => exact (storeRunnable_guards s.notifyWake target).trans (notifyWake_guards s)
  | getState key => rfl
  | getByName name => rfl
  | registeredCount => rfl

theorem borrowOpt_guards (s : Wheel) (ref : Option Tid) : (s.borrowOpt ref).guards = s.guards := by
  cases ref <;> rfl

theorem releaseOpt_guards (s : Wheel) (ref : Option Tid) :
    (s.releaseOpt ref).guards = s.guards := by
  cases ref <;> rfl

theorem closeInner_guards (s : Wheel) : s.closeInner.guards = s.guards :=
  foldl_releaseOpt guards releaseOpt_guards s.inner s

/-- A step around which nothing is raised or lowered. -/
theorem Posted.frame (posted : Posted s) (guards : s'.guards = s.guards)
    (at_pc : s'.pc.pollingAt = s.pc.pollingAt) : Posted s' := by
  unfold Posted
  rw [guards, at_pc]
  exact posted

theorem visit_guards (s : Wheel) (b : Beat) (key : TaskKey) : (s.visit b key).guards = s.guards := by
  unfold visit
  split
  · rfl
  · split
    · split <;> rfl
    · split <;> rfl

theorem endBeat_guards (s : Wheel) (b : Beat) : (s.endBeat b).guards = s.guards := by
  unfold endBeat
  split
  · rfl
  · rfl
  · rfl
  · dsimp only
    split <;> rfl

theorem pollLocal_posted {b : Beat} {key : TaskKey} {tid : Tid} (pc : s.pc = .chosen b key tid)
    (posted : Posted s) : Posted (s.pollLocal b key tid) := by
  have iterate : s.alg.registry.iterateFlag = 0 := congrArg Prod.snd posted
  unfold pollLocal
  split
  · exact posted.frame rfl (by rw [pc]; rfl)
  · split
    · exact Prod.ext rfl iterate
    · exact Prod.ext rfl iterate

theorem remove_posted {b : Beat} {key : TaskKey} {tid : Tid} (pc : s.pc = .removing b key tid)
    (posted : Posted s) : Posted (s.remove b key) := by
  have kept : (s.alg.registry.remove key).2.iterateFlag = s.alg.registry.iterateFlag := rfl
  unfold remove
  split
  · rename_i task registry eq
    rw [eq] at kept
    exact posted.frame (Prod.ext rfl kept) (by rw [pc]; rfl)
  · rename_i registry eq
    rw [eq] at kept
    exact posted.frame (Prod.ext rfl kept) (by rw [pc]; rfl)

theorem run_posted (posted : Posted s) (h : s.run = some s') : Posted s' := by
  unfold run at h
  split at h
  · rename_i pc
    cases h
    exact posted.frame rfl (by rw [pc]; rfl)
  · rename_i b key pc
    cases h
    split
    · exact posted.frame (visit_guards s b key) ((visit_same s b key).2.2.2.trans (by rw [pc]; rfl))
    · exact posted.frame (endBeat_guards s b) ((endBeat_same s b).2.2.2.trans (by rw [pc]; rfl))
  · rename_i b key tid pc
    cases h
    exact pollLocal_posted pc posted
  · rename_i b key tid pc
    cases h
    exact remove_posted pc posted
  · rename_i pc
    cases h
    exact posted.frame rfl (by rw [pc]; rfl)
  · rename_i finished pc
    cases h
    exact posted.frame rfl (by rw [pc]; rfl)
  · cases h

theorem step_posted (posted : Posted s) (h : s.step e = some s') : Posted s' := by
  have iterate : s.alg.registry.iterateFlag = 0 := congrArg Prod.snd posted
  cases e with
  | call c =>
    simp only [step, call] at h
    split at h
    · cases h
      exact posted.frame (perform_guards s c) (by rw [perform_pc])
    · rename_i v pc
      cases h
      exact posted.frame (perform_guards s c) (by rw [pc]; rfl)
    · cases h
      exact posted.frame (perform_guards s c) (by rw [perform_pc])
    · rename_i b key tid pc
      cases h
      exact posted.frame (perform_guards s c) (by rw [pc]; rfl)
    · cases h
  | withName key =>
    obtain ⟨_, _, _, at_pc⟩ := withName_same h
    refine posted.frame ?_ at_pc
    simp only [step, withName] at h
    split at h
    all_goals cases h
    all_goals exact borrowOpt_guards s _
  | withNameEnd =>
    obtain ⟨_, _, _, at_pc⟩ := withNameEnd_same h
    refine posted.frame ?_ at_pc
    simp only [step, withNameEnd] at h
    split at h
    all_goals cases h
    all_goals exact releaseOpt_guards s _
  | wakeBegin target =>
    cases h
    exact posted
  | wakeStep i =>
    simp only [step, wakeStep] at h
    split at h
    · cases h
    · cases h
      exact posted
    · cases h
      exact posted
    · cases h
      exact posted.frame (storeRunnable_guards s _) (by rw [← storeRunnable_pc s])
  | poll w =>
    simp only [step, poll] at h
    split at h
    · rename_i pc
      cases h
      exact posted.frame rfl (by rw [pc]; rfl)
    · rename_i v pc
      cases h
      exact posted.frame rfl (by rw [pc]; rfl)
    · cases h
  | run => exact run_posted posted h
  | done isReady =>
    simp only [step, done] at h
    split at h
    · cases h
      cases isReady <;> exact Prod.ext rfl iterate
    · cases h
  | dropped =>
    simp only [step, dropped] at h
    split at h
    · rename_i b key tid pc inner
      cases h
      exact posted.frame rfl (by rw [pc]; rfl)
    · cases h
  | panic =>
    have kept := closeInner_guards s
    have iterate' : s.closeInner.alg.registry.iterateFlag = 0 :=
      (congrArg Prod.snd kept).trans iterate
    simp only [step, panic] at h
    split at h
    · cases h
      exact Prod.ext rfl iterate'
    · rename_i b key tid pc
      cases h
      exact posted.frame kept (by rw [pc]; rfl)
    · cases h

end Guards

/-- The task is nowhere in the registry, and no task will have its identity again. -/
def Absent (tid : Tid) (s : Wheel) : Prop :=
  tid < s.nextTid ∧ ∀ k task, s.get k = some task → task.tid ≠ tid

/-- The task whose destructor runs is not registered any more, under any key. -/
def Gone (s : Wheel) : Prop := ∀ b key tid, s.pc = .dropping b key tid →
  tid < s.nextTid ∧ ∀ k task, s.get k = some task → task.tid ≠ tid

section Step
variable {s s' : Wheel} {e : Event}

/-- An identity that is not in use stays so. -/
theorem absent_step (change : Change s e s') {tid : Tid} (absent : Absent tid s) :
    Absent tid s' := by
  refine ⟨Nat.lt_of_lt_of_le absent.1 change.nextTid_le, fun k task' found same => ?_⟩
  rcases (change.look k).origin found with ⟨task, before, eq⟩ | ⟨params, _, _, _, rfl, _⟩
  · exact absent.2 k task before (eq.trans same)
  · exact absurd same.symm (Nat.ne_of_lt absent.1)

theorem removing_gone {b : Beat} {key : TaskKey} {tid : Tid} (con : Consistent s)
    (pc : s.pc = .removing b key tid) (h : s.step .run = some s') :
    s'.pc = .dropping b key tid ∧ tid < s'.nextTid ∧
      ∀ k task, s'.get k = some task → task.tid ≠ tid := by
  obtain ⟨task, found, identity, removed, -⟩ := remove_found con pc h
  obtain ⟨after, eq, -⟩ := ChunkSlab.remove_some con.wf found
  have eq' : s.alg.registry.slab.remove key = (some task, after) := eq
  have small := con.old key task found
  refine ⟨?_, ?_, ?_⟩
  · simp only [step, run, pc, remove, Registry.remove, eq'] at h
    cases h
    exact congrArg (Pc.dropping b key) identity
  · rw [← identity]
    exact Nat.lt_of_lt_of_le small (step_change con.wf h).nextTid_le
  · intro k task' hold same
    by_cases here : k = key
    · subst here
      cases removed.gone.symm.trans hold
    · have before : s.get k = some task' := (removed.others k here).symm.trans hold
      exact here (con.unique k key task' task before found (same.trans identity.symm))

theorem gone_step (con : Consistent s) (gone : Gone s) (h : s.step e = some s') : Gone s' := by
  intro b key tid pc'
  have change := step_change con.wf h
  cases step_move con.wf h with
  | stay pc'' beats quiet =>
    exact absent_step change (gone b key tid (pc''.symm.trans pc'))
  | note b' key' tid' c event pc pc'' beats =>
    cases pc''.symm.trans pc'
    exact absent_step change (gone b' key tid pc)
  | removed b' key' tid' tid'' event pc pc'' beats =>
    subst event
    obtain ⟨at_drop, old, absent⟩ := removing_gone con pc h
    cases at_drop.symm.trans pc'
    exact ⟨old, absent⟩
  | ended b' key' event pc past ended beats =>
    rw [pc'] at ended
    cases ended
  | _ => simp_all

end Step

/-! What user code makes of a task, and what the scheduler leaves of it. -/

/-- A handle call for another stop reason of the task at this key. -/
def requests (k : TaskKey) : Event → Bool
  | .call (.suspend key) => decide (key = k)
  | .call (.resume key) => decide (key = k)
  | .call (.cancel key) => decide (key = k)
  | _ => false

/-- The runnable flag of the task is stored to: a waker raises it, or its poll begins. -/
def marksRunnable (k : TaskKey) (tid : Tid) (s : Wheel) : Event → Bool
  | .call (.wake target) => decide (target = ⟨k, tid⟩)
  | .wakeStep i =>
    match s.wakes[i]? with
    | some ⟨target, .store⟩ => decide (target = ⟨k, tid⟩)
    | _ => false
  | .run =>
    match s.pc with
    | .chosen _ key _ => decide (key = k)
    | _ => false
  | _ => false

/-- Nothing else writes to the stop reason or to the runnable flag of a task. -/
theorem settled_step {s s' : Wheel} {e : Event} (change : Change s e s') {k : TaskKey}
    {task task' : DynamicFuture} (found : s.get k = some task) (after : s'.get k = some task') :
    (requests k e = false → task'.stopReason = task.stopReason) ∧
      (marksRunnable k task.tid s e = false → task'.runnable = task.runnable) := by
  have kept : s'.get k = s.get k → task' = task := fun same =>
    Option.some.inj (after.symm.trans (same.trans found))
  cases change with
  | same slab =>
    cases kept (congrArg (fun slab => slab.get k) slab)
    exact ⟨fun _ => rfl, fun _ => rfl⟩
  | spawn params key event answer inserted =>
    by_cases here : k = key
    · subst here
      exact absurd (inserted.fresh.symm.trans found) nofun
    · cases kept (inserted.others k here)
      exact ⟨fun _ => rfl, fun _ => rfl⟩
  | reason key old r hold request slab =>
    rcases update_look (k := k) slab with ⟨rfl, eq⟩ | ⟨other, eq⟩
    · rw [found, after] at eq
      cases eq
      refine ⟨fun calm => ?_, fun _ => rfl⟩
      rcases request with ⟨-, -, rfl⟩ | ⟨-, -, rfl⟩ | ⟨-, -, rfl⟩ <;> simp [requests] at calm
    · cases kept eq
      exact ⟨fun _ => rfl, fun _ => rfl⟩
  | wake target old hold identity event slab =>
    rcases update_look (k := k) slab with ⟨rfl, eq⟩ | ⟨other, eq⟩
    · rw [found] at hold
      cases hold
      rw [found, after] at eq
      cases eq
      refine ⟨fun _ => rfl, fun calm => ?_⟩
      have here : target = ⟨target.key, task.tid⟩ := by rw [identity]
      rcases event with rfl | ⟨i, rfl, call⟩
      · simp [marksRunnable, ← here] at calm
      · simp [marksRunnable, call, ← here] at calm
    · cases kept eq
      exact ⟨fun _ => rfl, fun _ => rfl⟩
  | pollBegin b key tid old event pc hold pc' slab =>
    rcases update_look (k := k) slab with ⟨rfl, eq⟩ | ⟨other, eq⟩
    · rw [found, after] at eq
      cases eq
      refine ⟨fun _ => rfl, fun calm => ?_⟩
      simp [marksRunnable, event, pc] at calm
    · cases kept eq
      exact ⟨fun _ => rfl, fun _ => rfl⟩
  | pollEnd b key tid event pc slab =>
    rcases update_look (k := k) slab with ⟨rfl, eq⟩ | ⟨other, eq⟩
    · rw [found, after] at eq
      cases eq
      exact ⟨fun _ => rfl, fun _ => rfl⟩
    · cases kept eq
      exact ⟨fun _ => rfl, fun _ => rfl⟩
  | remove b key tid old event pc hold pc' removed =>
    by_cases here : k = key
    · subst here
      exact absurd (removed.gone.symm.trans after) nofun
    · cases kept (removed.others k here)
      exact ⟨fun _ => rfl, fun _ => rfl⟩

theorem absent_run {r s : Wheel} {es : List Event} (con : Consistent r)
    (run : exec step r es = some s) {tid : Tid} (absent : Absent tid r) : Absent tid s :=
  (invariant_run (I := fun q => Consistent q ∧ Absent tid q)
    (fun _ _ _ hold taken =>
      ⟨step_consistent hold.1 taken, absent_step (step_change hold.1.wf taken) hold.2⟩)
    ⟨con, absent⟩ run).2

/-- A task that is registered at both ends of a run was so all the time, and it has the
stop reason and the runnable flag that were last written to it. -/
theorem settled_run {r s : Wheel} {es : List Event} (con : Consistent r)
    (run : exec step r es = some s) {k : TaskKey} {task task' : DynamicFuture}
    (found : r.get k = some task) (after : s.get k = some task') (same : task'.tid = task.tid) :
    (Along step (fun _ e _ => requests k e = false) r es → task'.stopReason = task.stopReason) ∧
      (Along step (fun q e _ => marksRunnable k task.tid q e = false) r es →
        task'.runnable = task.runnable) := by
  induction es generalizing r task with
  | nil =>
    cases Option.some.inj run
    cases found.symm.trans after
    exact ⟨fun _ => rfl, fun _ => rfl⟩
  | cons e es ih =>
    obtain ⟨r₁, taken, rest⟩ := exec_cons run
    have change := step_change con.wf taken
    have con₁ := step_consistent con taken
    cases found₁ : r₁.get k with
    | none =>
      have small := con.old k task found
      have absent : ∀ j old, r₁.get j = some old → old.tid ≠ task.tid := by
        intro j old hold eq
        rcases (change.look j).origin hold with ⟨before, at_j, id⟩ | ⟨_, _, _, _, rfl, _⟩
        · have here := con.unique j k before task at_j found (id.trans eq)
          subst here
          exact absurd (found₁.symm.trans hold) nofun
        · exact absurd eq.symm (Nat.ne_of_lt small)
      have old := Nat.lt_of_lt_of_le small change.nextTid_le
      exact absurd same ((absent_run con₁ rest ⟨old, absent⟩).2 k task' after)
    | some task₁ =>
      have identity : task.tid = task₁.tid := by
        rcases (change.look k).origin found₁ with ⟨before, at_k, id⟩ | ⟨_, _, none, _⟩
        · cases found.symm.trans at_k
          exact id
        · exact absurd (none.symm.trans found) nofun
      obtain ⟨reason, runnable⟩ := settled_step change found found₁
      obtain ⟨reason', runnable'⟩ := ih con₁ rest found₁ (same.trans identity)
      refine ⟨fun calm => ?_, fun calm => ?_⟩
      · exact (reason' (calm r₁ taken).2).trans (reason (calm r₁ taken).1)
      · rw [identity] at calm runnable
        exact (runnable' (calm r₁ taken).2).trans (runnable (calm r₁ taken).1)

/-- The next step of `poll_internal` is one of the panics of its own code: the recursive
poll, the task that is not found, the task that is still borrowed. -/
def OwnPanic (s : Wheel) : Prop :=
  (∃ b key tid, s.pc = .chosen b key tid ∧ ∀ task, s.get key = some task → task.polling = true) ∨
  (∃ b key tid, s.pc = .removing b key tid ∧
    (s.get key = none ∨ s.alg.registry.borrowFlag ≠ 0))

/-- What a panic of user code in `s` leaves behind in `s'`. -/
structure Restored (s s' : Wheel) : Prop where
  current : s'.alg.current = none
  polling : ∀ k task, s'.get k = some task → task.polling = false
  unborrowed : s'.alg.registry.borrowFlag = 0
  uniterated : s'.alg.registry.iterateFlag = 0
  wellFormed : s'.slab.WellFormed
  len : s'.slab.len = s'.slab.count (fun _ => true)
  /-- A task that panicked in its poll is still registered. -/
  polled : ∀ b key tid, s.pc = .polling b key tid → ∃ task, s'.get key = some task ∧ task.tid = tid
  /-- A task that panicked in its destructor is gone. -/
  dropped : ∀ b key tid, s.pc = .dropping b key tid → ∀ k task, s'.get k = some task → task.tid ≠ tid
  others : ∀ k, s.pc.pollingAt ≠ some k → s'.get k = s.get k
  /-- Every task has the stop reason and the runnable flag that were last written to it. -/
  settled : ∀ r es k task task', Reachable step (fun s => s = new) r → exec step r es = some s' →
    r.get k = some task → s'.get k = some task' → task'.tid = task.tid →
    (Along step (fun _ e _ => requests k e = false) r es → task'.stopReason = task.stopReason) ∧
    (Along step (fun q e _ => marksRunnable k task.tid q e = false) r es →
      task'.runnable = task.runnable)
  later : ∀ es t, exec step s' es = some t → t.outer = [] → ¬ OwnPanic t

/-- All that is known of a reachable wheel. -/
structure Kept (s : Wheel) : Prop where
  con : Consistent s
  lending : Lending s
  posted : Posted s
  gone : Gone s

theorem new_kept : Kept new where
  con := new_consistent
  lending := ⟨List.Perm.nil, fun _ => rfl⟩
  posted := rfl
  gone := nofun

theorem step_kept {s s' : Wheel} {e : Event} (kept : Kept s) (h : s.step e = some s') : Kept s' where
  con := step_consistent kept.con h
  lending := lending_step kept.con kept.lending h
  posted := step_posted kept.posted h
  gone := gone_step kept.con kept.gone h

theorem reachable_kept {s : Wheel} (reach : Reachable step (fun s => s = new) s) : Kept s :=
  invariant_reachable (fun _ start => start ▸ new_kept) (fun _ _ _ => step_kept) reach

/-- Without a closure outside there is no reference while no user code of a task runs. -/
theorem Lending.free {s : Wheel} (lending : Lending s) (closed : s.outer = [])
    (outside : s.pc.inside = false) (held : s.pc.held = []) : s.alg.registry.borrowFlag = 0 := by
  have account := lending.account
  rw [lent, closed, lending.closed outside, held] at account
  exact List.length_eq_zero_iff.mpr account.eq_nil

theorem Kept.no_panic {s : Wheel} (kept : Kept s) (closed : s.outer = []) : ¬ OwnPanic s := by
  rintro (⟨b, key, tid, pc, nested⟩ | ⟨b, key, tid, pc, lost | borrowed⟩)
  · exact kept.con.unbroken (.inr ⟨b, key, tid, pc, nested⟩)
  · exact kept.con.unbroken (.inl ⟨b, key, tid, pc, lost⟩)
  · exact borrowed (kept.lending.free closed (by rw [pc]; rfl) (by rw [pc]; rfl))

theorem panic_pc {s s' : Wheel} (h : s.step .panic = some s') :
    s'.pc = .idle ∧ s'.outer = s.outer := by
  have outer := closeInner_outer s
  simp only [step, panic] at h
  split at h
  · cases h
    exact ⟨rfl, outer⟩
  · cases h
    exact ⟨rfl, outer⟩
  · cases h

/-- A panic of user code inside of `poll_internal` leaves the wheel as consistent as any
other step: what was raised for the call is lowered, the tasks are as they were, and no
later call runs into what is left of this one. -/
theorem panic_restores {s s' : Wheel} (reach : Reachable step (fun s => s = new) s)
    (closed : s.outer = []) (h : s.step .panic = some s') : Restored s s' := by
  have before := reachable_kept reach
  have after := step_kept before h
  have look := (step_change before.con.wf h).look
  obtain ⟨pc, outer⟩ := panic_pc h
  constructor
  case current => exact (congrArg Prod.fst after.posted).trans (by rw [pc]; rfl)
  case polling =>
    intro k task found
    have idle := after.con.polling k task found
    rw [pc] at idle
    cases polled : task.polling with
    | false => rfl
    | true => cases idle.mp polled
  case unborrowed =>
    exact after.lending.free (outer.trans closed) (by rw [pc]; rfl) (by rw [pc]; rfl)
  case uniterated => exact congrArg Prod.snd after.posted
  case wellFormed => exact after.con.wf
  case len => exact after.con.wf.len
  case polled =>
    intro b key tid at_poll
    obtain ⟨task, found, identity⟩ := before.con.subject key tid (by rw [at_poll]; rfl)
    obtain ⟨task', found', same⟩ := (look key).keeps found nofun
    exact ⟨task', found', same.trans identity⟩
  case dropped =>
    intro b key tid at_drop
    exact (absent_step (step_change before.con.wf h) (before.gone b key tid at_drop)).2
  case others =>
    intro k other
    exact (look k).undisturbed rfl (fun at_pc => at_pc.elim nofun (fun here => absurd here other))
  case settled =>
    intro r es k task task' reached run found found' same
    exact settled_run (reachable_consistent reached) run found found' same
  case later =>
    intro es t run closed'
    exact (invariant_run (fun _ _ _ => step_kept) after run).no_panic closed'

/-- The first of two tasks cancels the second one and panics while it holds a name. -/
def panicInPoll : List Event :=
  [.call (.register ⟨false, .none⟩), .call (.register ⟨true, .none⟩), .poll 7, .run, .run, .run,
    .call (.cancel 1), .withName 1]

theorem panic_restores_panicInPoll : ∃ s s', exec step new panicInPoll = some s ∧
    s.alg.current = some 0 ∧ s.alg.registry.borrowFlag = 2 ∧ s.step .panic = some s' ∧
    Restored s s' := by
  have run : exec step new panicInPoll = some (last step new panicInPoll) :=
    exec_last (by decide +kernel)
  have taken : (last step new panicInPoll).step .panic =
      some (last step (last step new panicInPoll) [.panic]) := step_last (by decide +kernel)
  exact ⟨_, _, run, by decide +kernel, by decide +kernel, taken,
    panic_restores ⟨_, _, rfl, run⟩ (by decide +kernel) taken⟩

end Wheel
end Juggle.Dy
