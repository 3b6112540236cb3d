import Juggle.Dy.Invariant

/-! References handed out by the registry. A reference is alive while a `with_name`
closure runs on a registered task and while the sweep has a task in hand, and at no
other time. -/
namespace Juggle.Dy
open Juggle.Utils Juggle.Runs

namespace Pc

/-- The reference that `beat_once` keeps in `run_task`. -/
def held : Pc → List Tid
  | .chosen _ _ tid => [tid]
  | .polling _ _ tid => [tid]
  | _ => []

/-- User code runs inside of `poll_internal`. -/
def inside : Pc → Bool
  | .polling _ _ _ => true
  | .dropping _ _ _ => true
  | _ => false

end Pc

namespace Wheel

def borrows (s : Wheel) : List Tid := s.alg.registry.borrows

/-- The references that open closures and the sweep account for. -/
def lent (s : Wheel) : List Tid := s.outer.filterMap id ++ (s.inner.filterMap id ++ s.pc.held)

/-- The sweep decides to remove a task, met as cancelled or just finished, while a closure
opened outside of `poll_internal` holds a registered task. -/
def removesUnderClosure (s : Wheel) : Event → Bool
  | .run =>
    match s.pc with
    | .sweep b key => decide (key < b.cap) && (s.get key).any (fun t => t.stopReason = .cancelled) &&
        s.outer.any Option.isSome
    | _ => false
  | .done true => s.outer.any Option.isSome
  | _ => false

structure Lending (s : Wheel) : Prop where
  account : s.borrows.Perm s.lent
  closed : s.pc.inside = false → s.inner = []

section Step
variable {s s' : Wheel} {e : Event}

/-- A step that opens and closes no closure and takes no task in hand. -/
theorem Lending.frame (lending : Lending s) (borrows : s'.borrows = s.borrows)
    (outer : s'.outer = s.outer) (inner : s'.inner = s.inner) (held : s'.pc.held = s.pc.held)
    (inside : s'.pc.inside = false → s.pc.inside = false ∨ s.inner = []) : Lending s' := by
  constructor
  · rw [borrows, lent, outer, inner, held]
    exact lending.account
  · intro shut
    rw [inner]
    exact (inside shut).elim lending.closed id

theorem notifyWake_lending (s : Wheel) : s.notifyWake.borrows = s.borrows ∧
    s.notifyWake.outer = s.outer ∧ s.notifyWake.inner = s.inner := by
  unfold notifyWake
  split <;> exact ⟨rfl, rfl, rfl⟩

theorem storeRunnable_lending (s : Wheel) (target : TaskRef) :
    (s.storeRunnable target).borrows = s.borrows ∧ (s.storeRunnable target).outer = s.outer ∧
      (s.storeRunnable target).inner = s.inner := by
  rcases storeRunnable_cases s target with no | ⟨task, found, identity, yes⟩
  · rw [no]
    exact ⟨rfl, rfl, rfl⟩
  · rw [yes]
    exact ⟨rfl, rfl, rfl⟩

theorem insert_borrows (r : Registry) (val : DynamicFuture) : (r.insert val).2.borrows = r.borrows := by
  unfold Registry.insert
  split <;> rfl

theorem register_borrows (alg : UnorderedAlgorithm) (dynamic : DynamicFuture) :
    (alg.register dynamic).2.registry.borrows = alg.registry.borrows := by
  have kept := insert_borrows alg.registry dynamic
  unfold UnorderedAlgorithm.register
  dsimp only
  split
  · exact kept
  · exact kept

theorem perform_lending (s : Wheel) (c : Call) : (s.perform c).borrows = s.borrows ∧
    (s.perform c).outer = s.outer ∧ (s.perform c).inner = s.inner := by
  cases c with
  | register params => exact ⟨register_borrows s.alg _, rfl, rfl⟩
  | suspend key =>
    refine ⟨?_, rfl, rfl⟩
    rcases suspend_cases s key with no | ⟨task, found, free, yes⟩
    · simp [perform, no, borrows]
    · simp only [perform, yes, borrows]
      rfl
  | resume key =>
    refine ⟨?_, rfl, rfl⟩
    rcases resume_cases s key with no | ⟨task, found, held, yes⟩
    · simp [perform, no, borrows]
    · simp only [perform, yes, borrows]
      rfl
  | cancel key =>
    refine ⟨?_, rfl, rfl⟩
    rcases cancel_cases s key with no | ⟨task, found, live, yes⟩
    · simp [perform, no, borrows]
    · simp only [perform, yes, borrows]
      split <;> rfl
  | wake target =>
    obtain ⟨a, b, c⟩ := storeRunnable_lending s.notifyWake target
    obtain ⟨a', b', c'⟩ := notifyWake_lending s
    exact ⟨a.trans a', b.trans b', c.trans c'⟩
  | getState key => exact ⟨rfl, rfl, rfl⟩
  | getByName name => exact ⟨rfl, rfl, rfl⟩
  | registeredCount => exact ⟨rfl, rfl, rfl⟩

theorem call_lending {c : Call} (lending : Lending s) (h : s.call c = some s') : Lending s' := by
  obtain ⟨borrows, outer, inner⟩ := perform_lending s c
  unfold call at h
  split at h
  · cases h
    exact lending.frame borrows outer inner (by rw [perform_pc]) (by rw [perform_pc]; exact Or.inl)
  · rename_i v pc
    cases h
    exact lending.frame borrows outer inner (by rw [pc]; rfl) (fun _ => Or.inl (by rw [pc]; rfl))
  · cases h
    exact lending.frame borrows outer inner (by rw [perform_pc]) (by rw [perform_pc]; exact Or.inl)
  · rename_i b key tid pc
    cases h
    exact lending.frame borrows outer inner (by rw [pc]; rfl) nofun
  · cases h

theorem borrowOpt_borrows (s : Wheel) (ref : Option Tid) :
    (s.borrowOpt ref).borrows = ref.toList ++ s.borrows := by
  cases ref <;> rfl

theorem releaseOpt_borrows {ref : Option Tid} {rest : List Tid}
    (account : s.borrows.Perm (ref.toList ++ rest)) : (s.releaseOpt ref).borrows.Perm rest := by
  cases ref with
  | none => exact account
  | some tid =>
    have erased := account.erase tid
    rwa [Option.toList_some, List.singleton_append, List.erase_cons_head] at erased

theorem filterMap_cons_toList (ref : Option Tid) (refs : List (Option Tid)) :
    (ref :: refs).filterMap id = ref.toList ++ refs.filterMap id := by
  cases ref <;> rfl

@[simp] theorem borrowOpt_outer (s : Wheel) (ref : Option Tid) : (s.borrowOpt ref).outer = s.outer := by
  cases ref <;> rfl

@[simp] theorem borrowOpt_inner (s : Wheel) (ref : Option Tid) : (s.borrowOpt ref).inner = s.inner := by
  cases ref <;> rfl

@[simp] theorem releaseOpt_outer (s : Wheel) (ref : Option Tid) :
    (s.releaseOpt ref).outer = s.outer := by
  cases ref <;> rfl

@[simp] theorem releaseOpt_inner (s : Wheel) (ref : Option Tid) :
    (s.releaseOpt ref).inner = s.inner := by
  cases ref <;> rfl

/-- One more open closure, outside or inside, on the account of its reference. -/
theorem lent_open {ref : Option Tid} (held : s'.pc.held = s.pc.held)
    (opens : (s'.outer = ref :: s.outer ∧ s'.inner = s.inner) ∨
      (s'.outer = s.outer ∧ s'.inner = ref :: s.inner)) : s'.lent.Perm (ref.toList ++ s.lent) := by
  unfold lent
  rcases opens with ⟨outer, inner⟩ | ⟨outer, inner⟩
  · rw [outer, inner, held, filterMap_cons_toList, List.append_assoc]
  · rw [outer, inner, held, filterMap_cons_toList, List.append_assoc]
    exact List.perm_append_comm_assoc _ _ _

theorem Lending.opens {ref : Option Tid} (lending : Lending s)
    (borrows : s'.borrows = ref.toList ++ s.borrows) (held : s'.pc.held = s.pc.held)
    (opens : (s'.outer = ref :: s.outer ∧ s'.inner = s.inner) ∨
      (s'.outer = s.outer ∧ s'.inner = ref :: s.inner))
    (closed : s'.pc.inside = false → s'.inner = []) : Lending s' := by
  refine ⟨?_, closed⟩
  rw [borrows]
  exact (lending.account.append_left ref.toList).trans (lent_open held opens).symm

theorem Lending.closes {ref : Option Tid} (lending : Lending s)
    (borrows : s'.borrows = (s.releaseOpt ref).borrows) (held : s.pc.held = s'.pc.held)
    (closes : (s.outer = ref :: s'.outer ∧ s.inner = s'.inner) ∨
      (s.outer = s'.outer ∧ s.inner = ref :: s'.inner))
    (closed : s'.pc.inside = false → s'.inner = []) : Lending s' := by
  refine ⟨?_, closed⟩
  rw [borrows]
  exact releaseOpt_borrows (lending.account.trans (lent_open held closes))

theorem withName_lending {key : TaskKey} (lending : Lending s) (h : s.withName key = some s') :
    Lending s' := by
  unfold withName at h
  split at h
  all_goals cases h
  · rename_i pc
    have none : s.inner = [] := lending.closed (by rw [pc]; rfl)
    exact lending.opens (borrowOpt_borrows s _) (by simp) (Or.inl ⟨rfl, by simp⟩) (by simp [none])
  · rename_i v pc
    have none : s.inner = [] := lending.closed (by rw [pc]; rfl)
    exact lending.opens (borrowOpt_borrows s _) (by rw [pc]; rfl) (Or.inl ⟨rfl, by simp⟩)
      (by simp [none])
  · rename_i pc
    exact lending.opens (borrowOpt_borrows s _) (by simp) (Or.inr ⟨by simp, rfl⟩)
      (by simp [pc, Pc.inside])
  · rename_i pc
    exact lending.opens (borrowOpt_borrows s _) (by simp) (Or.inr ⟨by simp, rfl⟩)
      (by simp [pc, Pc.inside])

theorem withNameEnd_lending (lending : Lending s) (h : s.withNameEnd = some s') : Lending s' := by
  unfold withNameEnd at h
  split at h
  all_goals cases h
  · rename_i pc outer
    have none : s.inner = [] := lending.closed (by rw [pc]; rfl)
    exact lending.closes rfl (by simp) (Or.inl ⟨outer, by simp⟩) (by simp [none])
  · rename_i pc outer
    have none : s.inner = [] := lending.closed (by rw [pc]; rfl)
    exact lending.closes rfl (by rw [pc]; rfl) (Or.inl ⟨outer, by simp⟩) (by simp [none])
  · rename_i pc inner
    exact lending.closes rfl (by simp) (Or.inr ⟨by simp, inner⟩) (by simp [pc, Pc.inside])
  · rename_i pc inner
    exact lending.closes rfl (by simp) (Or.inr ⟨by simp, inner⟩) (by simp [pc, Pc.inside])

/-- The sweep takes a task in hand or lets go of it. -/
theorem Lending.takes {tid : Tid} (lending : Lending s) (borrows : s'.borrows = tid :: s.borrows)
    (outer : s'.outer = s.outer) (inner : s'.inner = s.inner) (free : s.pc.held = [])
    (held : s'.pc.held = [tid]) (shut : s.pc.inside = false) : Lending s' := by
  have none := lending.closed shut
  have account := lending.account
  refine ⟨?_, fun _ => inner.trans none⟩
  unfold lent at account ⊢
  rw [free, none] at account
  rw [borrows, outer, inner, held, none]
  simp only [List.filterMap_nil, List.nil_append, List.append_nil] at account ⊢
  exact (account.cons tid).trans (List.perm_append_singleton tid _).symm

theorem Lending.drops {tid : Tid} (lending : Lending s) (borrows : s'.borrows = s.borrows.erase tid)
    (outer : s'.outer = s.outer) (inner : s'.inner = []) (none : s.inner = [])
    (held : s.pc.held = [tid]) (free : s'.pc.held = []) : Lending s' := by
  have account := lending.account
  refine ⟨?_, fun _ => inner⟩
  unfold lent at account ⊢
  rw [held, none] at account
  rw [borrows, outer, inner, free]
  simp only [List.filterMap_nil, List.nil_append, List.append_nil] at account ⊢
  have erased := (account.trans (List.perm_append_singleton tid _)).erase tid
  rwa [List.erase_cons_head] at erased

/-- Unwinding gives back the references of the closures it leaves. -/
theorem foldl_release_account (refs : List (Option Tid)) (s : Wheel) {rest : List Tid}
    (account : s.borrows.Perm (refs.filterMap id ++ rest)) :
    (refs.foldl releaseOpt s).borrows.Perm rest := by
  induction refs generalizing s with
  | nil => exact account
  | cons ref refs ih =>
    rw [filterMap_cons_toList, List.append_assoc] at account
    exact ih (s.releaseOpt ref) (releaseOpt_borrows account)

@[simp] theorem closeInner_outer (s : Wheel) : s.closeInner.outer = s.outer :=
  foldl_releaseOpt outer releaseOpt_outer s.inner s

theorem closeInner_lending (lending : Lending s) : Lending s.closeInner := by
  refine ⟨?_, fun _ => rfl⟩
  have account : s.borrows.Perm (s.inner.filterMap id ++ (s.outer.filterMap id ++ s.pc.held)) :=
    lending.account.trans (List.perm_append_comm_assoc _ _ _)
  have closed := foldl_release_account s.inner s account
  have after : s.closeInner.lent = s.outer.filterMap id ++ s.pc.held := by
    rw [lent, closeInner_outer, closeInner_pc]
    rfl
  rw [after]
  exact closed

theorem remove_lending {b : Beat} {key : TaskKey} (lending : Lending s) (free : s.pc.held = [])
    (shut : s.pc.inside = false) : Lending (s.remove b key) := by
  unfold remove
  split
  · rename_i task registry eq
    have kept : registry.borrows = s.borrows := (congrArg (fun r => r.2.borrows) eq).symm
    exact lending.frame kept rfl rfl free.symm nofun
  · rename_i registry eq
    have kept : registry.borrows = s.borrows := (congrArg (fun r => r.2.borrows) eq).symm
    exact lending.frame kept rfl rfl free.symm (fun _ => Or.inl shut)

theorem run_lending (con : Consistent s) (lending : Lending s) (h : s.run = some s') : Lending s' := by
  have calm : ∀ t : Wheel, s.pc.held = [] → s.pc.inside = false → t.borrows = s.borrows →
      t.outer = s.outer → t.inner = s.inner → t.pc.held = [] → Lending t :=
    fun t free shut borrows outer inner held =>
      lending.frame borrows outer inner (held.trans free.symm) (fun _ => Or.inl shut)
  unfold run at h
  split at h
  · rename_i pc
    cases h
    exact calm _ (by rw [pc]; rfl) (by rw [pc]; rfl) rfl rfl rfl rfl
  · rename_i b key pc
    have free : s.pc.held = [] := by rw [pc]; rfl
    have shut : s.pc.inside = false := by rw [pc]; rfl
    cases h
    split
    · unfold visit
      split
      · exact calm _ free shut rfl rfl rfl rfl
      · split
        · split
          · exact calm _ free shut rfl rfl rfl rfl
          · exact calm _ free shut rfl rfl rfl rfl
        · split
          · exact calm _ free shut rfl rfl rfl rfl
          · exact lending.takes rfl rfl rfl free rfl shut
    · unfold endBeat
      split
      · exact calm _ free shut rfl rfl rfl rfl
      · exact calm _ free shut rfl rfl rfl rfl
      · exact calm _ free shut rfl rfl rfl rfl
      · dsimp only
        split
        · exact calm _ free shut rfl rfl rfl rfl
        · exact calm _ free shut rfl rfl rfl rfl
  · rename_i b key tid pc
    cases h
    unfold pollLocal
    split
    · rename_i none
      obtain ⟨task, found, _⟩ := con.subject key tid (by rw [pc]; rfl)
      exact absurd (none.symm.trans found) nofun
    · split
      · exact lending.drops rfl rfl (lending.closed (by rw [pc]; rfl)) (lending.closed (by rw [pc]; rfl))
          (by rw [pc]; rfl) rfl
      · exact lending.frame rfl rfl rfl (by rw [pc]; rfl) nofun
  · rename_i b key tid pc
    cases h
    exact remove_lending lending (by rw [pc]; rfl) (by rw [pc]; rfl)
  · rename_i pc
    cases h
    exact calm _ (by rw [pc]; rfl) (by rw [pc]; rfl) rfl rfl rfl rfl
  · rename_i pc
    cases h
    exact calm _ (by rw [pc]; rfl) (by rw [pc]; rfl) rfl rfl rfl rfl
  · cases h

theorem wakeStep_lending {i : Nat} (lending : Lending s) (h : s.wakeStep i = some s') :
    Lending s' := by
  unfold wakeStep at h
  split at h
  · cases h
  · cases h
    exact lending.frame rfl rfl rfl rfl Or.inl
  · cases h
    exact lending.frame rfl rfl rfl rfl Or.inl
  · rename_i target here
    cases h
    obtain ⟨borrows, outer, inner⟩ := storeRunnable_lending s target
    exact lending.frame borrows outer inner (congrArg Pc.held (storeRunnable_pc s target))
      (fun shut => Or.inl (by rwa [← storeRunnable_pc s target]))

/-- References are accounted for in every step. -/
theorem lending_step (con : Consistent s) (lending : Lending s) (h : s.step e = some s') :
    Lending s' := by
  cases e with
  | call c => exact call_lending lending h
  | withName key => exact withName_lending lending h
  | withNameEnd => exact withNameEnd_lending lending h
  | wakeBegin target =>
    cases h
    exact lending.frame rfl rfl rfl rfl Or.inl
  | wakeStep i => exact wakeStep_lending lending h
  | poll w =>
    simp only [step, poll] at h
    split at h
    · rename_i pc
      cases h
      exact lending.frame rfl rfl rfl (by rw [pc]; rfl) (fun _ => Or.inl (by rw [pc]; rfl))
    · rename_i v pc
      cases h
      exact lending.frame rfl rfl rfl (by rw [pc]; rfl) (fun _ => Or.inl (by rw [pc]; rfl))
    · cases h
  | run => exact run_lending con lending h
  | done isReady =>
    simp only [step, done] at h
    split at h
    · rename_i b key tid pc inner
      cases h
      exact lending.drops rfl rfl inner inner (by rw [pc]; rfl) (by cases isReady <;> rfl)
    · cases h
  | dropped =>
    simp only [step, dropped] at h
    split at h
    · rename_i b key tid pc inner
      cases h
      exact lending.frame rfl rfl rfl (by rw [pc]; rfl) (fun _ => Or.inr inner)
    · cases h
  | panic =>
    have closed := closeInner_lending lending
    simp only [step, panic] at h
    split at h
    · rename_i b key tid pc
      cases h
      exact closed.drops rfl rfl rfl rfl (by rw [closeInner_pc, pc]; rfl) rfl
    · rename_i b key tid pc
      cases h
      exact closed.frame rfl rfl rfl (by rw [closeInner_pc, pc]; rfl) (fun _ => Or.inr rfl)
    · cases h

/-- Nobody outside holds a task while the sweep is about to remove one. -/
def Unshared (s : Wheel) : Prop :=
  ∀ b key tid, s.pc = .removing b key tid → s.outer.any Option.isSome = false

theorem visit_outer (s : Wheel) (b : Beat) (key : TaskKey) : (s.visit b key).outer = s.outer := by
  unfold visit
  split
  · rfl
  · split
    · split <;> rfl
    · split <;> rfl

theorem unshared_step (con : Consistent s) (unshared : Unshared s) (h : s.step e = some s')
    (fine : s.removesUnderClosure e = false) : Unshared s' := by
  intro b key tid pc'
  cases step_move con.wf h with
  | stay pc'' beats quiet =>
    have pc : s.pc = .removing b key tid := pc''.symm.trans pc'
    have before := unshared b key tid pc
    cases e with
    | wakeBegin target =>
      cases h
      exact before
    | wakeStep i =>
      simp only [step, wakeStep] at h
      split at h
      · cases h
      · cases h
        exact before
      · cases h
        exact before
      · cases h
        rw [(storeRunnable_lending s _).2.1]
        exact before
    | run => exact absurd rfl quiet
    | _ => simp [step, call, withName, withNameEnd, poll, done, dropped, panic, pc] at h
  | condemn b' key' task event pc inside found reason pc'' beats =>
    subst event
    simp only [step, run, pc, if_pos inside] at h
    cases h
    rw [visit_outer]
    simpa [removesUnderClosure, pc, inside, found, reason] using fine
  | ready b' key' tid' event pc pc'' beats =>
    subst event
    simp only [step, done, pc] at h
    split at h
    · cases h
      exact fine
    · cases h
  | ended b' key' event pc past ended beats =>
    rw [pc'] at ended
    cases ended
  | _ => simp_all

end Step

/-- At every call of `Registry::remove` the entry is there, it is the task the sweep has in
hand, and no reference is alive, provided the sweep never decides on a removal while a
closure opened outside of `poll_internal` holds a registered task. -/
theorem remove_unborrowed {s : Wheel} {es : List Event} {b : Beat} {key : TaskKey} {tid : Tid}
    (run : exec step new es = some s)
    (fine : Along step (fun s e _ => s.removesUnderClosure e = false) new es)
    (pc : s.pc = .removing b key tid) :
    (∃ task, s.get key = some task ∧ task.tid = tid) ∧ s.alg.registry.borrowFlag = 0 := by
  have kept : ∀ r e t, (Consistent r ∧ Lending r) ∧ Unshared r → step r e = some t →
      r.removesUnderClosure e = false → (Consistent t ∧ Lending t) ∧ Unshared t :=
    fun r e t inv h cond => ⟨⟨step_consistent inv.1.1 h, lending_step inv.1.1 inv.1.2 h⟩,
      unshared_step inv.1.1 inv.2 h cond⟩
  have start : (Consistent new ∧ Lending new) ∧ Unshared new :=
    ⟨⟨new_consistent, ⟨List.Perm.nil, fun _ => rfl⟩⟩, nofun⟩
  obtain ⟨⟨con, lending⟩, unshared⟩ := invariant_along kept start run fine
  refine ⟨con.subject key tid (by rw [pc]; rfl), ?_⟩
  have account := lending.account
  have inner := lending.closed (by rw [pc]; rfl)
  have outer : s.outer.filterMap id = [] := by
    have none := unshared b key tid pc
    rw [List.any_eq_false] at none
    rw [List.filterMap_eq_nil_iff]
    intro ref member
    simpa using none ref member
  rw [lent, inner, outer, pc] at account
  exact List.length_eq_zero_iff.mpr account.eq_nil

/-- The condition leaves out nothing else: where it fails, the removal that follows is made
under a living reference. -/
theorem removesUnderClosure_borrowed {s s' : Wheel} {e : Event}
    (reach : Reachable step (fun s => s = new) s) (bad : s.removesUnderClosure e = true)
    (h : s.step e = some s') :
    ∃ b key tid, s'.pc = .removing b key tid ∧ s'.alg.registry.borrowFlag ≠ 0 := by
  have kept : ∀ r e t, Consistent r ∧ Lending r → step r e = some t → Consistent t ∧ Lending t :=
    fun r e t inv h => ⟨step_consistent inv.1 h, lending_step inv.1 inv.2 h⟩
  have start : ∀ r, r = new → Consistent r ∧ Lending r := by
    rintro r rfl
    exact ⟨new_consistent, ⟨List.Perm.nil, fun _ => rfl⟩⟩
  obtain ⟨con, lending⟩ := invariant_reachable start kept reach
  have account := (lending_step con lending h).account
  have alive : s'.outer.any Option.isSome = true → s'.alg.registry.borrowFlag ≠ 0 := by
    intro some none
    obtain ⟨ref, member, value⟩ := List.any_eq_true.mp some
    obtain ⟨tid, rfl⟩ := Option.isSome_iff_exists.mp value
    have lent : tid ∈ s'.lent :=
      List.mem_append_left _ (List.mem_filterMap.mpr ⟨_, member, rfl⟩)
    have empty : s'.borrows = [] := List.length_eq_zero_iff.mp none
    have borrowed := account.mem_iff.mpr lent
    rw [empty] at borrowed
    cases borrowed
  cases e with
  | run =>
    cases pc : s.pc with
    | sweep b key =>
      simp only [removesUnderClosure, pc, Bool.and_eq_true, decide_eq_true_eq,
        Option.any_eq_true] at bad
      obtain ⟨⟨inside, task, found, cancelled⟩, shared⟩ := bad
      simp only [step, run, pc, if_pos inside] at h
      cases h
      refine ⟨b, key, task.tid, ?_, alive (by rwa [visit_outer])⟩
      simp [visit, found, cancelled, StopReason.isPollAllowed, goto]
    | _ => simp [removesUnderClosure, pc] at bad
  | done isReady =>
    cases isReady with
    | false => cases bad
    | true =>
      simp only [step, done] at h
      split at h
      · rename_i b key tid pc inner
        cases h
        exact ⟨b, key, tid, rfl, alive bad⟩
      · cases h
  | _ => cases bad

/-- A closure on the only task polls the wheel, and the task finishes. -/
def pollInClosure : List Event :=
  [.call (.register ⟨false, .static "some name"⟩), .withName 0, .poll 7, .run, .run, .run, .done true]

theorem pollInClosure_borrowed : ∃ s b, exec step new pollInClosure = some s ∧
    s.pc = .removing b 0 0 ∧ s.outer = [some 0] ∧ s.alg.registry.borrowFlag = 1 := by
  have run := exec_last (show (exec step new pollInClosure).isSome = true by decide +kernel)
  exact ⟨_, ⟨false, true, 16, false⟩, run, by decide +kernel, by decide +kernel, by decide +kernel⟩

/-- The same after the closure has returned. -/
def pollAfterClosure : List Event :=
  [.call (.register ⟨false, .static "some name"⟩), .withName 0, .withNameEnd, .poll 7, .run, .run, .run,
    .done true]

theorem remove_unborrowed_afterClosure : (last step new pollAfterClosure).alg.registry.borrowFlag = 0 := by
  have run := exec_last (show (exec step new pollAfterClosure).isSome = true by decide +kernel)
  have pc : (last step new pollAfterClosure).pc = .removing ⟨false, true, 16, false⟩ 0 0 := by
    decide +kernel
  exact (remove_unborrowed run (by decide +kernel) pc).2

end Wheel
end Juggle.Dy
