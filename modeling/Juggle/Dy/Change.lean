import Juggle.Dy.Wheel
import Juggle.Utils.FreeList

/-! What one step can do to the registry. Every invariant of the dynamic wheel is
derived from this classification, so a change of one handle operation is met here. -/
namespace Juggle.Dy
open Juggle.Utils Juggle.Count

def isSuspended (t : DynamicFuture) : Bool := decide (t.stopReason = .suspended)

namespace Wheel

def slab (s : Wheel) : ChunkSlab TaskKey DynamicFuture := s.alg.registry.slab

/-- The effect of a step on the slab, the count of suspended tasks and the supply of
identities. -/
inductive Change (s : Wheel) (e : Event) (s' : Wheel) : Prop where
  | same (slab : s'.slab = s.slab) (count : s'.alg.suspendedCount = s.alg.suspendedCount)
      (tids : s.nextTid ≤ s'.nextTid) (at_pc : s'.pc.pollingAt = s.pc.pollingAt)
  | spawn (params : SpawnParams) (key : TaskKey) (event : e = .call (.register params))
      (answer : (s.alg.register (DynamicFuture.new s.nextTid params)).1 = some key)
      (inserted : ChunkSlab.Inserted s.slab (DynamicFuture.new s.nextTid params) key s'.slab)
      (count : s'.alg.suspendedCount =
        s.alg.suspendedCount + weight (isSuspended (DynamicFuture.new s.nextTid params)))
      (tids : s'.nextTid = s.nextTid + 1) (at_pc : s'.pc.pollingAt = s.pc.pollingAt)
  | reason (key : TaskKey) (task : DynamicFuture) (r : StopReason) (found : s.get key = some task)
      (request : (r = .none ∧ task.stopReason = .suspended ∧ e = .call (.resume key)) ∨
        (r = .suspended ∧ task.stopReason = .none ∧ e = .call (.suspend key)) ∨
        (r = .cancelled ∧ task.stopReason ≠ .cancelled ∧ e = .call (.cancel key)))
      (slab : s'.slab = s.slab.update key (DynamicFuture.setStopReason r))
      (count : s'.alg.suspendedCount =
        s.alg.suspendedCount + weight (decide (r = .suspended)) - weight (isSuspended task))
      (tids : s'.nextTid = s.nextTid) (at_pc : s'.pc.pollingAt = s.pc.pollingAt)
  | wake (target : TaskRef) (task : DynamicFuture) (found : s.get target.key = some task)
      (identity : task.tid = target.tid)
      (event : e = .call (.wake target) ∨ ∃ i, e = .wakeStep i ∧ s.wakes[i]? = some ⟨target, .store⟩)
      (slab : s'.slab = s.slab.update target.key (DynamicFuture.setRunnable true))
      (count : s'.alg.suspendedCount = s.alg.suspendedCount) (tids : s'.nextTid = s.nextTid)
      (at_pc : s'.pc.pollingAt = s.pc.pollingAt)
  | pollBegin (b : Beat) (key : TaskKey) (tid : Tid) (task : DynamicFuture) (event : e = .run)
      (pc : s.pc = .chosen b key tid) (found : s.get key = some task)
      (pc' : s'.pc = .polling { b with anyPoll := true } key tid)
      (slab : s'.slab = s.slab.update key (fun t => (t.setPolling true).setRunnable false))
      (count : s'.alg.suspendedCount = s.alg.suspendedCount) (tids : s'.nextTid = s.nextTid)
  | pollEnd (b : Beat) (key : TaskKey) (tid : Tid) (event : e = .panic ∨ ∃ r, e = .done r)
      (pc : s.pc = .polling b key tid)
      (slab : s'.slab = s.slab.update key (DynamicFuture.setPolling false))
      (count : s'.alg.suspendedCount = s.alg.suspendedCount) (tids : s'.nextTid = s.nextTid)
      (at_pc : s'.pc.pollingAt = none)
  | remove (b : Beat) (key : TaskKey) (tid : Tid) (task : DynamicFuture) (event : e = .run)
      (pc : s.pc = .removing b key tid) (found : s.get key = some task)
      (pc' : s'.pc = .dropping b key task.tid)
      (removed : ChunkSlab.Removed s.slab key task s'.slab)
      (count : s'.alg.suspendedCount = s.alg.suspendedCount) (tids : s'.nextTid = s.nextTid)

section Handles
variable {s : Wheel}

theorem register_change (wf : s.slab.WellFormed) (params : SpawnParams) :
    ∃ key, (s.alg.register (DynamicFuture.new s.nextTid params)).1 = some key ∧
      ChunkSlab.Inserted s.slab (DynamicFuture.new s.nextTid params) key
        (s.perform (.register params)).slab ∧
      (s.perform (.register params)).alg.suspendedCount =
        s.alg.suspendedCount + weight (isSuspended (DynamicFuture.new s.nextTid params)) := by
  obtain ⟨key, after, eq, inserted⟩ := ChunkSlab.insert_spec wf (DynamicFuture.new s.nextTid params) rfl
  have eq' : s.alg.registry.slab.insert (DynamicFuture.new s.nextTid params) = (.ok key, after) := eq
  refine ⟨key, ?_, ?_, ?_⟩
  · simp [UnorderedAlgorithm.register, Registry.insert, eq']
  · have same : (s.perform (.register params)).slab = after := by
      simp only [perform, slab, UnorderedAlgorithm.register, Registry.insert, eq']
      split <;> rfl
    exact same ▸ inserted
  · simp only [perform, UnorderedAlgorithm.register, Registry.insert, eq', isSuspended]
    cases decide ((DynamicFuture.new s.nextTid params).stopReason = .suspended) <;>
      simp [UnorderedAlgorithm.incSuspended]

theorem resume_cases (s : Wheel) (key : TaskKey) :
    s.alg.resume key = (false, s.alg) ∨
    ∃ task, s.get key = some task ∧ task.stopReason = .suspended ∧
      s.alg.resume key = (true, (s.alg.setStopReason key .none).decSuspended) := by
  unfold UnorderedAlgorithm.resume get
  cases s.alg.registry.get key with
  | none => exact Or.inl rfl
  | some task =>
    by_cases held : task.stopReason = .suspended
    · exact Or.inr ⟨task, rfl, held, if_pos held⟩
    · exact Or.inl (if_neg held)

theorem suspend_cases (s : Wheel) (key : TaskKey) :
    s.alg.suspend key = (false, s.alg) ∨
    ∃ task, s.get key = some task ∧ task.stopReason = .none ∧
      s.alg.suspend key = (true, (s.alg.setStopReason key .suspended).incSuspended) := by
  unfold UnorderedAlgorithm.suspend get
  cases s.alg.registry.get key with
  | none => exact Or.inl rfl
  | some task =>
    by_cases free : task.stopReason = .none
    · exact Or.inr ⟨task, rfl, free, if_pos free⟩
    · exact Or.inl (if_neg free)

theorem cancel_cases (s : Wheel) (key : TaskKey) :
    s.alg.cancel key = (false, s.alg) ∨
    ∃ task, s.get key = some task ∧ task.stopReason ≠ .cancelled ∧
      s.alg.cancel key = (true, if task.stopReason = .suspended
        then (s.alg.setStopReason key .cancelled).decSuspended
        else s.alg.setStopReason key .cancelled) := by
  unfold UnorderedAlgorithm.cancel get
  cases s.alg.registry.get key with
  | none => exact Or.inl rfl
  | some task =>
    by_cases live : task.stopReason ≠ .cancelled
    · exact Or.inr ⟨task, rfl, live, if_pos live⟩
    · exact Or.inl (if_neg live)

theorem storeRunnable_cases (s : Wheel) (target : TaskRef) :
    s.storeRunnable target = s ∨
    ∃ task, s.get target.key = some task ∧ task.tid = target.tid ∧
      s.storeRunnable target = s.update target.key (DynamicFuture.setRunnable true) := by
  unfold storeRunnable
  cases s.get target.key with
  | none => exact Or.inl rfl
  | some task =>
    by_cases same : task.tid = target.tid
    · exact Or.inr ⟨task, rfl, same, if_pos same⟩
    · exact Or.inl (if_neg same)

@[simp] theorem notifyWake_registry (s : Wheel) : s.notifyWake.alg.registry = s.alg.registry := by
  unfold notifyWake
  split <;> rfl

@[simp] theorem notifyWake_count (s : Wheel) :
    s.notifyWake.alg.suspendedCount = s.alg.suspendedCount := by
  unfold notifyWake
  split <;> rfl

@[simp] theorem notifyWake_nextTid (s : Wheel) : s.notifyWake.nextTid = s.nextTid := by
  unfold notifyWake
  split <;> rfl

@[simp] theorem notifyWake_pc (s : Wheel) : s.notifyWake.pc = s.pc := by
  unfold notifyWake
  split <;> rfl

@[simp] theorem storeRunnable_pc (s : Wheel) (target : TaskRef) :
    (s.storeRunnable target).pc = s.pc := by
  rcases storeRunnable_cases s target with no | ⟨task, found, identity, yes⟩
  · rw [no]
  · rw [yes]
    rfl

@[simp] theorem perform_pc (s : Wheel) (c : Call) : (s.perform c).pc = s.pc := by
  cases c <;> simp [perform, wake]

theorem perform_change (wf : s.slab.WellFormed) (c : Call) {s' : Wheel}
    (slab_eq : s'.slab = (s.perform c).slab)
    (count_eq : s'.alg.suspendedCount = (s.perform c).alg.suspendedCount)
    (tids_eq : s'.nextTid = (s.perform c).nextTid) (at_pc : s'.pc.pollingAt = s.pc.pollingAt) :
    Change s (.call c) s' := by
  cases c with
  | register params =>
    obtain ⟨key, answer, inserted, count⟩ := register_change wf params
    exact .spawn params key rfl answer (slab_eq ▸ inserted) (count_eq.trans count) tids_eq at_pc
  | suspend key =>
    rcases suspend_cases s key with no | ⟨task, found, free, yes⟩
    · exact .same (slab_eq.trans (by simp [perform, no, slab])) (by simp [count_eq, perform, no])
        (Nat.le_of_eq tids_eq.symm) at_pc
    · refine .reason key task .suspended found (Or.inr (Or.inl ⟨rfl, free, rfl⟩)) ?_ ?_ tids_eq at_pc
      · simp only [slab_eq, perform, yes]
        rfl
      · simp [count_eq, perform, yes, isSuspended, free, UnorderedAlgorithm.incSuspended,
          UnorderedAlgorithm.setStopReason]
  | resume key =>
    rcases resume_cases s key with no | ⟨task, found, held, yes⟩
    · exact .same (slab_eq.trans (by simp [perform, no, slab])) (by simp [count_eq, perform, no])
        (Nat.le_of_eq tids_eq.symm) at_pc
    · refine .reason key task .none found (Or.inl ⟨rfl, held, rfl⟩) ?_ ?_ tids_eq at_pc
      · simp only [slab_eq, perform, yes]
        rfl
      · simp [count_eq, perform, yes, isSuspended, held, UnorderedAlgorithm.decSuspended,
          UnorderedAlgorithm.setStopReason]
  | cancel key =>
    rcases cancel_cases s key with no | ⟨task, found, live, yes⟩
    · exact .same (slab_eq.trans (by simp [perform, no, slab])) (by simp [count_eq, perform, no])
        (Nat.le_of_eq tids_eq.symm) at_pc
    · refine .reason key task .cancelled found (Or.inr (Or.inr ⟨rfl, live, rfl⟩)) ?_ ?_ tids_eq at_pc
      · simp only [slab_eq, perform, yes]
        split <;> rfl
      · by_cases held : task.stopReason = .suspended <;>
          simp [count_eq, perform, yes, isSuspended, held, UnorderedAlgorithm.decSuspended,
            UnorderedAlgorithm.setStopReason]
  | wake target =>
    rcases storeRunnable_cases s.notifyWake target with no | ⟨task, found, identity, yes⟩
    · exact .same (slab_eq.trans (by simp [perform, wake, no, slab]))
        (by simp [count_eq, perform, wake, no])
        (by simp [tids_eq, perform, wake, no]) at_pc
    · have found' : s.get target.key = some task := by simpa [get] using found
      refine .wake target task found' identity (Or.inl rfl) ?_ ?_ ?_ at_pc
      · rw [slab_eq]
        simp [perform, wake, yes, slab, update, withRegistry, Registry.update]
      · simp [count_eq, perform, wake, yes, update, withRegistry]
      · simp [tids_eq, perform, wake, yes, update, withRegistry]
  | getState key => exact .same slab_eq count_eq (Nat.le_of_eq tids_eq.symm) at_pc
  | getByName name => exact .same slab_eq count_eq (Nat.le_of_eq tids_eq.symm) at_pc
  | registeredCount => exact .same slab_eq count_eq (Nat.le_of_eq tids_eq.symm) at_pc

end Handles

section Frames

@[simp] theorem borrowOpt_slab (s : Wheel) (ref : Option Tid) : (s.borrowOpt ref).slab = s.slab := by
  cases ref <;> rfl

@[simp] theorem borrowOpt_pc (s : Wheel) (ref : Option Tid) : (s.borrowOpt ref).pc = s.pc := by
  cases ref <;> rfl

@[simp] theorem borrowOpt_count (s : Wheel) (ref : Option Tid) :
    (s.borrowOpt ref).alg.suspendedCount = s.alg.suspendedCount := by
  cases ref <;> rfl

@[simp] theorem borrowOpt_nextTid (s : Wheel) (ref : Option Tid) :
    (s.borrowOpt ref).nextTid = s.nextTid := by
  cases ref <;> rfl

@[simp] theorem releaseOpt_slab (s : Wheel) (ref : Option Tid) : (s.releaseOpt ref).slab = s.slab := by
  cases ref <;> rfl

@[simp] theorem releaseOpt_pc (s : Wheel) (ref : Option Tid) : (s.releaseOpt ref).pc = s.pc := by
  cases ref <;> rfl

@[simp] theorem releaseOpt_count (s : Wheel) (ref : Option Tid) :
    (s.releaseOpt ref).alg.suspendedCount = s.alg.suspendedCount := by
  cases ref <;> rfl

@[simp] theorem releaseOpt_nextTid (s : Wheel) (ref : Option Tid) :
    (s.releaseOpt ref).nextTid = s.nextTid := by
  cases ref <;> rfl

/-- Whatever `releaseOpt` keeps, closing a stack of closures keeps. -/
theorem foldl_releaseOpt {α : Type} (f : Wheel → α) (keeps : ∀ s ref, f (releaseOpt s ref) = f s)
    (refs : List (Option Tid)) (s : Wheel) : f (refs.foldl releaseOpt s) = f s := by
  induction refs generalizing s with
  | nil => rfl
  | cons ref refs ih => rw [List.foldl_cons, ih, keeps]

@[simp] theorem closeInner_slab (s : Wheel) : s.closeInner.slab = s.slab :=
  foldl_releaseOpt slab releaseOpt_slab s.inner s

@[simp] theorem closeInner_pc (s : Wheel) : s.closeInner.pc = s.pc :=
  foldl_releaseOpt pc releaseOpt_pc s.inner s

@[simp] theorem closeInner_count (s : Wheel) :
    s.closeInner.alg.suspendedCount = s.alg.suspendedCount :=
  foldl_releaseOpt (fun s => s.alg.suspendedCount) releaseOpt_count s.inner s

@[simp] theorem closeInner_nextTid (s : Wheel) : s.closeInner.nextTid = s.nextTid :=
  foldl_releaseOpt nextTid releaseOpt_nextTid s.inner s

end Frames

theorem wakeStep_change {s s' : Wheel} {i : Nat} (h : s.wakeStep i = some s') :
    Change s (.wakeStep i) s' := by
  unfold wakeStep at h
  split at h
  · cases h
  · cases h
    exact .same rfl rfl (Nat.le_refl _) rfl
  · cases h
    exact .same rfl rfl (Nat.le_refl _) rfl
  · rename_i target here
    cases h
    rcases storeRunnable_cases s target with no | ⟨task, found, identity, yes⟩
    · rw [no]
      exact .same rfl rfl (Nat.le_refl _) rfl
    · rw [yes]
      exact .wake target task found identity (Or.inr ⟨i, rfl, here⟩) rfl rfl rfl rfl

/-- The parts of the state that the classification is about, apart from the range of
identities, are untouched. -/
def SameTasks (s s' : Wheel) : Prop :=
  s'.slab = s.slab ∧ s'.alg.suspendedCount = s.alg.suspendedCount ∧ s'.nextTid = s.nextTid ∧
    s'.pc.pollingAt = s.pc.pollingAt

theorem withName_same {s s' : Wheel} {key : TaskKey} (h : s.withName key = some s') :
    SameTasks s s' := by
  unfold withName at h
  split at h
  all_goals cases h
  · exact ⟨borrowOpt_slab s _, borrowOpt_count s _, borrowOpt_nextTid s _, by simp⟩
  · rename_i pc
    exact ⟨borrowOpt_slab s _, borrowOpt_count s _, borrowOpt_nextTid s _, by simp [pc, Pc.pollingAt]⟩
  · exact ⟨borrowOpt_slab s _, borrowOpt_count s _, borrowOpt_nextTid s _, by simp⟩
  · exact ⟨borrowOpt_slab s _, borrowOpt_count s _, borrowOpt_nextTid s _, by simp⟩

theorem withNameEnd_same {s s' : Wheel} (h : s.withNameEnd = some s') : SameTasks s s' := by
  unfold withNameEnd at h
  split at h
  all_goals cases h
  · exact ⟨releaseOpt_slab s _, releaseOpt_count s _, releaseOpt_nextTid s _, by simp⟩
  · rename_i pc _
    exact ⟨releaseOpt_slab s _, releaseOpt_count s _, releaseOpt_nextTid s _,
      by simp [pc, Pc.pollingAt]⟩
  · exact ⟨releaseOpt_slab s _, releaseOpt_count s _, releaseOpt_nextTid s _, by simp⟩
  · exact ⟨releaseOpt_slab s _, releaseOpt_count s _, releaseOpt_nextTid s _, by simp⟩

theorem visit_same (s : Wheel) (b : Beat) (key : TaskKey) :
    (s.visit b key).slab = s.slab ∧ (s.visit b key).alg.suspendedCount = s.alg.suspendedCount ∧
      (s.visit b key).nextTid = s.nextTid ∧ (s.visit b key).pc.pollingAt = none := by
  unfold visit
  split
  · exact ⟨rfl, rfl, rfl, rfl⟩
  · split
    · split <;> exact ⟨rfl, rfl, rfl, rfl⟩
    · split <;> exact ⟨rfl, rfl, rfl, rfl⟩

theorem endBeat_same (s : Wheel) (b : Beat) :
    (s.endBeat b).slab = s.slab ∧ (s.endBeat b).alg.suspendedCount = s.alg.suspendedCount ∧
      (s.endBeat b).nextTid = s.nextTid ∧ (s.endBeat b).pc.pollingAt = none := by
  unfold endBeat
  split
  · exact ⟨rfl, rfl, rfl, rfl⟩
  · exact ⟨rfl, rfl, rfl, rfl⟩
  · exact ⟨rfl, rfl, rfl, rfl⟩
  · dsimp only
    split <;> exact ⟨rfl, rfl, rfl, rfl⟩

theorem pollLocal_change {s : Wheel} {b : Beat} {key : TaskKey} {tid : Tid}
    (pc : s.pc = .chosen b key tid) : Change s .run (s.pollLocal b key tid) := by
  unfold pollLocal
  split
  · exact .same rfl rfl (Nat.le_refl _) (by rw [pc]; rfl)
  · rename_i task found
    split
    · exact .same rfl rfl (Nat.le_refl _) (by rw [pc]; rfl)
    · exact .pollBegin b key tid task rfl pc found rfl rfl rfl rfl

theorem remove_change {s : Wheel} {b : Beat} {key : TaskKey} {tid : Tid} (wf : s.slab.WellFormed)
    (pc : s.pc = .removing b key tid) : Change s .run (s.remove b key) := by
  unfold remove Registry.remove
  cases found : s.get key with
  | none =>
    have none : s.alg.registry.slab.remove key = (none, s.alg.registry.slab) :=
      ChunkSlab.remove_none found
    simp only [none]
    exact .same rfl rfl (Nat.le_refl _) (by rw [pc]; rfl)
  | some task =>
    obtain ⟨after, eq, removed⟩ := ChunkSlab.remove_some wf found
    have eq' : s.alg.registry.slab.remove key = (some task, after) := eq
    simp only [eq']
    exact .remove b key tid task rfl pc found rfl removed rfl rfl

theorem run_change {s s' : Wheel} (wf : s.slab.WellFormed) (h : s.run = some s') :
    Change s .run s' := by
  unfold run at h
  split at h
  · rename_i pc
    cases h
    exact .same rfl rfl (Nat.le_refl _) (by rw [pc]; rfl)
  · rename_i b key pc
    cases h
    split
    · obtain ⟨slab, count, tids, at_pc⟩ := visit_same s b key
      exact .same slab count (Nat.le_of_eq tids.symm) (by rw [at_pc, pc]; rfl)
    · obtain ⟨slab, count, tids, at_pc⟩ := endBeat_same s b
      exact .same slab count (Nat.le_of_eq tids.symm) (by rw [at_pc, pc]; rfl)
  · rename_i b key tid pc
    cases h
    exact pollLocal_change pc
  · rename_i b key tid pc
    cases h
    exact remove_change wf pc
  · rename_i pc
    cases h
    exact .same rfl rfl (Nat.le_refl _) (by rw [pc]; rfl)
  · rename_i pc
    cases h
    exact .same rfl rfl (Nat.le_refl _) (by rw [pc]; rfl)
  · cases h

/-- Every step of the wheel changes the registry in one of the listed ways. -/
theorem step_change {s s' : Wheel} {e : Event} (wf : s.slab.WellFormed)
    (h : s.step e = some s') : Change s e s' := by
  cases e with
  | call c =>
    simp only [step, call] at h
    split at h
    · cases h
      exact perform_change wf c rfl rfl rfl (by simp)
    · rename_i pc
      cases h
      exact perform_change wf c rfl rfl rfl (by simp [pc, goto, Pc.pollingAt])
    · cases h
      exact perform_change wf c rfl rfl rfl (by simp)
    · rename_i pc
      cases h
      exact perform_change wf c rfl rfl rfl (by simp [pc, goto, Pc.pollingAt])
    · cases h
  | withName key =>
    obtain ⟨slab, count, tids, at_pc⟩ := withName_same h
    exact .same slab count (Nat.le_of_eq tids.symm) at_pc
  | withNameEnd =>
    obtain ⟨slab, count, tids, at_pc⟩ := withNameEnd_same h
    exact .same slab count (Nat.le_of_eq tids.symm) at_pc
  | wakeBegin target =>
    cases h
    exact .same rfl rfl (Nat.le_refl _) rfl
  | wakeStep i => exact wakeStep_change h
  | poll w =>
    simp only [step, poll] at h
    split at h
    · rename_i pc
      cases h
      exact .same rfl rfl (Nat.le_refl _) (by rw [pc]; rfl)
    · rename_i pc
      cases h
      exact .same rfl rfl (Nat.le_refl _) (by rw [pc]; rfl)
    · cases h
  | run => exact run_change wf h
  | done isReady =>
    simp only [step, done] at h
    split at h
    · rename_i b key tid pc inner
      cases h
      exact .pollEnd b key tid (Or.inr ⟨isReady, rfl⟩) pc rfl rfl rfl (by cases isReady <;> rfl)
    · cases h
  | dropped =>
    simp only [step, dropped] at h
    split at h
    · rename_i pc _
      cases h
      exact .same rfl rfl (Nat.le_refl _) (by rw [pc]; rfl)
    · cases h
  | panic =>
    simp only [step, panic] at h
    split at h
    · rename_i b key tid pc
      cases h
      refine .pollEnd b key tid (Or.inl rfl) pc ?_ (closeInner_count s) (closeInner_nextTid s) rfl
      rw [← closeInner_slab s]
      rfl
    · rename_i pc
      cases h
      exact .same (closeInner_slab s) (closeInner_count s) (Nat.le_of_eq (closeInner_nextTid s).symm)
        (by rw [pc]; rfl)
    · cases h
end Wheel
end Juggle.Dy
