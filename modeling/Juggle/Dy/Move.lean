import Juggle.Dy.Change

/-! Where one step takes the polling thread. Together with the classification of what
happens to the registry it is all that the invariants need to know of a step. -/
namespace Juggle.Dy
open Juggle.Utils

namespace Wheel

/-- How far the last call of `beat_once` decides what `poll_internal` does next. -/
inductive Ended (s : Wheel) (b : Beat) : Pc → Prop where
  | register (first : b.second = false) (quiet : b.anyPoll = false) : Ended s b .register
  | clear (second : b.second = true) (busy : b.anyPoll = true) : Ended s b .clear
  | finish (second : b.second = true) (quiet : b.anyPoll = false)
      (sleeps : s.slab.len = 0 ∨ s.slab.len = s.alg.suspendedCount) :
      Ended s b (.finish (decide (s.slab.len = 0)))
  | pending (second : b.second = true) (quiet : b.anyPoll = false)
      (waits : ¬ (s.slab.len = 0 ∨ s.slab.len = s.alg.suspendedCount)) :
      Ended s b (.returned .pending)

/-- A call of `beat_once` starts. -/
inductive Begins (s : Wheel) : Bool → Prop where
  | clear (pc : s.pc = .clear) : Begins s false
  | register (pc : s.pc = .register) : Begins s true
  | again (b : Beat) (key : TaskKey) (pc : s.pc = .sweep b key) (past : b.cap ≤ key)
      (first : b.second = false) (busy : b.anyPoll = true) : Begins s false

inductive Move (s : Wheel) (e : Event) (s' : Wheel) : Prop where
  | stay (pc' : s'.pc = s.pc) (beats : s'.beats = s.beats) (quiet : e ≠ .run)
  | leave (v : Verdict) (pc : s.pc = .returned v) (pc' : s'.pc = .idle) (beats : s'.beats = s.beats)
      (quiet : e ≠ .run)
  | note (b : Beat) (key : TaskKey) (tid : Tid) (c : Call) (event : e = .call c)
      (pc : s.pc = .dropping b key tid)
      (pc' : s'.pc = .dropping { b with late := b.late || s.isLate b key c } key tid)
      (beats : s'.beats = s.beats)
  | enter (w : Waker) (event : e = .poll w) (pc : s.pc = .idle ∨ ∃ v, s.pc = .returned v)
      (pc' : s'.pc = .clear) (beats : s'.beats = s.beats)
  | begins (second : Bool) (event : e = .run) (begins : Begins s second)
      (pc' : s'.pc = .sweep ⟨second, false, s.slab.capacity, false⟩ 0) (beats : s'.beats = s.beats + 1)
  | skip (b : Beat) (key : TaskKey) (event : e = .run) (pc : s.pc = .sweep b key)
      (inside : key < b.cap) (rest : s.hasWork key = false) (pc' : s'.pc = .sweep b (key + 1))
      (beats : s'.beats = s.beats)
  | choose (b : Beat) (key : TaskKey) (task : DynamicFuture) (event : e = .run)
      (pc : s.pc = .sweep b key) (inside : key < b.cap) (found : s.get key = some task)
      (reason : task.stopReason = .none) (runnable : task.runnable = true)
      (pc' : s'.pc = .chosen b key task.tid) (beats : s'.beats = s.beats)
  | condemn (b : Beat) (key : TaskKey) (task : DynamicFuture) (event : e = .run)
      (pc : s.pc = .sweep b key) (inside : key < b.cap) (found : s.get key = some task)
      (reason : task.stopReason = .cancelled) (pc' : s'.pc = .removing b key task.tid)
      (beats : s'.beats = s.beats)
  | ended (b : Beat) (key : TaskKey) (event : e = .run) (pc : s.pc = .sweep b key)
      (past : b.cap ≤ key) (ended : Ended s b s'.pc) (beats : s'.beats = s.beats)
  | pollBegin (b : Beat) (key : TaskKey) (tid : Tid) (event : e = .run) (pc : s.pc = .chosen b key tid)
      (pc' : s'.pc = .polling { b with anyPoll := true } key tid) (beats : s'.beats = s.beats)
  | pending (b : Beat) (key : TaskKey) (tid : Tid) (event : e = .done false)
      (pc : s.pc = .polling b key tid) (pc' : s'.pc = .sweep b (key + 1)) (beats : s'.beats = s.beats)
  | ready (b : Beat) (key : TaskKey) (tid : Tid) (event : e = .done true)
      (pc : s.pc = .polling b key tid) (pc' : s'.pc = .removing b key tid) (beats : s'.beats = s.beats)
  | removed (b : Beat) (key : TaskKey) (tid tid' : Tid) (event : e = .run)
      (pc : s.pc = .removing b key tid) (pc' : s'.pc = .dropping b key tid') (beats : s'.beats = s.beats)
  | dropped (b : Beat) (key : TaskKey) (tid : Tid) (event : e = .dropped)
      (pc : s.pc = .dropping b key tid) (pc' : s'.pc = .sweep b (key + 1)) (beats : s'.beats = s.beats)
  | answer (finished : Bool) (event : e = .run) (pc : s.pc = .finish finished)
      (pc' : s'.pc = .returned (.ready finished)) (beats : s'.beats = s.beats)
  | unwound (event : e = .panic) (pc' : s'.pc = .idle) (beats : s'.beats = s.beats)
  /-- the two panics of the wheel itself -/
  | broken (event : e = .run)
      (lost : (∃ b key tid, s.pc = .removing b key tid ∧ s.get key = none) ∨
        ∃ b key tid, s.pc = .chosen b key tid ∧ ∀ task, s.get key = some task → task.polling = true)
      (pc' : s'.pc = .idle) (beats : s'.beats = s.beats)

@[simp] theorem notifyWake_beats (s : Wheel) : s.notifyWake.beats = s.beats := by
  unfold notifyWake
  split <;> rfl

@[simp] theorem storeRunnable_beats (s : Wheel) (target : TaskRef) :
    (s.storeRunnable target).beats = s.beats := by
  rcases storeRunnable_cases s target with no | ⟨task, found, identity, yes⟩
  · rw [no]
  · rw [yes]
    rfl

@[simp] theorem perform_beats (s : Wheel) (c : Call) : (s.perform c).beats = s.beats := by
  cases c <;> simp [perform, wake]

@[simp] theorem borrowOpt_beats (s : Wheel) (ref : Option Tid) :
    (s.borrowOpt ref).beats = s.beats := by
  cases ref <;> rfl

@[simp] theorem releaseOpt_beats (s : Wheel) (ref : Option Tid) :
    (s.releaseOpt ref).beats = s.beats := by
  cases ref <;> rfl

@[simp] theorem closeInner_beats (s : Wheel) : s.closeInner.beats = s.beats :=
  foldl_releaseOpt beats releaseOpt_beats s.inner s

theorem call_move {s s' : Wheel} {c : Call} (h : s.call c = some s') : Move s (.call c) s' := by
  unfold call at h
  split at h
  · cases h
    exact .stay (perform_pc s c) (perform_beats s c) nofun
  · rename_i v pc
    cases h
    exact .leave v pc rfl (perform_beats s c) nofun
  · cases h
    exact .stay (perform_pc s c) (perform_beats s c) nofun
  · rename_i b key tid pc
    cases h
    exact .note b key tid c rfl pc rfl (perform_beats s c)
  · cases h

theorem withName_move {s s' : Wheel} {key : TaskKey} (h : s.withName key = some s') :
    Move s (.withName key) s' := by
  unfold withName at h
  split at h
  all_goals cases h
  · exact .stay (borrowOpt_pc s _) (borrowOpt_beats s _) nofun
  · rename_i v pc
    exact .leave v pc rfl (borrowOpt_beats s _) nofun
  · exact .stay (borrowOpt_pc s _) (borrowOpt_beats s _) nofun
  · exact .stay (borrowOpt_pc s _) (borrowOpt_beats s _) nofun

theorem withNameEnd_move {s s' : Wheel} (h : s.withNameEnd = some s') :
    Move s .withNameEnd s' := by
  unfold withNameEnd at h
  split at h
  all_goals cases h
  · exact .stay (releaseOpt_pc s _) (releaseOpt_beats s _) nofun
  · rename_i v _ _ pc _
    exact .leave v pc rfl (releaseOpt_beats s _) nofun
  · exact .stay (releaseOpt_pc s _) (releaseOpt_beats s _) nofun
  · exact .stay (releaseOpt_pc s _) (releaseOpt_beats s _) nofun

theorem wakeStep_move {s s' : Wheel} {i : Nat} (h : s.wakeStep i = some s') :
    Move s (.wakeStep i) s' := by
  unfold wakeStep at h
  split at h
  · cases h
  · cases h
    exact .stay rfl rfl nofun
  · cases h
    exact .stay rfl rfl nofun
  · cases h
    exact .stay (storeRunnable_pc s _) (storeRunnable_beats s _) nofun

theorem visit_move {s : Wheel} {b : Beat} {key : TaskKey} (pc : s.pc = .sweep b key)
    (inside : key < b.cap) : Move s .run (s.visit b key) := by
  unfold visit
  cases found : s.get key with
  | none => exact .skip b key rfl pc inside (by simp [hasWork, found]) rfl rfl
  | some task =>
    dsimp only
    split
    · rename_i barred
      split
      · rename_i cancelled
        exact .condemn b key task rfl pc inside found cancelled rfl rfl
      · rename_i live
        exact .skip b key rfl pc inside (by simp_all [hasWork]) rfl rfl
    · rename_i allowed
      have reason : task.stopReason = .none := by simpa [StopReason.isPollAllowed] using allowed
      split
      · rename_i waiting
        exact .skip b key rfl pc inside (by simp_all [hasWork]) rfl rfl
      · rename_i runnable
        exact .choose b key task rfl pc inside found reason (by simpa using runnable) rfl rfl

theorem endBeat_move {s : Wheel} {b : Beat} {key : TaskKey} (pc : s.pc = .sweep b key)
    (past : b.cap ≤ key) : Move s .run (s.endBeat b) := by
  unfold endBeat
  split
  · rename_i first busy
    exact .begins false rfl (.again b key pc past first busy) rfl rfl
  · rename_i first quiet
    exact .ended b key rfl pc past (.register first quiet) rfl
  · rename_i second busy
    exact .ended b key rfl pc past (.clear second busy) rfl
  · rename_i second quiet
    dsimp only
    split
    · rename_i sleeps
      exact .ended b key rfl pc past (.finish second quiet sleeps) rfl
    · rename_i waits
      exact .ended b key rfl pc past (.pending second quiet waits) rfl

theorem pollLocal_move {s : Wheel} {b : Beat} {key : TaskKey} {tid : Tid}
    (pc : s.pc = .chosen b key tid) : Move s .run (s.pollLocal b key tid) := by
  unfold pollLocal
  cases found : s.get key with
  | none => exact .broken rfl (Or.inr ⟨b, key, tid, pc, by simp [found]⟩) rfl rfl
  | some task =>
    dsimp only
    split
    · rename_i nested
      exact .broken rfl (Or.inr ⟨b, key, tid, pc, by simp [found, nested]⟩) rfl rfl
    · exact .pollBegin b key tid rfl pc rfl rfl

theorem remove_move {s : Wheel} {b : Beat} {key : TaskKey} {tid : Tid} (wf : s.slab.WellFormed)
    (pc : s.pc = .removing b key tid) : Move s .run (s.remove b key) := by
  unfold remove Registry.remove
  cases found : s.get key with
  | none =>
    have none : s.alg.registry.slab.remove key = (none, s.alg.registry.slab) :=
      ChunkSlab.remove_none found
    simp only [none]
    exact .broken rfl (Or.inl ⟨b, key, tid, pc, found⟩) rfl rfl
  | some task =>
    obtain ⟨after, eq, removed⟩ := ChunkSlab.remove_some wf found
    have eq' : s.alg.registry.slab.remove key = (some task, after) := eq
    simp only [eq']
    exact .removed b key tid task.tid rfl pc rfl rfl

theorem run_move {s s' : Wheel} (wf : s.slab.WellFormed) (h : s.run = some s') : Move s .run s' := by
  unfold run at h
  split at h
  · rename_i pc
    cases h
    exact .begins false rfl (.clear pc) rfl rfl
  · rename_i b key pc
    cases h
    split
    · rename_i inside
      exact visit_move pc inside
    · rename_i past
      exact endBeat_move pc (Nat.le_of_not_lt past)
  · rename_i b key tid pc
    cases h
    exact pollLocal_move pc
  · rename_i b key tid pc
    cases h
    exact remove_move wf pc
  · rename_i pc
    cases h
    exact .begins true rfl (.register pc) rfl rfl
  · rename_i finished pc
    cases h
    exact .answer finished rfl pc rfl rfl
  · cases h

theorem step_move {s s' : Wheel} {e : Event} (wf : s.slab.WellFormed)
    (h : s.step e = some s') : Move s e s' := by
  cases e with
  | call c => exact call_move h
  | withName key => exact withName_move h
  | withNameEnd => exact withNameEnd_move h
  | wakeBegin target =>
    cases h
    exact .stay rfl rfl nofun
  | wakeStep i => exact wakeStep_move h
  | poll w =>
    simp only [step, poll] at h
    split at h
    · rename_i pc
      cases h
      exact .enter w rfl (Or.inl pc) rfl rfl
    · rename_i v pc
      cases h
      exact .enter w rfl (Or.inr ⟨v, pc⟩) rfl rfl
    · cases h
  | run => exact run_move wf h
  | done isReady =>
    simp only [step, done] at h
    split at h
    · rename_i b key tid pc inner
      cases h
      cases isReady with
      | true => exact .ready b key tid rfl pc rfl rfl
      | false => exact .pending b key tid rfl pc rfl rfl
    · cases h
  | dropped =>
    simp only [step, dropped] at h
    split at h
    · rename_i b key tid pc inner
      cases h
      exact .dropped b key tid rfl pc rfl rfl
    · cases h
  | panic =>
    simp only [step, panic] at h
    split at h
    · cases h
      exact .unwound rfl rfl (closeInner_beats s)
    · cases h
      exact .unwound rfl rfl (closeInner_beats s)
    · cases h

end Wheel
end Juggle.Dy
