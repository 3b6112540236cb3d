import Juggle.Dy.Invariant

/-! The counter behind `SuspendError`. Over every run the counter of suspended tasks is
their number plus the number of suspended tasks the sweep has removed; where no poll
finishes a suspended task, the answer of `poll_internal` is the one the registry gives. -/
namespace Juggle.Dy
open Juggle.Utils Juggle.Count Juggle.Runs

namespace Wheel

def heldSuspended (s : Wheel) (key : TaskKey) : Bool := (s.get key).any isSuspended

/-- The sweep removes a task whose stop reason is `Suspended`. -/
def removesSuspended (s : Wheel) : Event → Bool
  | .run =>
    match s.pc with
    | .removing _ key _ => s.heldSuspended key
    | _ => false
  | _ => false

/-- A poll returns `Ready` while the stop reason of its own task is `Suspended`. -/
def finishesSuspended (s : Wheel) : Event → Bool
  | .done true =>
    match s.pc with
    | .polling _ key _ => s.heldSuspended key
    | _ => false
  | _ => false

def Drift (d : Nat) (s : Wheel) : Prop := s.alg.suspendedCount = s.slab.count isSuspended + d

section Counter
variable {s s' : Wheel} {e : Event} {d : Nat}

theorem removesSuspended_removing (h : s.removesSuspended e = true) :
    ∃ b key tid task, e = .run ∧ s.pc = .removing b key tid ∧ s.get key = some task := by
  cases e with
  | run =>
    cases pc : s.pc with
    | removing b key tid =>
      simp only [removesSuspended, pc, heldSuspended, Option.any_eq_true] at h
      obtain ⟨task, found, _⟩ := h
      exact ⟨b, key, tid, task, rfl, rfl, found⟩
    | _ => simp [removesSuspended, pc] at h
  | _ => simp [removesSuspended] at h

theorem drift_step (con : Consistent s) (drift : Drift d s) (h : s.step e = some s') :
    Drift (d + if s.removesSuspended e then 1 else 0) s' := by
  unfold Drift at drift ⊢
  -- a step that keeps the entry in hand removes nothing
  have silent : (∀ b key tid, e = .run → s.pc = .removing b key tid → s'.get key = none → False) →
      s.removesSuspended e = false := by
    intro kept
    by_contra loses
    obtain ⟨b, key, tid, task, rfl, pc, found⟩ := removesSuspended_removing (by simpa using loses)
    obtain ⟨_, _, _, removed, _⟩ := remove_found con pc h
    exact kept b key tid rfl pc removed.gone
  cases step_change con.wf h with
  | same slab count tids at_pc =>
    have rest : s.removesSuspended e = false := by
      apply silent
      intro b key tid run pc gone
      obtain ⟨task, found, _⟩ := con.subject key tid (by rw [pc]; rfl)
      have kept : s'.get key = s.get key := congrArg (fun slab => slab.get key) slab
      rw [kept, found] at gone
      cases gone
    simp [rest, slab, count, drift]
  | spawn params key event answer inserted count tids at_pc =>
    have rest : s.removesSuspended e = false := by rw [event]; rfl
    have total := inserted.count isSuspended
    simp only [rest, count, total]
    simp
    omega
  | reason key task r found request slab count tids at_pc =>
    have rest : s.removesSuspended e = false := by
      rcases request with ⟨_, _, event⟩ | ⟨_, _, event⟩ | ⟨_, _, event⟩ <;> rw [event] <;> rfl
    have total : (s.slab.update key (DynamicFuture.setStopReason r)).count isSuspended +
        weight (isSuspended task) = s.slab.count isSuspended +
          weight (isSuspended (DynamicFuture.setStopReason r task)) :=
      ChunkSlab.count_update isSuspended (DynamicFuture.setStopReason r) found
    have now : isSuspended (DynamicFuture.setStopReason r task) = decide (r = .suspended) := rfl
    rw [← slab, now] at total
    simp only [rest, count]
    simp
    omega
  | wake target task found identity event slab count tids at_pc =>
    have rest : s.removesSuspended e = false := by
      rcases event with event | ⟨i, event, _⟩ <;> rw [event] <;> rfl
    have same := ChunkSlab.count_update_same s.slab isSuspended target.key
      (f := DynamicFuture.setRunnable true) (fun _ => rfl)
    simp [rest, slab, count, same, drift]
  | pollBegin b key tid task event pc found pc' slab count tids =>
    have rest : s.removesSuspended e = false := by rw [event]; simp [removesSuspended, pc]
    have same := ChunkSlab.count_update_same s.slab isSuspended key
      (f := fun t => (t.setPolling true).setRunnable false) (fun _ => rfl)
    simp [rest, slab, count, same, drift]
  | pollEnd b key tid event pc slab count tids at_pc =>
    have rest : s.removesSuspended e = false := by
      rcases event with event | ⟨r, event⟩ <;> rw [event] <;> rfl
    have same := ChunkSlab.count_update_same s.slab isSuspended key
      (f := DynamicFuture.setPolling false) (fun _ => rfl)
    simp [rest, slab, count, same, drift]
  | remove b key tid task event pc found pc' removed count tids =>
    have loses : s.removesSuspended e = isSuspended task := by
      rw [event]
      simp [removesSuspended, pc, heldSuspended, found]
    have total := removed.count isSuspended
    rw [loses, count, drift]
    change s.slab.count isSuspended + d = s'.slab.count isSuspended + (d + weight (isSuspended task))
    omega

/-- The task about to be removed is not suspended unless its poll finished it so. -/
def RemovesAwake (s : Wheel) : Prop :=
  ∀ b key tid, s.pc = .removing b key tid → s.heldSuspended key = false

theorem removesAwake_step (con : Consistent s) (awake : RemovesAwake s) (h : s.step e = some s')
    (fine : s.finishesSuspended e = false) : RemovesAwake s' := by
  intro b key tid pc'
  have look := (step_change con.wf h).look key
  cases step_move con.wf h with
  | stay pc'' beats quiet =>
    have pc : s.pc = .removing b key tid := pc''.symm.trans pc'
    have before := awake b key tid pc
    rcases look.closed h (by rw [pc]; rfl) quiet with same | ⟨task, found, eq⟩
    · simpa [heldSuspended, same] using before
    · simpa [heldSuspended, eq, found, DynamicFuture.setRunnable, isSuspended] using before
  | condemn b' key' task event pc inside found reason pc'' beats =>
    rw [pc''] at pc'
    cases pc'
    subst event
    simp [heldSuspended, look.sweeping pc, found, isSuspended, reason]
  | ready b' key' tid' event pc pc'' beats =>
    rw [pc''] at pc'
    cases pc'
    subst event
    have before : s.heldSuspended key = false := by simpa [finishesSuspended, pc] using fine
    rcases look.finished with same | same
    · simpa [heldSuspended, same] using before
    · rw [heldSuspended, same, Option.any_map]
      exact before
  | ended b' key' event pc past ended beats =>
    rw [pc'] at ended
    cases ended
  | _ => simp_all

end Counter

/-- In every run the counter exceeds the number of suspended tasks by the number of
suspended tasks that the sweep has removed; so it is never lowered at zero. -/
theorem suspendedCount_run {s : Wheel} {es : List Event} (run : exec step new es = some s) :
    s.alg.suspendedCount = s.slab.count isSuspended + tally step removesSuspended new es := by
  have both : ∀ n r e t, Consistent r ∧ Drift n r → step r e = some t →
      Consistent t ∧ Drift (n + if r.removesSuspended e then 1 else 0) t :=
    fun n r e t inv h => ⟨step_consistent inv.1 h, drift_step inv.1 inv.2 h⟩
  have start : Consistent new ∧ Drift 0 new := ⟨new_consistent, rfl⟩
  have final := tally_invariant (I := fun n r => Consistent r ∧ Drift n r) both start run
  have value := final.2
  unfold Drift at value
  omega

theorem suspendedCount_exact {s : Wheel} {es : List Event} (run : exec step new es = some s)
    (fine : Along step (fun s e _ => s.finishesSuspended e = false) new es) :
    s.alg.suspendedCount = s.slab.count isSuspended := by
  have kept : ∀ r e t, Consistent r ∧ RemovesAwake r → step r e = some t →
      r.finishesSuspended e = false →
      (Consistent t ∧ RemovesAwake t) ∧ r.removesSuspended e = false := by
    intro r e t inv h good
    refine ⟨⟨step_consistent inv.1 h, removesAwake_step inv.1 inv.2 h good⟩, ?_⟩
    cases e with
    | run =>
      cases pc : r.pc with
      | removing b key tid => simpa [removesSuspended, pc] using inv.2 b key tid pc
      | _ => simp [removesSuspended, pc]
    | _ => rfl
  have start : Consistent new ∧ RemovesAwake new := ⟨new_consistent, nofun⟩
  have none := tally_eq_zero (along_of_invariant kept start fine)
  have total := suspendedCount_run run
  omega

/-- The verdict follows from the counter, from the decision on until the call that ends it. -/
structure Decided (s : Wheel) : Prop where
  ready : ∀ f, s.pc = .finish f ∨ s.pc = .returned (.ready f) →
    f = decide (s.slab.len = 0) ∧ (s.slab.len = 0 ∨ s.slab.len = s.alg.suspendedCount)
  pending : s.pc = .returned .pending →
    ¬ (s.slab.len = 0 ∨ s.slab.len = s.alg.suspendedCount)

/-- Only handle calls and removals change how many tasks there are and the counter. -/
theorem Change.numbers {s s' : Wheel} {e : Event} (change : Change s e s')
    (silent : ∀ c, e ≠ .call c) (rest : ∀ b key tid, s.pc ≠ .removing b key tid) :
    s'.slab.len = s.slab.len ∧ s'.alg.suspendedCount = s.alg.suspendedCount := by
  cases change with
  | same slab count tids at_pc => exact ⟨congrArg ChunkSlab.len slab, count⟩
  | spawn params key event => exact absurd event (silent _)
  | reason key task r found request slab count tids at_pc =>
    rcases request with ⟨_, _, event⟩ | ⟨_, _, event⟩ | ⟨_, _, event⟩
    · exact absurd event (silent _)
    · exact absurd event (silent _)
    · exact absurd event (silent _)
  | wake target task found identity event slab count tids at_pc =>
    exact ⟨by rw [slab, ChunkSlab.len_update], count⟩
  | pollBegin b key tid task event pc found pc' slab count tids =>
    exact ⟨by rw [slab, ChunkSlab.len_update], count⟩
  | pollEnd b key tid event pc slab count tids at_pc =>
    exact ⟨by rw [slab, ChunkSlab.len_update], count⟩
  | remove b key tid task event pc => exact absurd pc (rest b key tid)

theorem call_leaves {s s' : Wheel} {c : Call} {v : Verdict} (h : s.step (.call c) = some s')
    (pc : s.pc = .returned v) : s'.pc = .idle := by
  simp only [step, call, pc] at h
  cases h
  rfl

theorem decided_step {s s' : Wheel} {e : Event} (con : Consistent s) (decided : Decided s)
    (h : s.step e = some s') : Decided s' := by
  have change := step_change con.wf h
  cases step_move con.wf h with
  | stay pc' beats quiet =>
    have kept : ∀ f v, s.pc = .finish f ∨ s.pc = .returned v →
        s'.slab.len = s.slab.len ∧ s'.alg.suspendedCount = s.alg.suspendedCount := by
      intro f v at_end
      apply change.numbers
      · rintro c rfl
        rcases at_end with pc | pc
        · exact absurd (call_open h) (by rw [pc]; exact nofun)
        · rw [call_leaves h pc, pc] at pc'
          cases pc'
      · intro b key tid pc
        rcases at_end with pc'' | pc'' <;> rw [pc] at pc'' <;> cases pc''
    constructor
    · intro f at_end
      rw [pc'] at at_end
      have numbers := kept f (.ready f) at_end
      rw [numbers.1, numbers.2]
      exact decided.ready f at_end
    · intro at_end
      rw [pc'] at at_end
      have numbers := kept true .pending (Or.inr at_end)
      rw [numbers.1, numbers.2]
      exact decided.pending at_end
  | answer finished event pc pc' beats =>
    have numbers := change.numbers (by simp [event]) (by simp [pc])
    constructor
    · intro f at_end
      rw [pc', numbers.1, numbers.2] at *
      rcases at_end with at_end | at_end
      · cases at_end
      · cases at_end
        exact decided.ready finished (Or.inl pc)
    · intro at_end
      rw [pc'] at at_end
      cases at_end
  | ended b key event pc past ended beats =>
    have numbers := change.numbers (by simp [event]) (by simp [pc])
    constructor
    · intro f at_end
      rw [numbers.1, numbers.2]
      rcases at_end with at_end | at_end
      · rw [at_end] at ended
        cases ended with
        | finish second quiet sleeps => exact ⟨rfl, sleeps⟩
      · rw [at_end] at ended
        cases ended
    · intro at_end
      rw [numbers.1, numbers.2]
      rw [at_end] at ended
      cases ended with
      | pending second quiet waits => exact waits
  | _ =>
    constructor
    · intro f at_end
      simp_all
    · intro at_end
      simp_all

/-- What the counter and the answer of `poll_internal` are to say about the registry. -/
structure Faithful (s : Wheel) : Prop where
  counted : s.alg.suspendedCount = s.slab.count isSuspended
  suspendError : ∀ v, s.pc = .returned v → (v = .ready false ↔
    (∃ k task, s.get k = some task) ∧ ∀ k task, s.get k = some task → task.stopReason = .suspended)
  finished : ∀ v, s.pc = .returned v → (v = .ready true ↔ ∀ k, s.get k = none)
  waiting : ∀ v, s.pc = .returned v → (v = .pending ↔
    ∃ k task, s.get k = some task ∧ task.stopReason ≠ .suspended)

theorem Decided.faithful {s : Wheel} (decided : Decided s) (wf : s.slab.WellFormed)
    (counted : s.alg.suspendedCount = s.slab.count isSuspended) : Faithful s := by
  have empty : s.slab.len = 0 ↔ ∀ k, s.get k = none := by
    rw [wf.len, ChunkSlab.count_eq_zero_iff wf]
    constructor
    · intro none k
      cases found : s.get k with
      | none => rfl
      | some task => cases none k task found
    · intro none k task found
      cases (none k).symm.trans found
  have all : s.slab.len = s.alg.suspendedCount ↔
      ∀ k task, s.get k = some task → task.stopReason = .suspended := by
    rw [counted, ChunkSlab.count_eq_len_iff wf]
    simp only [isSuspended, decide_eq_true_eq]
    exact Iff.rfl
  have some_task : (∃ k task, s.get k = some task) ↔ ¬ s.slab.len = 0 := by
    simp [empty, Option.ne_none_iff_exists']
  have some_waits : (∃ k task, s.get k = some task ∧ task.stopReason ≠ .suspended) ↔
      ¬ s.slab.len = s.alg.suspendedCount := by
    simp [all]
  have vacuous : s.slab.len = 0 → s.slab.len = s.alg.suspendedCount := by
    intro none
    exact all.mpr (fun k task found => by cases (empty.mp none k).symm.trans found)
  constructor
  · exact counted
  · intro v pc
    rw [some_task, ← all]
    cases v with
    | pending =>
      have waits := decided.pending pc
      exact ⟨by rintro ⟨⟩, fun both => absurd (Or.inr both.2) waits⟩
    | ready f =>
      obtain ⟨hf, sleeps⟩ := decided.ready f (Or.inr pc)
      subst hf
      simp only [Verdict.ready.injEq, decide_eq_false_iff_not]
      exact ⟨fun ne => ⟨ne, sleeps.resolve_left ne⟩, fun both => both.1⟩
  · intro v pc
    rw [← empty]
    cases v with
    | pending =>
      have waits := decided.pending pc
      exact ⟨by rintro ⟨⟩, fun none => absurd (Or.inl none) waits⟩
    | ready f =>
      obtain ⟨hf, sleeps⟩ := decided.ready f (Or.inr pc)
      subst hf
      simp
  · intro v pc
    rw [some_waits]
    cases v with
    | pending =>
      have waits := decided.pending pc
      exact ⟨fun _ all => waits (Or.inr all), fun _ => rfl⟩
    | ready f =>
      obtain ⟨hf, sleeps⟩ := decided.ready f (Or.inr pc)
      exact ⟨by rintro ⟨⟩, fun busy => absurd (sleeps.elim vacuous id) busy⟩

/-- In a run in which no poll finishes a task that is suspended, the counter is right and
`poll_internal` answers what the registry says. -/
theorem verdict_faithful {s : Wheel} {es : List Event} (run : Runs.exec step new es = some s)
    (fine : Along step (fun s e _ => s.finishesSuspended e = false) new es) : Faithful s := by
  have kept : ∀ r e t, Consistent r ∧ Decided r → step r e = some t → Consistent t ∧ Decided t :=
    fun r e t inv h => ⟨step_consistent inv.1 h, decided_step inv.1 inv.2 h⟩
  have start : Consistent new ∧ Decided new := ⟨new_consistent, ⟨nofun, nofun⟩⟩
  obtain ⟨con, decided⟩ := invariant_run kept start run
  exact decided.faithful con.wf (suspendedCount_exact run fine)

/-- One task suspends the other and finishes. The other is all that is left. -/
def handover : List Event :=
  [.call (.register ⟨false, .none⟩), .call (.register ⟨false, .none⟩), .poll 7, .run, .run, .run,
    .call (.suspend 1), .done true, .run, .dropped] ++ List.replicate 52 .run

theorem verdict_faithful_handover : ∃ s, Runs.exec step new handover = some s ∧
    s.pc = .returned (.ready false) ∧ Faithful s := by
  have ends : (Runs.exec step new handover).any (fun s => s.pc = .returned (.ready false)) = true := by
    decide +kernel
  obtain ⟨s, run, pc⟩ := (Option.any_eq_true _ _).mp ends
  exact ⟨s, run, by simpa using pc, verdict_faithful run (by decide +kernel)⟩

/-- A task suspends itself and finishes in the same poll, while another task waits. -/
def selfSuspend : List Event :=
  [.call (.register ⟨false, .none⟩), .call (.register ⟨false, .none⟩), .poll 7, .run, .run, .run,
    .call (.suspend 0), .done true, .run, .dropped, .run, .run, .done false] ++
  List.replicate 51 .run

/-- The waiting task is reported as suspended. -/
theorem selfSuspend_unfaithful : ∃ s, Runs.exec step new selfSuspend = some s ∧
    s.pc = .returned (.ready false) ∧ (s.get 1).map DynamicFuture.stopReason = some .none ∧
    s.alg.suspendedCount = 1 ∧ s.slab.count isSuspended = 0 ∧ ¬ Faithful s := by
  have ends : (Runs.exec step new selfSuspend).any (fun s =>
      s.pc = .returned (.ready false) ∧ (s.get 1).map DynamicFuture.stopReason = some .none ∧
      s.alg.suspendedCount = 1 ∧ s.slab.count isSuspended = 0) = true := by decide +kernel
  obtain ⟨s, run, facts⟩ := (Option.any_eq_true _ _).mp ends
  obtain ⟨pc, waits, count, none⟩ := of_decide_eq_true facts
  refine ⟨s, run, pc, waits, count, none, ?_⟩
  intro faithful
  have counted := faithful.counted
  rw [count, none] at counted
  cases counted

end Wheel
end Juggle.Dy
