import Juggle.Dy.Invariant

/-! What is left to do when the wheel goes to sleep. A second sweep that polls nothing
leaves no work behind it, unless a destructor it ran made some. -/
namespace Juggle.Dy
open Juggle.Utils Juggle.Runs

/-- A sweep after the waker was registered that has polled nothing so far and whose
destructors left no work where it does not look. -/
structure Beat.Quiet (b : Beat) : Prop where
  second : b.second = true
  unpolled : b.anyPoll = false
  clean : b.late = false

namespace Pc

/-- The keys at which a quiet second sweep found or left nothing to do. -/
def Cleared (k : TaskKey) : Pc → Prop
  | .sweep b key => b.Quiet ∧ (k < key ∨ b.cap ≤ k)
  | .chosen b key _ => b.Quiet ∧ (k < key ∨ b.cap ≤ k)
  | .removing b key _ => b.Quiet ∧ (k < key ∨ b.cap ≤ k)
  | .dropping b key _ => b.Quiet ∧ (k ≤ key ∨ b.cap ≤ k)
  | .finish _ => True
  | .returned _ => True
  | _ => False

end Pc

namespace Wheel

/-- A second sweep that polled nothing ends after a destructor in it left work at a key
that it had passed or would not reach. -/
def endsLate (s : Wheel) : Event → Bool
  | .run =>
    match s.pc with
    | .sweep b key => decide (b.cap ≤ key) && b.second && !b.anyPoll && b.late
    | _ => false
  | _ => false

def foreignWake : Event → Bool
  | .wakeBegin _ => true
  | .wakeStep _ => true
  | _ => false

structure Settling (s : Wheel) : Prop where
  cleared : ∀ k, s.pc.Cleared k → s.hasWork k = false
  busy : ∀ b key tid, s.pc = .polling b key tid → b.anyPoll = true

section Step
variable {s s' : Wheel} {e : Event} {k : TaskKey}

theorem hasWork_congr (same : s'.get k = s.get k) : s'.hasWork k = s.hasWork k := by
  unfold hasWork
  rw [same]

theorem hasWork_none (none : s.get k = none) : s.hasWork k = false := by
  unfold hasWork
  rw [none]

/-- A handle call touches the entry at its target only. -/
theorem call_other {c : Call} (look : Look s (.call c) s' k) (other : s.target c ≠ some k) :
    s'.get k = s.get k := by
  cases look with
  | same eq => exact eq
  | spawn params event answer =>
    cases event
    exact absurd answer other
  | reason task r found eq request =>
    rcases request with ⟨_, event⟩ | ⟨_, event⟩ | ⟨_, event⟩ <;> cases event <;> exact absurd rfl other
  | wake target task here found eq event =>
    rcases event with event | ⟨i, event, _⟩
    · cases event
      exact absurd (congrArg some here) other
    · cases event
  | pollBegin b tid task event => cases event
  | pollEnd b tid event => simp at event
  | remove b tid task event => cases event

theorem call_settling {c : Call} (con : Consistent s) (settling : Settling s)
    (h : s.step (.call c) = some s') : Settling s' := by
  have look := fun k => (step_change con.wf h).look k
  simp only [step, call] at h
  split at h
  · rename_i pc
    cases h
    exact ⟨fun k cleared => by simp [pc, Pc.Cleared] at cleared,
      fun b key tid pc' => by simp [pc] at pc'⟩
  · cases h
    exact ⟨fun k cleared => cleared.elim, by rintro _ _ _ ⟨⟩⟩
  · rename_i b key tid pc
    cases h
    refine ⟨fun k cleared => by simp [pc, Pc.Cleared] at cleared, fun b' key' tid' pc' => ?_⟩
    rw [perform_pc] at pc'
    exact settling.busy b' key' tid' pc'
  · rename_i b key tid pc
    cases h
    refine ⟨fun k cleared => ?_, by rintro _ _ _ ⟨⟩⟩
    obtain ⟨⟨second, unpolled, clean⟩, where_k⟩ := cleared
    obtain ⟨fine, timely⟩ := Bool.or_eq_false_iff.mp clean
    by_cases here : s.target c = some k
    · simp only [isLate, here] at timely
      have behind : (decide (k ≤ key) || decide (b.cap ≤ k)) = true := by simpa using where_k
      rw [behind, Bool.true_and] at timely
      exact timely
    · have before : s.pc.Cleared k := by
        rw [pc]
        exact ⟨⟨second, unpolled, fine⟩, where_k⟩
      rw [hasWork_congr (call_other (look k) here)]
      exact settling.cleared k before
  · cases h

/-- What `Ended` says about a sweep after which `poll_internal` stops. -/
theorem Ended.stops {b : Beat} {pc : Pc} (ended : Ended s b pc) (stops : pc.Cleared k) :
    b.second = true ∧ b.anyPoll = false := by
  cases ended with
  | register => exact stops.elim
  | clear => exact stops.elim
  | finish second quiet => exact ⟨second, quiet⟩
  | pending second quiet => exact ⟨second, quiet⟩

theorem own_cleared (con : Consistent s) (settling : Settling s) (h : s.step e = some s')
    (own : ownStep e = true) (timely : s.endsLate e = false) (cleared : s'.pc.Cleared k) :
    s'.hasWork k = false := by
  have look := (step_change con.wf h).look k
  -- in most steps nothing happens at a key that was cleared before
  have kept : (∀ tid, s.pc.subject ≠ some (k, tid)) → s.pc.Cleared k → s'.hasWork k = false := by
    intro other before
    rw [hasWork_congr (look.undisturbed own (fun _ => other))]
    exact settling.cleared k before
  cases step_move con.wf h with
  | stay pc' beats quiet =>
    rw [pc'] at cleared
    rw [hasWork_congr (look.undisturbed own ?_)]
    · exact settling.cleared k cleared
    · rintro (run | polling)
      · exact absurd run quiet
      · obtain ⟨b, tid, pc⟩ := Pc.pollingAt_eq_some polling
        rw [pc] at cleared
        exact cleared.elim
  | leave v pc pc' beats quiet => rw [pc'] at cleared; exact cleared.elim
  | note b key tid c event pc pc' beats => rw [event] at own; cases own
  | enter w event pc pc' beats => rw [pc'] at cleared; exact cleared.elim
  | begins second event begins pc' beats =>
    rw [pc'] at cleared
    obtain ⟨quiet, low | high⟩ := cleared
    · exact absurd low (Nat.not_lt_zero k)
    · apply hasWork_none
      have vacant : s.get k = none := by
        by_contra some
        obtain ⟨task, found⟩ := Option.ne_none_iff_exists'.mp some
        exact absurd (ChunkSlab.get_lt_capacity found) (Nat.not_lt_of_le high)
      rw [look.undisturbed own (fun _ => ?_), vacant]
      cases begins <;> simp_all [Pc.subject]
  | skip b key event pc inside rest pc' beats =>
    rw [pc'] at cleared
    obtain ⟨quiet, below | high⟩ := cleared
    · rcases Nat.lt_succ_iff_lt_or_eq.mp below with low | here
      · exact kept (by simp [pc, Pc.subject]) (by rw [pc]; exact ⟨quiet, Or.inl low⟩)
      · subst here
        rw [hasWork_congr (look.undisturbed own (fun _ => by simp [pc, Pc.subject]))]
        exact rest
    · exact kept (by simp [pc, Pc.subject]) (by rw [pc]; exact ⟨quiet, Or.inr high⟩)
  | choose b key task event pc inside found reason runnable pc' beats =>
    rw [pc'] at cleared
    exact kept (by simp [pc, Pc.subject]) (by rw [pc]; exact cleared)
  | condemn b key task event pc inside found reason pc' beats =>
    rw [pc'] at cleared
    exact kept (by simp [pc, Pc.subject]) (by rw [pc]; exact cleared)
  | ended b key event pc past ended beats =>
    obtain ⟨second, unpolled⟩ := ended.stops cleared
    have clean : b.late = false := by
      simpa [endsLate, event, pc, past, second, unpolled] using timely
    apply kept (by simp [pc, Pc.subject])
    rw [pc]
    refine ⟨⟨second, unpolled, clean⟩, ?_⟩
    rcases Nat.lt_or_ge k key with low | high
    · exact Or.inl low
    · exact Or.inr (Nat.le_trans past high)
  | pollBegin b key tid event pc pc' beats => rw [pc'] at cleared; exact cleared.elim
  | pending b key tid event pc pc' beats =>
    rw [pc'] at cleared
    have busy := settling.busy b key tid pc
    rw [cleared.1.unpolled] at busy
    cases busy
  | ready b key tid event pc pc' beats =>
    rw [pc'] at cleared
    have busy := settling.busy b key tid pc
    rw [cleared.1.unpolled] at busy
    cases busy
  | removed b key tid tid' event pc pc' beats =>
    rw [pc'] at cleared
    subst event
    by_cases here : k = key
    · subst here
      obtain ⟨task, found, _, removed, _⟩ := remove_found con pc h
      exact hasWork_none removed.gone
    · apply kept (by simp [pc, Pc.subject, Ne.symm here])
      rw [pc]
      exact ⟨cleared.1, cleared.2.imp_left (fun le => Nat.lt_of_le_of_ne le here)⟩
  | dropped b key tid event pc pc' beats =>
    rw [pc'] at cleared
    apply kept (by simp [pc, Pc.subject])
    rw [pc]
    exact ⟨cleared.1, cleared.2.imp_left Nat.le_of_lt_succ⟩
  | answer finished event pc pc' beats =>
    exact kept (by simp [pc, Pc.subject]) (by rw [pc]; trivial)
  | unwound event pc' beats => rw [pc'] at cleared; exact cleared.elim
  | broken event lost pc' beats => rw [pc'] at cleared; exact cleared.elim

theorem own_busy (con : Consistent s) (busy : ∀ b key tid, s.pc = .polling b key tid → b.anyPoll = true)
    (h : s.step e = some s') (b : Beat) (key : TaskKey) (tid : Tid)
    (pc' : s'.pc = .polling b key tid) : b.anyPoll = true := by
  cases step_move con.wf h with
  | stay pc'' beats quiet => exact busy b key tid (pc''.symm.trans pc')
  | pollBegin b' key' tid' event pc pc'' beats =>
    rw [pc''] at pc'
    cases pc'
    rfl
  | ended b' key' event pc past ended beats =>
    rw [pc'] at ended
    cases ended
  | _ => simp_all

theorem settling_step (con : Consistent s) (settling : Settling s) (h : s.step e = some s')
    (home : foreignWake e = false) (timely : s.endsLate e = false) : Settling s' := by
  cases e with
  | call c => exact call_settling con settling h
  | wakeBegin target => cases home
  | wakeStep i => cases home
  | _ => exact ⟨fun k => own_cleared con settling h rfl timely, own_busy con settling.busy h⟩

end Step

/-- No request is left: nothing is to be removed and nothing is to be polled. -/
structure Asleep (s : Wheel) : Prop where
  swept : ∀ k task, s.get k = some task → task.stopReason ≠ .cancelled
  waiting : ∀ k task, s.get k = some task → task.stopReason = .none → task.runnable = false

theorem asleep_iff {s : Wheel} : Asleep s ↔ ∀ k, s.hasWork k = false := by
  constructor
  · intro asleep k
    cases found : s.get k with
    | none => exact hasWork_none found
    | some task =>
      have live := asleep.swept k task found
      have waits := asleep.waiting k task found
      simpa [hasWork, found, live, StopReason.isPollAllowed] using waits
  · intro rest
    constructor
    · intro k task found cancelled
      have work := rest k
      simp [hasWork, found, cancelled] at work
    · intro k task found free
      have work := rest k
      simpa [hasWork, found, free, StopReason.isPollAllowed] using work

/-- In a run without wakes from other threads, in which no destructor run by a second
sweep without a poll leaves work where that sweep does not look, `poll_internal` returns
only when there is nothing left to do. -/
theorem returns_asleep {s : Wheel} {es : List Event} {v : Verdict} (run : exec step new es = some s)
    (fine : Along step (fun s e _ => foreignWake e = false ∧ s.endsLate e = false) new es)
    (pc : s.pc = .returned v) : Asleep s := by
  have kept : ∀ r e t, Consistent r ∧ Settling r → step r e = some t →
      foreignWake e = false ∧ r.endsLate e = false → Consistent t ∧ Settling t :=
    fun r e t inv h cond => ⟨step_consistent inv.1 h, settling_step inv.1 inv.2 h cond.1 cond.2⟩
  have start : Consistent new ∧ Settling new := ⟨new_consistent, ⟨fun k => False.elim, nofun⟩⟩
  have settling := (invariant_along kept start run fine).2
  exact asleep_iff.mpr (fun k => settling.cleared k (by rw [pc]; trivial))

/-- The first task is suspended, the second cancelled from outside; the destructor of the
second cancels the first, so that the second sweep removes it. -/
def cancelChain : List Event :=
  [.call (.register ⟨true, .none⟩), .call (.register ⟨false, .none⟩), .call (.cancel 1), .poll 7,
    .run, .run, .run, .run, .call (.cancel 0), .dropped] ++ List.replicate 18 .run

theorem returns_asleep_cancelChain :
    Asleep (last step new (cancelChain ++ [.dropped] ++ List.replicate 17 .run)) := by
  have run := exec_last (show (exec step new
    (cancelChain ++ [.dropped] ++ List.replicate 17 .run)).isSome = true by decide +kernel)
  exact returns_asleep run (by decide +kernel) (v := .ready true) (by decide +kernel)

/-- The destructor that runs in the second sweep spawns a task, which takes the freed slot. -/
def spawnBehind : List Event :=
  cancelChain ++ [.call (.register ⟨false, .none⟩), .dropped] ++ List.replicate 16 .run

/-- The wheel goes to sleep on a task that nobody will wake. -/
theorem spawnBehind_not_asleep : ∃ s, exec step new spawnBehind = some s ∧
    s.pc = .returned .pending ∧ s.woken = [] ∧ ¬ Asleep s := by
  have run := exec_last (show (exec step new spawnBehind).isSome = true by decide +kernel)
  refine ⟨_, run, by decide +kernel, by decide +kernel, ?_⟩
  intro asleep
  have work : (last step new spawnBehind).hasWork 0 = true := by decide +kernel
  rw [asleep_iff.mp asleep 0] at work
  cases work

end Wheel
end Juggle.Dy
