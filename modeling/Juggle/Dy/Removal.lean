import Juggle.Dy.Fairness
import Juggle.Dy.Refinement
import Juggle.Dy.Unwinding

/-! How soon a cancelled task is gone: by the end of any sweep that begins later, or of the
one still on its way to the key. A panic of other tasks only puts that end off. -/
namespace Juggle.Dy
open Juggle.Utils Juggle.Runs Juggle.Traces

/-- The task is cancelled at its key, or it is gone. -/
def Roster.Dead (m : Roster) (task : TaskRef) : Prop :=
  (∃ e, m.Holds task e ∧ e.stopReason = .cancelled) ∨ m.Gone task.tid

theorem Roster.Dead.step {strict : Prop} {m n : Roster} {l : Act} {task : TaskRef}
    (valid : m.Valid) (dead : m.Dead task) (next : Next strict m l n) : n.Dead task := by
  rcases dead with ⟨e, held, cancelled⟩ | gone
  · by_cases removed : l = .retire task
    · subst removed
      exact Or.inr (retire_gone valid next).1
    · obtain ⟨e', found, identity, _⟩ :=
        (next.fate task.key).stays held.1 (by rw [held.2]; exact removed)
      refine Or.inl ⟨e', ⟨found, identity.trans held.2⟩, ?_⟩
      rcases (next.fate task.key).reason held.1 with ⟨e'', found', same⟩ | ⟨c, f, r, request, _, allowed, _⟩ | ⟨tid, rfl⟩
      · cases found.symm.trans found'
        exact same.trans cancelled
      · rw [cancelled] at allowed
        cases c <;> cases request <;> cases allowed
      · cases next with
        | retire _ e'' idle leaving held' =>
          cases held.1.symm.trans held'.1
          have same := held'.2.symm.trans held.2
          exact absurd (congrArg (fun t => Act.retire ⟨task.key, t⟩) same) removed
  · exact Or.inr (gone.step next)

/-- A sweep stands at the end of its range. -/
def Pc.ends : Pc → Bool
  | .sweep b key => decide (b.cap ≤ key)
  | _ => false

namespace Wheel

/-- The task is registered at this key and cancelled. -/
def Cancelled (k : TaskKey) (tid : Tid) (s : Wheel) : Prop :=
  ∃ task, s.get k = some task ∧ task.tid = tid ∧ task.stopReason = .cancelled

instance (k : TaskKey) (tid : Tid) (s : Wheel) : Decidable (Cancelled k tid s) :=
  decidable_of_iff ((s.get k).any fun task => task.tid = tid ∧ task.stopReason = .cancelled) (by
    simp only [Option.any_eq_true, decide_eq_true_eq]
    exact Iff.rfl)

section Steps
variable {s s' : Wheel} {e : Event} {k : TaskKey} {tid : Tid}

theorem dead_roster : s.roster.Dead ⟨k, tid⟩ ↔ Cancelled k tid s ∨ Absent tid s := by
  constructor
  · rintro (⟨e, held, cancelled⟩ | gone)
    · obtain ⟨task, found, rfl⟩ := Option.map_eq_some_iff.mp held.1
      exact Or.inl ⟨task, found, held.2, cancelled⟩
    · exact Or.inr ⟨gone.used, fun j task found => gone.absent j _ (members_some found)⟩
  · rintro (⟨task, found, identity, cancelled⟩ | ⟨used, absent⟩)
    · exact Or.inl ⟨Member.of task, ⟨members_some found, identity⟩, cancelled⟩
    · refine Or.inr ⟨used, fun j e found => ?_⟩
      obtain ⟨task, hold, rfl⟩ := Option.map_eq_some_iff.mp found
      exact absent j task hold

theorem roster_valid (con : Consistent s) : s.roster.Valid where
  old j e found := by
    obtain ⟨task, hold, rfl⟩ := Option.map_eq_some_iff.mp found
    exact con.old j task hold
  unique i j e e' hi hj same := by
    obtain ⟨task, holdI, rfl⟩ := Option.map_eq_some_iff.mp hi
    obtain ⟨task', holdJ, rfl⟩ := Option.map_eq_some_iff.mp hj
    exact con.unique i j task task' holdI holdJ same
  polled task busy := by
    cases pc : s.pc with
    | polling b key t =>
      simp only [roster, pc, Pc.polled, Option.some.injEq] at busy
      subst busy
      obtain ⟨task, found, identity⟩ := con.subject key t (by rw [pc]; rfl)
      exact ⟨Member.of task, members_some found, identity⟩
    | _ => simp [roster, pc, Pc.polled] at busy
  leaving task leaves := by
    cases pc : s.pc with
    | removing b key t =>
      simp only [roster, pc, Pc.leaving, Option.some.injEq] at leaves
      subst leaves
      obtain ⟨task, found, identity⟩ := con.subject key t (by rw [pc]; rfl)
      exact ⟨Member.of task, members_some found, identity⟩
    | _ => simp [roster, pc, Pc.leaving] at leaves

/-- A cancelled task stays cancelled until it is gone for good. -/
theorem dead_step (con : Consistent s) (h : s.step e = some s')
    (dead : Cancelled k tid s ∨ Absent tid s) : Cancelled k tid s' ∨ Absent tid s' := by
  have both := (step_simulates con h).invariant (I := fun m => m.Valid ∧ m.Dead ⟨k, tid⟩)
    (fun _ _ _ hold next => ⟨hold.1.step next, hold.2.step hold.1 next⟩)
    ⟨roster_valid con, dead_roster.mpr dead⟩
  exact dead_roster.mp both.2

/-- The running sweep still comes to the cancelled task, or it is about to remove it. -/
def Doomed (k : TaskKey) (tid : Tid) (s : Wheel) : Prop :=
  s.pc.Ahead k ∨ ∃ b, s.pc = .removing b k tid

theorem doomed_step (con : Consistent s) (h : s.step e = some s') (cancelled : Cancelled k tid s)
    (doomed : Doomed k tid s) : Doomed k tid s' ∨ s'.get k = none ∨ s'.pc.cursor = none := by
  obtain ⟨task, found, identity, reason⟩ := cancelled
  have work : s.hasWork k = true := by simp [hasWork, found, reason]
  have onward : ∀ {pc : Pc}, s'.pc = pc → pc.Ahead k → Doomed k tid s' := fun eq ahead =>
    Or.inl (eq ▸ ahead)
  rcases doomed with ahead | ⟨b, pc⟩
  · cases step_move con.wf h with
    | stay pc' beats other => exact Or.inl (onward pc' ahead)
    | leave v pc pc' beats other => rw [pc] at ahead; exact ahead.elim
    | note b key t c event pc pc' beats => rw [pc] at ahead; exact Or.inl (onward pc' ahead)
    | enter w event pc pc' beats =>
      rcases pc with pc | ⟨v, pc⟩ <;> rw [pc] at ahead <;> exact ahead.elim
    | begins second event begins pc' beats =>
      cases begins with
      | clear pc => rw [pc] at ahead; exact ahead.elim
      | register pc => rw [pc] at ahead; exact ahead.elim
      | again b key pc past first busy =>
        rw [pc] at ahead
        exact absurd (Nat.le_trans past ahead.1) (Nat.not_le_of_lt ahead.2)
    | skip b key event pc inside rest pc' beats =>
      rw [pc] at ahead
      have other : key ≠ k := by
        rintro rfl
        rw [work] at rest
        cases rest
      exact Or.inl (onward pc' ⟨Nat.lt_of_le_of_ne ahead.1 other, ahead.2⟩)
    | choose b key task' event pc inside found' free runnable pc' beats =>
      rw [pc] at ahead
      have other : key ≠ k := by
        rintro rfl
        cases found.symm.trans found'
        rw [reason] at free
        cases free
      exact Or.inl (onward pc' ⟨Nat.lt_of_le_of_ne ahead.1 other, ahead.2⟩)
    | condemn b key task' event pc inside found' dead pc' beats =>
      rw [pc] at ahead
      by_cases here : key = k
      · subst here
        cases found.symm.trans found'
        exact Or.inl (Or.inr ⟨b, by rw [pc', identity]⟩)
      · exact Or.inl (onward pc' ⟨Nat.lt_of_le_of_ne ahead.1 here, ahead.2⟩)
    | ended b key event pc past ended beats =>
      rw [pc] at ahead
      exact absurd (Nat.le_trans past ahead.1) (Nat.not_le_of_lt ahead.2)
    | pollBegin b key t event pc pc' beats => rw [pc] at ahead; exact Or.inl (onward pc' ahead)
    | pending b key t event pc pc' beats => rw [pc] at ahead; exact Or.inl (onward pc' ahead)
    | ready b key t event pc pc' beats => rw [pc] at ahead; exact Or.inl (onward pc' ahead)
    | removed b key t t' event pc pc' beats =>
      rw [pc] at ahead
      exact Or.inl (onward pc' ahead)
    | dropped b key t event pc pc' beats => rw [pc] at ahead; exact Or.inl (onward pc' ahead)
    | answer finished event pc pc' beats => rw [pc] at ahead; exact ahead.elim
    | unwound event pc' beats => exact Or.inr (Or.inr (by rw [pc']; rfl))
    | broken event lost pc' beats => exact (con.unbroken lost).elim
  · by_cases own : e = .run
    · subst own
      obtain ⟨_, _, _, removed, _⟩ := remove_found con pc h
      exact Or.inr (Or.inl removed.gone)
    · cases step_move con.wf h with
      | stay pc' beats other => exact Or.inl (Or.inr ⟨b, pc'.trans pc⟩)
      | unwound event pc' beats => exact Or.inr (Or.inr (by rw [pc']; rfl))
      | _ => simp_all

/-- Only the start of a sweep takes the polling thread into one. -/
theorem sweep_step (con : Consistent s) (h : s.step e = some s') :
    (∃ b, s'.pc = .sweep b 0 ∧ b.cap = s.slab.capacity) ∨
      s'.beats = s.beats ∧ (s'.pc.cursor.isSome = true → s.pc.cursor.isSome = true) := by
  cases step_move con.wf h with
  | begins second event begins pc' beats => exact Or.inl ⟨_, pc', rfl⟩
  | ended b key event pc past ended beats =>
    refine Or.inr ⟨beats, fun inside => ?_⟩
    rw [pc]
    rfl
  | stay pc' beats other => exact Or.inr ⟨beats, fun inside => pc' ▸ inside⟩
  | _ => exact Or.inr ⟨by assumption, by simp_all [Pc.cursor]⟩

/-- As long as the task is there, the sweeps from the `n`-th on do not pass it. -/
def Overdue (k : TaskKey) (tid : Tid) (n : Nat) (s : Wheel) : Prop :=
  Absent tid s ∨ Cancelled k tid s ∧ (n ≤ s.beats → s.pc.cursor.isSome = true → Doomed k tid s)

theorem overdue_step {n : Nat} (con : Consistent s) (h : s.step e = some s')
    (overdue : Overdue k tid n s) : Overdue k tid n s' := by
  rcases overdue with absent | ⟨cancelled, here⟩
  · exact Or.inl (absent_step (step_change con.wf h) absent)
  · rcases dead_step con h (Or.inl cancelled) with still | absent'
    · refine Or.inr ⟨still, fun late inside => ?_⟩
      rcases sweep_step con h with ⟨b, pc', cap⟩ | ⟨beats, before⟩
      · obtain ⟨task, found, _⟩ := cancelled
        refine Or.inl ?_
        rw [pc']
        exact ⟨Nat.zero_le k, cap ▸ ChunkSlab.get_lt_capacity found⟩
      · rcases doomed_step con h cancelled (here (beats ▸ late) (before inside)) with
          doomed' | gone | outside
        · exact doomed'
        · obtain ⟨task, found, _⟩ := still
          cases found.symm.trans gone
        · rw [outside] at inside
          cases inside
    · exact Or.inl absent'

theorem Doomed.unended (doomed : Doomed k tid s) : s.pc.ends = false := by
  rcases doomed with ahead | ⟨b, pc⟩
  · unfold Pc.ends
    split
    · rename_i b key pc
      rw [pc] at ahead
      exact decide_eq_false (Nat.not_le_of_lt (Nat.lt_of_le_of_lt ahead.1 ahead.2))
    · rfl
  · rw [pc]
    rfl

end Steps

section Sweeps
variable {s t u : Wheel} {es fs : List Event} {k : TaskKey} {tid : Tid}

theorem overdue_run {n : Nat} (con : Consistent s) (run : exec step s es = some t)
    (overdue : Overdue k tid n s) : Consistent t ∧ Overdue k tid n t :=
  invariant_run (I := fun s => Consistent s ∧ Overdue k tid n s)
    (fun _ _ _ hold taken => ⟨step_consistent hold.1 taken, overdue_step hold.1 taken hold.2⟩)
    ⟨con, overdue⟩ run

theorem beats_mono (con : Consistent s) (run : exec step s es = some t) : s.beats ≤ t.beats :=
  (invariant_run (I := fun u => Consistent u ∧ s.beats ≤ u.beats)
    (fun _ _ _ hold taken => ⟨step_consistent hold.1 taken, by
      rcases beats_step (step_move hold.1.wf taken) with same | next <;> omega⟩)
    ⟨con, Nat.le_refl _⟩ run).2

/-- A cancelled task is gone, and for good, when a sweep comes to its end that began later
or was still on its way to the key. No destructor of another task, no call of a handle and
no panic can hold it back. -/
theorem cancelled_removed (reach : Reachable step (fun s => s = new) s)
    (run : exec step s es = some t) (cancelled : Cancelled k tid s)
    (whole : s.beats < t.beats ∨ s.pc.Ahead k) (ends : t.pc.ends = true)
    (later : exec step t fs = some u) : ∀ j task, u.get j = some task → task.tid ≠ tid := by
  have con := reachable_consistent reach
  have absent : ∀ n, n ≤ t.beats → Overdue k tid n s →
      ∀ j task, u.get j = some task → task.tid ≠ tid := by
    intro n late overdue
    obtain ⟨con', absent | ⟨_, here⟩⟩ := overdue_run con run overdue
    · exact (absent_run con' later absent).2
    · have inside : t.pc.cursor.isSome = true := by
        unfold Pc.ends at ends
        split at ends
        · rename_i pc
          rw [pc]
          rfl
        · cases ends
      rw [(here late inside).unended] at ends
      cases ends
  rcases whole with one | ahead
  · exact absent _ one (Or.inr ⟨cancelled, fun same => absurd same (Nat.not_succ_le_self _)⟩)
  · exact absent _ (beats_mono con run) (Or.inr ⟨cancelled, fun _ _ => Or.inl ahead⟩)

/-- A task cancels the one after it and panics. The next sweep removes the other one, and
its key is given to a new task. -/
theorem cancelled_removed_panic :
    let s := last step new [.call (.register ⟨false, .none⟩), .call (.register ⟨false, .none⟩),
      .poll 0, .run, .run, .run, .call (.cancel 1)]
    let t := last step s ([.panic, .poll 0] ++ List.replicate 4 .run ++ [.dropped] ++
      List.replicate 14 .run)
    let u := last step t (List.replicate 19 .run ++ [.call (.register ⟨false, .none⟩)])
    (u.get 1).isSome = true ∧ ∀ j task, u.get j = some task → task.tid ≠ 1 :=
  ⟨by decide +kernel, cancelled_removed (k := 1) (s := last step new _) (t := last step _ _)
    ⟨new, _, rfl, exec_last (by decide +kernel)⟩ (exec_last (by decide +kernel))
    (by decide +kernel) (Or.inl (by decide +kernel)) (by decide +kernel)
    (exec_last (by decide +kernel))⟩

end Sweeps
end Wheel
end Juggle.Dy
