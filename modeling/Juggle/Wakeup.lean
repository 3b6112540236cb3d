import Juggle.Dy.Wakeup
import Juggle.St.Wakeup

/-! No wake-up is lost, in either wheel and in whatever order the polling thread and the
wakes of other threads take their steps, as long as the last sweep of `poll_internal`
keeps out of the gap between the two halves of `wake`. -/
namespace Juggle
open Juggle.Runs

/-- In a run without lapses `poll_internal` returns Pending only if it is right to sleep
or has been called back, once all wakes have returned. -/
theorem wakeups_unmissed (ds : List Dy.Event) (config : List St.StaticParams) (es : List St.Event) :
    (∀ s, exec Dy.Wheel.step Dy.Wheel.new ds = some s →
      Along Dy.Wheel.step (fun s e _ => s.lapses e = false) Dy.Wheel.new ds → s.Unmissed) ∧
    ∀ s, exec St.Wheel.step (St.Wheel.new config) es = some s →
      Along St.Wheel.step (fun s e _ => s.lapses e = false) (St.Wheel.new config) es → s.Unmissed :=
  ⟨fun _ => Dy.Wheel.run_unmissed, fun _ => St.Wheel.run_unmissed⟩

/-- The only task is polled once and waits; `poll_internal` comes up to the point where
it registers the waker, or beyond it. -/
def dynamicWaits (beyond : Nat) : List Dy.Event :=
  [.call (.register ⟨false, .none⟩), .poll 7, .run, .run, .run, .done false] ++
    List.replicate (33 + beyond) .run

def staticWaits (beyond : Nat) : List St.Event :=
  [.lock, .poll 7, .run, .run, .run, .created, .done false] ++ List.replicate (4 + beyond) .run

/-- The task is woken in the second sweep, and the waker invoked. -/
def dynamicCalled : List Dy.Event :=
  dynamicWaits 1 ++ [.wakeBegin ⟨0, 0⟩, .wakeStep 0] ++ List.replicate 17 .run ++
    [.wakeStep 0, .wakeStep 0]

def staticCalled : List St.Event :=
  staticWaits 1 ++ [.wakeBegin 0, .wakeStep 0] ++ List.replicate 2 .run ++ [.wakeStep 0, .wakeStep 0]

/-- One task that does not start suspended. -/
def single : List St.StaticParams := [⟨false, none⟩]

theorem wakeups_unmissed_called :
    (∃ s, exec Dy.Wheel.step Dy.Wheel.new dynamicCalled = some s ∧ s.pc = .returned .pending ∧
      s.wakes = [] ∧ s.hasWork 0 = true ∧ s.Unmissed) ∧
    ∃ s, exec St.Wheel.step (St.Wheel.new single) staticCalled = some s ∧
      s.pc = .returned .pending ∧ s.wakes = [] ∧ (s.get 0).any (fun task => task.runnable) = true ∧
        s.Unmissed := by
  have dynamic : exec Dy.Wheel.step Dy.Wheel.new dynamicCalled =
      some (last Dy.Wheel.step Dy.Wheel.new dynamicCalled) := exec_last (by decide +kernel)
  have static : exec St.Wheel.step (St.Wheel.new single) staticCalled =
      some (last St.Wheel.step (St.Wheel.new single) staticCalled) := exec_last (by decide +kernel)
  exact ⟨⟨_, dynamic, by decide +kernel, by decide +kernel, by decide +kernel,
      (wakeups_unmissed dynamicCalled single staticCalled).1 _ dynamic (by decide +kernel)⟩,
    _, static, by decide +kernel, by decide +kernel, by decide +kernel,
      (wakeups_unmissed dynamicCalled single staticCalled).2 _ static (by decide +kernel)⟩

/-- A wake takes from the empty cell before the waker is registered, and stores the
runnable flag when the second sweep is over. -/
def dynamicLost : List Dy.Event :=
  dynamicWaits 0 ++ [.wakeBegin ⟨0, 0⟩, .wakeStep 0] ++ List.replicate 18 .run ++ [.wakeStep 0]

def staticLost : List St.Event :=
  staticWaits 0 ++ [.wakeBegin 0, .wakeStep 0] ++ List.replicate 3 .run ++ [.wakeStep 0]

/-- The wheel sleeps on a runnable task, and nobody has called its waker. -/
theorem dynamicLost_missed :
    (∃ s, exec Dy.Wheel.step Dy.Wheel.new dynamicLost = some s ∧ ¬ s.Unmissed) ∧
    ∃ s, exec St.Wheel.step (St.Wheel.new single) staticLost = some s ∧ ¬ s.Unmissed := by
  have dynamic : exec Dy.Wheel.step Dy.Wheel.new dynamicLost =
      some (last Dy.Wheel.step Dy.Wheel.new dynamicLost) := exec_last (by decide +kernel)
  have static : exec St.Wheel.step (St.Wheel.new single) staticLost =
      some (last St.Wheel.step (St.Wheel.new single) staticLost) := exec_last (by decide +kernel)
  refine ⟨⟨_, dynamic, fun unmissed => ?_⟩, _, static, fun unmissed => ?_⟩
  · rcases unmissed (by decide +kernel) (by decide +kernel) with rest | called
    · have work : ((last Dy.Wheel.step Dy.Wheel.new dynamicLost).get 0).any (fun task =>
          decide (task.stopReason = .none) && task.runnable) = true := by decide +kernel
      obtain ⟨task, found, both⟩ := (Option.any_eq_true _ _).mp work
      obtain ⟨reason, runnable⟩ := Bool.and_eq_true_iff.mp both
      exact absurd (rest 0 task found (of_decide_eq_true reason)) (by rw [runnable]; exact nofun)
    · revert called
      decide +kernel
  · rcases unmissed (by decide +kernel) (by decide +kernel) with rest | called
    · have work : ((last St.Wheel.step (St.Wheel.new single) staticLost).get 0).any (fun task =>
          decide (task.stopReason = .none) && task.runnable) = true := by decide +kernel
      obtain ⟨task, found, both⟩ := (Option.any_eq_true _ _).mp work
      obtain ⟨reason, runnable⟩ := Bool.and_eq_true_iff.mp both
      exact absurd (rest 0 task found (of_decide_eq_true reason)) (by rw [runnable]; exact nofun)
    · revert called
      decide +kernel

end Juggle
