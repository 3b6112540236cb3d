import Juggle.Dy.QueueRoster

/-! What the holder of a handle may rely on, for both schedulers of `dy/`: facts about
rosters, carried over to every run of the code. -/
namespace Juggle.Dy
open Juggle.Traces Juggle.Runs

/-- A wheel with a task that cancels itself in its poll and wakes up once more, beside a
suspended one that is found by its name. -/
def wheelRun : List Event :=
  [.call (.register ⟨false, .none⟩), .call (.register ⟨true, .static "b"⟩), .call (.getByName "b"),
    .poll 0, .run, .run, .run, .call (.cancel 0), .call (.getState 0), .call (.wake ⟨0, 0⟩),
    .done false] ++ List.replicate 18 .run ++ [.dropped, .wakeBegin ⟨0, 0⟩, .wakeStep 0, .wakeStep 0]

/-- The like of it on the scheduler with queues. -/
def schedulerRun : List Scheduler.Event :=
  [.call (.register ⟨false, .none⟩), .call (.register ⟨true, .static "b"⟩), .call (.getByName "b"),
    .poll 0, .run, .run, .run, .run, .run, .run, .call (.cancel 0), .call (.getState 0),
    .call (.wake ⟨0, 0⟩), .done false, .store ⟨0, 0⟩, .run, .run, .run]

theorem wheelRun_enabled : (exec Wheel.step Wheel.new wheelRun).isSome = true := by decide +kernel

theorem schedulerRun_enabled :
    (exec Scheduler.step Scheduler.new schedulerRun).isSome = true := by decide +kernel

example : Scheduler.history schedulerRun =
    [.call (.register ⟨false, .none⟩) (.key (some 0)),
      .call (.register ⟨true, .static "b"⟩) (.key (some 1)), .call (.getByName "b") (.key (some 1)),
      .pick ⟨0, 0⟩, .call (.cancel 0) (.flag true), .call (.getState 0) (.state .cancelled),
      .wake ⟨0, 0⟩, .pause ⟨0, 0⟩, .condemn ⟨0, 0⟩, .retire ⟨0, 0⟩, .wake ⟨0, 0⟩] := by decide +kernel

/-- Every run of the wheel is one of the roster, and it polls runnable tasks only. -/
theorem wheel_is_roster {es : List Event} {s : Wheel} (run : exec Wheel.step Wheel.new es = some s) :
    Path (Roster.Next True) .empty (Wheel.history es) s.roster ∧ s.roster.Valid :=
  have path := Wheel.history_path run
  ⟨path, Roster.reach_valid path⟩

theorem wheel_is_roster_cancelled :
    Path (Roster.Next True) .empty (Wheel.history wheelRun)
        (last Wheel.step Wheel.new wheelRun).roster ∧
      (last Wheel.step Wheel.new wheelRun).roster.Valid :=
  wheel_is_roster (exec_last wheelRun_enabled)

/-- Every run of the scheduler with queues is one of the roster, too, and where each of
its steps is harmless it also polls runnable tasks only. -/
theorem scheduler_is_roster {es : List Scheduler.Event} {s : Scheduler}
    (run : exec Scheduler.step Scheduler.new es = some s) :
    Path (Roster.Next False) .empty (Scheduler.history es) s.roster ∧ s.roster.Valid ∧
      (Along Scheduler.step (fun s e _ => s.Harmless e) Scheduler.new es →
        Path (Roster.Next True) .empty (Scheduler.history es) s.roster) :=
  have path := Scheduler.history_path run
  ⟨path, Roster.reach_valid path, Scheduler.harmless_history_path run⟩

theorem scheduler_is_roster_cancelled :
    Path (Roster.Next False) .empty (Scheduler.history schedulerRun)
        (last Scheduler.step Scheduler.new schedulerRun).roster ∧
      (last Scheduler.step Scheduler.new schedulerRun).roster.Valid ∧
      Path (Roster.Next True) .empty (Scheduler.history schedulerRun)
        (last Scheduler.step Scheduler.new schedulerRun).roster :=
  have spec := scheduler_is_roster (exec_last schedulerRun_enabled)
  ⟨spec.1, spec.2.1, spec.2.2 (by decide +kernel)⟩

section Promises
variable {es : List Event} {fs : List Scheduler.Event} {s : Wheel} {t : Scheduler}

theorem cancelled_for_good (wheel : exec Wheel.step Wheel.new es = some s)
    (scheduler : exec Scheduler.step Scheduler.new fs = some t) :
    CancelFinal (Wheel.history es) ∧ CancelFinal (Scheduler.history fs) :=
  ⟨Roster.cancel_final (Wheel.history_path wheel),
    Roster.cancel_final (Scheduler.history_path scheduler)⟩

theorem cancelled_for_good_once :
    CancelFinal (Wheel.history wheelRun) ∧ CancelFinal (Scheduler.history schedulerRun) :=
  cancelled_for_good (exec_last wheelRun_enabled) (exec_last schedulerRun_enabled)

theorem suspended_rests (wheel : exec Wheel.step Wheel.new es = some s)
    (scheduler : exec Scheduler.step Scheduler.new fs = some t) :
    SuspendHolds (Wheel.history es) ∧ SuspendHolds (Scheduler.history fs) :=
  ⟨Roster.suspend_holds (Wheel.history_path wheel),
    Roster.suspend_holds (Scheduler.history_path scheduler)⟩

theorem suspended_rests_once :
    SuspendHolds (Wheel.history wheelRun) ∧ SuspendHolds (Scheduler.history schedulerRun) :=
  suspended_rests (exec_last wheelRun_enabled) (exec_last schedulerRun_enabled)

/-- A poll is alone, and a second poll of the task takes a wake. -/
theorem polls_woken (wheel : exec Wheel.step Wheel.new es = some s)
    (scheduler : exec Scheduler.step Scheduler.new fs = some t) :
    (PollsAlone (Wheel.history es) ∧ PollsPaid (Wheel.history es)) ∧
      PollsAlone (Scheduler.history fs) ∧
      (Along Scheduler.step (fun s e _ => s.Harmless e) Scheduler.new fs →
        PollsPaid (Scheduler.history fs)) :=
  ⟨⟨Roster.polls_alone (Wheel.history_path wheel),
      Roster.polls_paid trivial (Wheel.history_path wheel)⟩,
    Roster.polls_alone (Scheduler.history_path scheduler),
    fun harmless => Roster.polls_paid trivial (Scheduler.harmless_history_path scheduler harmless)⟩

theorem polls_woken_once :
    (PollsAlone (Wheel.history wheelRun) ∧ PollsPaid (Wheel.history wheelRun)) ∧
      PollsAlone (Scheduler.history schedulerRun) ∧ PollsPaid (Scheduler.history schedulerRun) :=
  have spec := polls_woken (exec_last wheelRun_enabled) (exec_last schedulerRun_enabled)
  ⟨spec.1, spec.2.1, spec.2.2 (by decide +kernel)⟩

/-- No task is dropped without a reason, no key is given away under a living task, and the
scheduler never returns to a task it has removed. -/
theorem tasks_kept (wheel : exec Wheel.step Wheel.new es = some s)
    (scheduler : exec Scheduler.step Scheduler.new fs = some t) :
    (RemovedForCause (Wheel.history es) ∧ KeysHeld (Wheel.history es) ∧
        RemovedForGood (Wheel.history es)) ∧
      RemovedForCause (Scheduler.history fs) ∧ KeysHeld (Scheduler.history fs) ∧
        RemovedForGood (Scheduler.history fs) :=
  have left := Wheel.history_path wheel
  have right := Scheduler.history_path scheduler
  ⟨⟨Roster.removed_for_cause left, Roster.keys_held left, Roster.removed_for_good left⟩,
    Roster.removed_for_cause right, Roster.keys_held right, Roster.removed_for_good right⟩

theorem tasks_kept_once :
    (RemovedForCause (Wheel.history wheelRun) ∧ KeysHeld (Wheel.history wheelRun) ∧
        RemovedForGood (Wheel.history wheelRun)) ∧
      RemovedForCause (Scheduler.history schedulerRun) ∧ KeysHeld (Scheduler.history schedulerRun) ∧
        RemovedForGood (Scheduler.history schedulerRun) :=
  tasks_kept (exec_last wheelRun_enabled) (exec_last schedulerRun_enabled)

theorem directory_right (wheel : exec Wheel.step Wheel.new es = some s)
    (scheduler : exec Scheduler.step Scheduler.new fs = some t) :
    (CountRight (Wheel.history es) ∧ NamesFound (Wheel.history es)) ∧
      CountRight (Scheduler.history fs) ∧ NamesFound (Scheduler.history fs) :=
  have left := Wheel.history_path wheel
  have right := Scheduler.history_path scheduler
  ⟨⟨Roster.count_right left, Roster.names_found left⟩,
    Roster.count_right right, Roster.names_found right⟩

theorem directory_right_once :
    (CountRight (Wheel.history wheelRun) ∧ NamesFound (Wheel.history wheelRun)) ∧
      CountRight (Scheduler.history schedulerRun) ∧ NamesFound (Scheduler.history schedulerRun) :=
  directory_right (exec_last wheelRun_enabled) (exec_last schedulerRun_enabled)

end Promises
end Juggle.Dy
