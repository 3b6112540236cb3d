import Juggle.St.Fairness
import Juggle.Lib.Credit

/-! `poll_internal` returns: between two polls of tasks the loops of `poll_internal` and
`beat_once` take a bounded number of steps, whatever other threads wake. -/
namespace Juggle.St
open Juggle.Utils Juggle.Runs

/-- The steps that a call of `poll_internal` takes at most without polling a task, for a
registry of `n` tasks: two sweeps of at most five steps for a task and one more each, and
the three accesses to the waker. -/
def callCost (n : Nat) : Nat := 2 * (5 * n + 1) + 3

/-- What `poll_internal` has still to do after the sweep, if no task is polled any more. -/
def Beat.credit (n : Nat) (b : Beat) : Nat :=
  match b.second, b.anyPoll with
  | true, false => 1
  | false, false => (5 * n + 1) + 2
  | false, true => (5 * n + 1) + (5 * n + 1) + 2
  | true, true => callCost n

def Caller.credit (n : Nat) (key : TaskKey) : Caller → Nat
  | .restart b => 5 * (n - (key + 1)) + 5 + b.credit n
  | .cancelled b => 5 * (n - (key + 1)) + 2 + b.credit n
  | .restartSuspended b => 5 * (n - (key + 1)) + 2 + b.credit n
  | .pollLocal b _ => 5 * (n - (key + 1)) + 2 + b.credit n
  | _ => 0

/-- What `poll_internal` has still to do, if no task is polled any more. -/
def Pc.credit (n : Nat) : Pc → Nat
  | .clear => callCost n
  | .sweep b key => 5 * (n - key) + 1 + b.credit n
  | .check b key => 5 * (n - (key + 1)) + 4 + b.credit n
  | .chosen b key _ => 5 * (n - (key + 1)) + 3 + b.credit n
  | .inTask c key _ => c.credit n key
  | .back c key _ => c.credit n key
  | .register => (5 * n + 1) + 2
  | .finish _ => 1
  | _ => 0

namespace Wheel

/-- A step of the wheel's own code. -/
def runsCode (_ : Wheel) : Event → Bool
  | .run => true
  | _ => false

/-- `poll_internal` is called. -/
def entersPoll (_ : Wheel) : Event → Bool
  | .poll _ => true
  | _ => false

/-- `poll_local` is called on some task. -/
def pollsTask (s : Wheel) : Event → Bool
  | .run =>
    match s.pc with
    | .chosen _ _ _ => true
    | _ => false
  | _ => false

end Wheel

theorem Beat.credit_poll (n : Nat) (b : Beat) :
    ({ b with anyPoll := true } : Beat).credit n ≤ b.credit n + (callCost n - 1) := by
  obtain ⟨second, anyPoll⟩ := b
  cases second <;> cases anyPoll <;> simp only [Beat.credit, callCost] <;> omega

theorem Pc.credit_atStage (n : Nat) (c : Caller) (key : TaskKey) (stage : Stage) :
    (Pc.atStage c key stage).credit n = c.credit n key := by
  cases stage <;> rfl

namespace Wheel

/-- The amount that a poll of a task and a call of `poll_internal` bring in. -/
def gain (n : Nat) (s : Wheel) (e : Event) : Nat :=
  (if s.pollsTask e then callCost n else 0) + (if s.entersPoll e then callCost n else 0)

theorem credit_begins {s : Wheel} {second : Bool} {n : Nat} (length : s.tasks.length = n)
    (begins : Begins s second) :
    1 + (Pc.sweep ⟨second, false⟩ 0).credit n ≤ s.pc.credit n := by
  cases begins with
  | clear pc =>
    simp only [pc, Pc.credit, Beat.credit, callCost]
    omega
  | register pc =>
    simp only [pc, Pc.credit, Beat.credit]
    omega
  | again b key pc past first busy =>
    simp only [pc, Pc.credit, Beat.credit, first, busy]
    omega

theorem credit_ended {s : Wheel} {b : Beat} {key : TaskKey} {pc : Pc} {n : Nat}
    (ended : Ended s b pc) : 1 + pc.credit n ≤ (Pc.sweep b key).credit n := by
  cases ended with
  | register first quiet =>
    simp only [Pc.credit, Beat.credit, first, quiet]
    omega
  | clear second busy =>
    simp only [Pc.credit, Beat.credit, second, busy]
    omega
  | finish second quiet =>
    simp only [Pc.credit, Beat.credit, second, quiet]
    omega
  | pending second quiet =>
    simp only [Pc.credit, Beat.credit, second, quiet]
    omega

theorem credit_arm {b : Beat} {r : StopReason} {c : Caller} {n key : Nat} (arm : Arm b r c)
    (present : key < n) : 1 + c.credit n key ≤ (Pc.sweep b key).credit n := by
  cases arm <;> simp only [Caller.credit, Pc.credit] <;> omega

theorem credit_after {c : Caller} (n key : Nat) (session : c.inSession = true) :
    1 + (Pc.after key c).credit n ≤ c.credit n key := by
  cases c <;> simp only [Pc.after, Caller.credit, Pc.credit] <;> first | omega | cases session

/-- Each own step is paid for. -/
theorem credit_step {s s' : Wheel} {e : Event} {n : Nat} (sound : Sound s)
    (length : s.tasks.length = n) (goes_on : e ≠ .drop) (h : s.step e = some s') :
    (if s.runsCode e then 1 else 0) + s'.pc.credit n ≤ s.pc.credit n + s.gain n e := by
  have present : ∀ {key : Nat} {task : StaticFuture}, s.get key = some task → key < n :=
    fun found => length ▸ (List.getElem?_eq_some_iff.mp found).1
  have idle : e ≠ .run → s.runsCode e = false := by
    intro quiet
    cases e <;> first | rfl | exact absurd rfl quiet
  cases step_move sound.session goes_on h with
  | stay pc' quiet =>
    rw [idle quiet, pc']
    simp
  | settled v pc pc' quiet =>
    rw [idle quiet, pc']
    simp [Pc.credit]
  | enter w event pc pc' =>
    subst event
    rw [pc']
    simp [runsCode, gain, pollsTask, entersPoll, Pc.credit]
  | begins second event begins pc' =>
    subst event
    rw [pc']
    exact Nat.le_trans (credit_begins length begins) (Nat.le_add_right _ _)
  | ended b key event pc past ended =>
    subst event
    rw [pc]
    exact Nat.le_trans (credit_ended ended) (Nat.le_add_right _ _)
  | skip b key task event pc found rest pc' =>
    subst event
    have := present found
    simp only [runsCode, if_true, pc, pc', Pc.credit]
    omega
  | choose b key task event pc found reason runnable pc' =>
    subst event
    have := present found
    simp only [runsCode, if_true, pc, pc', Pc.credit]
    omega
  | arm b key task c event pc found arm free entered =>
    subst event
    rw [entered.pc', Pc.credit_atStage, pc]
    exact Nat.le_trans (credit_arm arm (present found)) (Nat.le_add_right _ _)
  | pass b key task event pc found waiting pc' =>
    subst event
    have := present found
    simp only [runsCode, if_true, pc, pc', Pc.credit]
    omega
  | proceed b key task event pc found runnable pc' =>
    subst event
    simp only [runsCode, if_true, pc, pc', Pc.credit]
    omega
  | pollBegin b key restart task c event pc found free caller entered =>
    subst event
    rw [entered.pc', Pc.credit_atStage, caller]
    have := Beat.credit_poll n b
    have : 1 ≤ callCost n := by unfold callCost; omega
    simp only [runsCode, if_true, pc, gain, pollsTask, Caller.credit, Pc.credit]
    omega
  | handled c key stage stage' write fresh pc handle staged =>
    obtain ⟨f, _, staged⟩ := sound.staged pc staged
    rw [idle handle.quiet, staged.pc', Pc.credit_atStage, pc]
    simp [Pc.credit]
  | resumed c key isReady event pc pc' =>
    subst event
    have session : c.inSession = true := by
      have inside := sound.session
      rw [pc] at inside
      exact inside
    rw [pc, pc']
    exact Nat.le_trans (credit_after n key session) (Nat.le_add_right _ _)
  | answer finished event pc pc' =>
    subst event
    simp [runsCode, pc, pc', Pc.credit]
  | unwound c key stage event pc code pc' =>
    subst event
    simp [runsCode, pc', Pc.credit]
  | nested key event busy hand => exact (sound.not_nested busy hand).elim

theorem credit (n : Nat) : Credit step (fun s => Sound s ∧ s.tasks.length = n)
    (fun _ e _ => continues e = true) runsCode (fun s => s.pc.credit n) (gain n) where
  keeps s e t inv h session := by
    have goes_on : e ≠ .drop := by rintro rfl; cases session
    exact ⟨step_sound inv.1 goes_on h,
      (step_change inv.1.session goes_on h).length_eq.trans inv.2⟩
  pays s e t inv h session := by
    have goes_on : e ≠ .drop := by rintro rfl; cases session
    exact credit_step inv.1 inv.2 goes_on h

end Wheel
end Juggle.St
