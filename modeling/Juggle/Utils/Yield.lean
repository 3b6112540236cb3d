import Mathlib.Data.List.Basic

/-! The futures of `yield_helper.rs`, and the async blocks that await one after the other.
Each of them notifies the waker whenever it is not ready. -/
namespace Juggle.Utils

/-- `Yield`, `YieldTimes` and `YieldWhile`. The closure of the last one is told by its
answers; after these it returns false. -/
inductive Yield where
  | once (done : Bool)
  | times (remaining : Nat)
  | yieldWhile (answers : List Bool)
  deriving DecidableEq

/-- The blocks of an async function between which it awaits these. -/
abbrev Script := List Yield

namespace Yield

/-- Whether the future is ready, and what becomes of it. -/
def poll : Yield → Bool × Yield
  | .once done => if done then (true, .once done) else (false, .once true)
  | .times remaining =>
    if remaining = 0 then (true, .times remaining) else (false, .times (remaining - 1))
  | .yieldWhile answers =>
    if answers.headD false then (false, .yieldWhile answers.tail) else (true, .yieldWhile answers.tail)

/-- How often the future is not ready. -/
def pendings : Yield → Nat
  | .once done => if done then 0 else 1
  | .times remaining => remaining
  | .yieldWhile answers => (answers.takeWhile id).length

theorem poll_ready_iff (y : Yield) : y.poll.1 = true ↔ y.pendings = 0 := by
  cases y with
  | once done => cases done <;> simp [poll, pendings]
  | times remaining =>
    simp only [poll, pendings]
    split <;> simp_all
  | yieldWhile answers =>
    cases answers with
    | nil => simp [poll, pendings]
    | cons answer answers => cases answer <;> simp [poll, pendings]

theorem poll_pending {y : Yield} (pending : y.poll.1 = false) :
    y.poll.2.pendings + 1 = y.pendings := by
  cases y with
  | once done => cases done <;> simp_all [poll, pendings]
  | times remaining =>
    simp only [poll, pendings] at pending ⊢
    split at pending
    · cases pending
    · rename_i left
      simp only [left, if_false]
      omega
  | yieldWhile answers =>
    cases answers with
    | nil => simp [poll] at pending
    | cons answer answers => cases answer <;> simp_all [poll, pendings]

end Yield

namespace Script

def poll : Script → Bool × Script
  | [] => (true, [])
  | y :: rest =>
    match y.poll with
    | (true, _) => poll rest
    | (false, y) => (false, y :: rest)

def pendings : Script → Nat
  | [] => 0
  | y :: rest => y.pendings + pendings rest

theorem poll_cons_ready {y : Yield} (rest : Script) (ready : y.poll.1 = true) :
    poll (y :: rest) = poll rest := by
  rw [poll]
  generalize y.poll = r at ready
  obtain ⟨_, y'⟩ := r
  cases ready
  rfl

theorem poll_cons_pending {y : Yield} (rest : Script) (pending : y.poll.1 = false) :
    poll (y :: rest) = (false, y.poll.2 :: rest) := by
  rw [poll]
  generalize y.poll = r at pending ⊢
  obtain ⟨_, y'⟩ := r
  cases pending
  rfl

theorem poll_ready {script : Script} (ready : (poll script).1 = true) :
    pendings script = 0 ∧ pendings (poll script).2 = 0 := by
  induction script with
  | nil => exact ⟨rfl, rfl⟩
  | cons y rest ih =>
    cases first : y.poll.1 with
    | true =>
      rw [poll_cons_ready rest first] at ready ⊢
      obtain ⟨before, after⟩ := ih ready
      exact ⟨by rw [pendings, before, y.poll_ready_iff.mp first], after⟩
    | false =>
      rw [poll_cons_pending rest first] at ready
      cases ready

/-- A block that is not ready has one await less to wait for. -/
theorem poll_pending {script : Script} (pending : (poll script).1 = false) :
    pendings (poll script).2 + 1 = pendings script := by
  induction script with
  | nil => cases pending
  | cons y rest ih =>
    cases first : y.poll.1 with
    | true =>
      rw [poll_cons_ready rest first] at pending ⊢
      rw [pendings, y.poll_ready_iff.mp first, ih pending, Nat.zero_add]
    | false =>
      rw [poll_cons_pending rest first, pendings, pendings, ← Yield.poll_pending first]
      omega

end Script
end Juggle.Utils
