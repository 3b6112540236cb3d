import Mathlib.Data.List.Basic
import Juggle.Lib.Object

/-! Linearizations of concurrent calls. A completed call is recorded with the times of its
start and its end. Completed calls that take effect one after the other can be put in
the order of their ends: that order never contradicts the times. -/
namespace Juggle.Linear
open Juggle.Objects

variable {M O A : Type}

structure Record (O A : Type) where
  thread : Nat
  op : O
  answer : A
  began : Nat
  ended : Nat

def Record.shown (r : Record O A) : O × A := (r.op, r.answer)

/-- No call stands behind one that began after its end. -/
def RespectsTime (order : List (Record O A)) : Prop :=
  order.Pairwise fun a b => ¬ b.ended < a.began

/-- A total order of the completed calls that fits the times and replays them on the
sequential object from `m` to `n`. -/
structure Linearization (spec : M → O → A → M → Prop) (m : M) (done order : List (Record O A))
    (n : M) : Prop where
  complete : order.Perm done
  time : RespectsTime order
  replay : Allowed spec m (order.map Record.shown) n

/-- Calls listed as they ended, before the time `now`. -/
structure Chronicle (done : List (Record O A)) (now : Nat) : Prop where
  sorted : done.Pairwise fun a b => a.ended < b.ended
  proper : ∀ r ∈ done, r.began ≤ r.ended
  past : ∀ r ∈ done, r.ended < now

theorem Chronicle.nil (now : Nat) : Chronicle ([] : List (Record O A)) now where
  sorted := .nil
  proper r member := by cases member
  past r member := by cases member

theorem Chronicle.later {done : List (Record O A)} {now later : Nat} (h : Chronicle done now)
    (le : now ≤ later) : Chronicle done later :=
  { h with past := fun r member => Nat.lt_of_lt_of_le (h.past r member) le }

theorem Chronicle.snoc {done : List (Record O A)} {now : Nat} (h : Chronicle done now)
    {r : Record O A} (ended : r.ended = now) (began : r.began ≤ now) :
    Chronicle (done ++ [r]) (now + 1) where
  sorted := by
    refine List.pairwise_append.mpr ⟨h.sorted, List.pairwise_singleton _ r, fun a member b last => ?_⟩
    rw [List.mem_singleton.mp last, ended]
    exact h.past a member
  proper a member := by
    rcases List.mem_append.mp member with old | new
    · exact h.proper a old
    · rw [List.mem_singleton.mp new, ended]
      exact began
  past a member := by
    rcases List.mem_append.mp member with old | new
    · exact Nat.lt_succ_of_lt (h.past a old)
    · rw [List.mem_singleton.mp new, ended]
      exact Nat.lt_succ_self now

/-- The order of the ends is a linearization. -/
theorem Chronicle.linearization {spec : M → O → A → M → Prop} {m n : M} {done : List (Record O A)}
    {now : Nat} (h : Chronicle done now) (replay : Allowed spec m (done.map Record.shown) n) :
    Linearization spec m done done n where
  complete := .refl done
  time := by
    refine List.Pairwise.imp_of_mem ?_ h.sorted
    intro a b first _ earlier
    have := h.proper a first
    omega
  replay := replay

end Juggle.Linear
