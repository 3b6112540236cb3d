import Mathlib.Data.Nat.Find
import Juggle.Lib.Run

/-! Runs without end. Fairness is a premise on the events of one such run; the rule below
turns it and a measure into a state outside of a region. -/
namespace Juggle.Runs

variable {S E : Type}

/-- A run that goes on forever. -/
structure Play (step : S → E → Option S) where
  state : Nat → S
  event : Nat → E
  taken : ∀ n, step (state n) (event n) = some (state (n + 1))

theorem exec_split {step : S → E → Option S} {s u : S} {es fs : List E}
    (run : exec step s (es ++ fs) = some u) :
    ∃ t, exec step s es = some t ∧ exec step t fs = some u := by
  induction es generalizing s with
  | nil => exact ⟨s, rfl, run⟩
  | cons e es ih =>
    obtain ⟨r, hr, rest⟩ := exec_cons run
    obtain ⟨t, first, second⟩ := ih rest
    exact ⟨t, by simpa [exec, hr] using first, second⟩

namespace Play
variable {step : S → E → Option S}

theorem reachable {init : S → Prop} (p : Play step) (start : Reachable step init (p.state 0))
    (n : Nat) : Reachable step init (p.state n) := by
  induction n with
  | zero => exact start
  | succ n ih => exact ih.next (p.taken n)

/-- What each step keeps lasts from the first state on in which it holds. -/
theorem lasts {I : S → Prop} (p : Play step)
    (preserved : ∀ s e t, I s → step s e = some t → I t) {n m : Nat} (later : n ≤ m)
    (start : I (p.state n)) : I (p.state m) := by
  induction later with
  | refl => exact start
  | step _ ih => exact preserved _ _ _ ih (p.taken _)

/-- A play leaves a region in which no step raises a measure and the events satisfying
`own`, which come again and again, lower it. -/
theorem leaves {P : S → Prop} {own : E → Bool} {measure : S → Nat} (p : Play step)
    (recurs : ∀ n, P (p.state n) → ∃ m, n ≤ m ∧ own (p.event m) = true)
    (lowers : ∀ n, (∀ i ≤ n + 1, P (p.state i)) →
      measure (p.state (n + 1)) + (if own (p.event n) then 1 else 0) ≤ measure (p.state n)) :
    ∃ m, ¬ P (p.state m) ∧ ∀ n < m, P (p.state n) := by
  have left : ∃ m, ¬ P (p.state m) := by
    by_contra stays
    simp only [not_exists, not_not] at stays
    have falls := fun n => lowers n fun i _ => stays i
    have descends : ∀ {n m}, n ≤ m → measure (p.state m) ≤ measure (p.state n) := by
      intro n m later
      induction later with
      | refl => exact Nat.le_refl _
      | step _ ih => exact Nat.le_trans (Nat.le_trans (Nat.le_add_right _ _) (falls _)) ih
    have never : ∀ v n, measure (p.state n) = v → False := by
      intro v
      induction v using Nat.strongRecOn with
      | _ v ih =>
        intro n here
        obtain ⟨m, later, mine⟩ := recurs n (stays n)
        have fall := falls m
        rw [if_pos mine] at fall
        have above := descends later
        exact ih (measure (p.state (m + 1))) (by omega) (m + 1) rfl
    exact never _ 0 rfl
  classical
  exact ⟨Nat.find left, Nat.find_spec left, fun n before => not_not.mp (Nat.find_min left before)⟩

/-- A finite run whose last state an event leaves as it is. -/
def settle {s t : S} (es : List E) (e : E) (run : exec step s es = some t)
    (still : step t e = some t) : Play step where
  state n := last step s (es.take n)
  event n := es[n]?.getD e
  taken n := by
    have along : ∀ k, exec step s (es.take k) = some (last step s (es.take k)) := by
      intro k
      have whole : exec step s (es.take k ++ es.drop k) = some t := by rwa [List.take_append_drop]
      obtain ⟨r, first, _⟩ := exec_split whole
      exact exec_last (first ▸ rfl)
    by_cases inside : n < es.length
    · have next := along (n + 1)
      rw [List.take_succ_eq_append_getElem inside] at next
      obtain ⟨r, first, second⟩ := exec_split next
      obtain ⟨u, taken, same⟩ := exec_cons second
      cases Option.some.inj ((along n).symm.trans first)
      cases Option.some.inj same
      rw [List.take_succ_eq_append_getElem inside, List.getElem?_eq_getElem inside]
      exact taken
    · have past : es.length ≤ n := Nat.le_of_not_lt inside
      have done := along n
      rw [List.take_of_length_le past, run] at done
      rw [List.take_of_length_le past, List.take_of_length_le (Nat.le_succ_of_le past),
        List.getElem?_eq_none past, ← Option.some.inj done]
      exact still

theorem settle_state {s t : S} {es : List E} {e : E} (run : exec step s es = some t)
    (still : step t e = some t) {n : Nat} (past : es.length ≤ n) :
    (settle es e run still).state n = t := by
  simp only [settle, List.take_of_length_le past, last, run, Option.getD_some]

end Play
end Juggle.Runs
