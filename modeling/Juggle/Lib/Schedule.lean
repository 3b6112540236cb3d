import Mathlib.Data.List.Nodup

/-! Round robin over a finite number of customers, each of which needs a number of turns. -/
namespace Juggle.Turns

/-- The number of laps until nobody needs a turn. -/
def laps (need : Nat → Nat) : Nat → Nat
  | 0 => 0
  | n + 1 => Nat.max (laps need n) (need n)

/-- One lap after the other, in each of which those take a turn that still need one. -/
def schedule (need : Nat → Nat) (n : Nat) : List Nat :=
  (List.range (laps need n)).flatMap fun lap =>
    (List.range n).filter fun k => decide (lap < need k)

variable {need need' : Nat → Nat} {n k : Nat}

theorem need_le_laps (here : k < n) : need k ≤ laps need n := by
  induction n with
  | zero => exact absurd here (Nat.not_lt_zero k)
  | succ n ih =>
    rcases Nat.lt_succ_iff_lt_or_eq.mp here with below | rfl
    · exact Nat.le_trans (ih below) (Nat.le_max_left _ _)
    · exact Nat.le_max_right _ _

theorem laps_congr (same : ∀ k < n, need k = need' k) : laps need n = laps need' n := by
  induction n with
  | zero => rfl
  | succ n ih =>
    rw [laps, laps, ih (fun k below => same k (Nat.lt_succ_of_lt below)), same n (Nat.lt_succ_self n)]

theorem laps_pred (need : Nat → Nat) (n : Nat) : laps (fun k => need k - 1) n = laps need n - 1 := by
  induction n with
  | zero => rfl
  | succ n ih =>
    rw [laps, laps, ih]
    exact Nat.sub_max_sub_right _ _ 1

theorem schedule_congr (same : ∀ k < n, need k = need' k) : schedule need n = schedule need' n := by
  unfold schedule
  rw [laps_congr same]
  refine List.flatMap_congr (fun lap _ => List.filter_congr (fun k member => ?_))
  rw [same k (List.mem_range.mp member)]

/-- The first lap, and the laps after it. -/
theorem schedule_lap (need : Nat → Nat) (n : Nat) :
    schedule need n =
      ((List.range n).filter fun k => decide (0 < need k)) ++ schedule (fun k => need k - 1) n := by
  unfold schedule
  rw [laps_pred]
  cases longest : laps need n with
  | zero =>
    have none : ∀ k ∈ List.range n, ¬ decide (0 < need k) = true := by
      intro k member
      have le : need k ≤ laps need n := need_le_laps (List.mem_range.mp member)
      simp only [decide_eq_true_eq]
      omega
    simp [List.filter_eq_nil_iff.mpr none]
  | succ more =>
    rw [List.range_succ_eq_map, List.flatMap_cons, List.flatMap_map, Nat.add_sub_cancel]
    congr 1
    refine List.flatMap_congr (fun lap _ => List.filter_congr (fun k _ => ?_))
    exact decide_eq_decide.mpr Nat.lt_sub_iff_add_lt.symm

theorem schedule_done (done : ∀ k < n, need k = 0) : schedule need n = [] := by
  have none : laps need n = 0 := by
    rw [laps_congr done]
    induction n with
    | zero => rfl
    | succ n ih => rw [laps, ih (fun k below => done k (Nat.lt_succ_of_lt below))]; rfl
  rw [schedule, none]
  rfl

/-- Everybody takes as many turns as it needs. -/
theorem count_schedule (need : Nat → Nat) (here : k < n) : (schedule need n).count k = need k := by
  induction h : need k generalizing need with
  | zero =>
    refine List.count_eq_zero.mpr (fun member => ?_)
    obtain ⟨lap, _, chosen⟩ := List.mem_flatMap.mp member
    have := of_decide_eq_true (List.mem_filter.mp chosen).2
    omega
  | succ m ih =>
    have once : ((List.range n).filter fun k => decide (0 < need k)).count k = 1 := by
      rw [List.count_filter (by simp [h])]
      exact List.count_eq_one_of_mem List.nodup_range (List.mem_range.mpr here)
    rw [schedule_lap, List.count_append, once, ih (fun k => need k - 1) (by simp [h])]
    omega

end Juggle.Turns
