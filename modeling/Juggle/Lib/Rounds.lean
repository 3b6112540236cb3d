import Juggle.Lib.Run

/-! Fairness of a server that goes round. From what one step does to one customer follow
how often the customer is served in a round, and how long it waits. -/
namespace Juggle.Runs

variable {S E : Type}

/-- How one customer sees the server. `serve` is the step that serves it; in a round the
server first comes up to it (`near`) and then has left it behind. -/
structure Customer (S E : Type) where
  serve : S → E → Bool
  near : S → Prop
  wants : S → Prop

/-- A customer is served in passing. `start` begins a round, and `I` holds in all states of
a run whose steps satisfy `C`. -/
structure Laps (step : S → E → Option S) (I : S → Prop) (C : S → E → S → Prop)
    (start : S → E → Bool) (c : Customer S E) : Prop where
  keeps : ∀ s e t, I s → step s e = some t → C s e t → I t
  quiet : ∀ s e, ¬ c.near s → c.serve s e = false
  served : ∀ s e t, I s → step s e = some t → c.serve s e = true → ¬ c.near t ∧ start s e = false
  stays : ∀ s e t, I s → step s e = some t → C s e t → ¬ c.near s → start s e = false → ¬ c.near t

/-- The server does not pass over a customer that wants to be served. -/
structure Rounds (step : S → E → Option S) (I : S → Prop) (C : S → E → S → Prop)
    (start : S → E → Bool) (c : Customer S E) : Prop extends Laps step I C start c where
  waits : ∀ s e t, I s → step s e = some t → C s e t → c.wants s → c.serve s e = false → c.wants t
  comes : ∀ s e t, I s → step s e = some t → C s e t → c.wants s → c.near s →
    c.serve s e = false → start s e = false ∧ c.near t
  starts : ∀ s e t, I s → step s e = some t → C s e t → start s e = true → c.wants s → c.near t

variable {step : S → E → Option S} {I : S → Prop} {C : S → E → S → Prop} {start : S → E → Bool}
  {c d : Customer S E} {s t : S} {es : List E}

/-- A customer is served once in a round at most. -/
theorem Laps.serves_le (laps : Laps step I C start c) (inv : I s) (cond : Along step C s es) :
    tally step c.serve s es ≤ tally step start s es + 1 ∧
      (¬ c.near s → tally step c.serve s es ≤ tally step start s es) := by
  induction es generalizing s with
  | nil => exact ⟨Nat.zero_le _, fun _ => Nat.le_refl _⟩
  | cons e es ih =>
    cases hr : step s e with
    | none => simp [tally, hr]
    | some r =>
      obtain ⟨hc, rest⟩ := cond r hr
      obtain ⟨most, later⟩ := ih (laps.keeps s e r inv hr hc) rest
      simp only [tally, hr]
      cases served : c.serve s e with
      | true =>
        obtain ⟨past, same⟩ := laps.served s e r inv hr served
        have bound := later past
        refine ⟨by simp [same]; omega, fun before => ?_⟩
        rw [laps.quiet s e before] at served
        cases served
      | false =>
        refine ⟨by simp; omega, fun before => ?_⟩
        cases round : start s e with
        | true =>
          simp
          omega
        | false =>
          have bound := later (laps.stays s e r inv hr hc before round)
          simpa using bound

namespace Rounds

/-- While a customer waits at most one more round starts, and none once the server is near. -/
theorem starts_le (rounds : Rounds step I C start c) (inv : I s) (cond : Along step C s es)
    (wants : c.wants s) (silent : Along step (fun s e _ => c.serve s e = false) s es) :
    tally step start s es ≤ 1 ∧ (c.near s → tally step start s es = 0) := by
  induction es generalizing s with
  | nil => exact ⟨Nat.zero_le 1, fun _ => rfl⟩
  | cons e es ih =>
    cases hr : step s e with
    | none => simp [tally, hr]
    | some r =>
      obtain ⟨hc, cond⟩ := cond r hr
      obtain ⟨unserved, silent⟩ := silent r hr
      have still := rounds.waits s e r inv hr hc wants unserved
      obtain ⟨most, none⟩ := ih (rounds.keeps s e r inv hr hc) cond still silent
      simp only [tally, hr]
      cases round : start s e with
      | true =>
        have near := rounds.starts s e r inv hr hc round wants
        refine ⟨by simp [none near], fun before => ?_⟩
        rw [(rounds.comes s e r inv hr hc wants before unserved).1] at round
        cases round
      | false =>
        refine ⟨by simpa using most, fun before => ?_⟩
        simpa using none (rounds.comes s e r inv hr hc wants before unserved).2

/-- No other customer is served three times before one that waits. -/
theorem overtaken_twice (rounds : Rounds step I C start c) (others : Laps step I C start d)
    (inv : I s) (run : exec step s es = some t) (cond : Along step C s es) (wants : c.wants s)
    (three : 3 ≤ tally step d.serve s es) : 0 < tally step c.serve s es := by
  apply tally_pos_of_not_along run
  intro silent
  have most := (others.serves_le inv cond).1
  have few := (rounds.starts_le inv cond wants silent).1
  omega

end Rounds
end Juggle.Runs
