import Juggle.Lib.Run

/-! Bounds on the work of a run. A potential of the states pays for the steps that work,
and some steps add to it. -/
namespace Juggle.Runs

variable {S E : Type}

/-- The sum of an amount over the steps taken along the events. -/
def total (step : S → E → Option S) (g : S → E → Nat) : S → List E → Nat
  | _, [] => 0
  | s, e :: es =>
    match step s e with
    | none => 0
    | some t => g s e + total step g t es

/-- `I` holds in all states of a run whose steps satisfy `C`. A step that works lowers the
potential `p` by one at least, but for its gain. -/
structure Credit (step : S → E → Option S) (I : S → Prop) (C : S → E → S → Prop)
    (work : S → E → Bool) (p : S → Nat) (gain : S → E → Nat) : Prop where
  keeps : ∀ s e t, I s → step s e = some t → C s e t → I t
  pays : ∀ s e t, I s → step s e = some t → C s e t →
    (if work s e then 1 else 0) + p t ≤ p s + gain s e

variable {step : S → E → Option S} {s : S} {es : List E}

end Juggle.Runs
