import Mathlib.Logic.Basic

/-! Runs of a deterministic machine whose nondeterminism is carried by its events.
An event that is not enabled makes the run undefined. The rules below turn a fact
about one step into a fact about every run of any length. -/
namespace Juggle.Runs

variable {S E : Type}

/-- The state after a list of events, if each of them was enabled. -/
def exec (step : S → E → Option S) : S → List E → Option S
  | s, [] => some s
  | s, e :: es => (step s e).bind (fun t => exec step t es)

/-- The last state of a run that is known to be enabled. -/
def last (step : S → E → Option S) (s : S) (es : List E) : S := (exec step s es).getD s

def Reachable (step : S → E → Option S) (init : S → Prop) (s : S) : Prop :=
  ∃ s₀ es, init s₀ ∧ exec step s₀ es = some s

/-- Every step taken along the events satisfies `P`. -/
def Along (step : S → E → Option S) (P : S → E → S → Prop) : S → List E → Prop
  | _, [] => True
  | s, e :: es => ∀ t, step s e = some t → P s e t ∧ Along step P t es

/-- The number of steps taken along the events that satisfy `q`. -/
def tally (step : S → E → Option S) (q : S → E → Bool) : S → List E → Nat
  | _, [] => 0
  | s, e :: es =>
    match step s e with
    | none => 0
    | some t => (if q s e then 1 else 0) + tally step q t es

/-- `P` holds in every state from the first one on, until a step satisfying `q` is taken. -/
def Until (step : S → E → Option S) (P : S → Prop) (q : S → E → Bool) : S → List E → Prop
  | s, [] => P s
  | s, e :: es => P s ∧ (q s e = false → ∀ t, step s e = some t → Until step P q t es)

/-- No run from the state goes on forever. -/
def Terminates (step : S → E → Option S) (s : S) : Prop :=
  Acc (fun t s => ∃ e, step s e = some t) s

section Rules
variable {step : S → E → Option S}

theorem exec_last {s : S} {es : List E} (enabled : (exec step s es).isSome = true) :
    exec step s es = some (last step s es) := by
  obtain ⟨t, run⟩ := Option.isSome_iff_exists.mp enabled
  simp [last, run]

theorem step_last {s : S} {e : E} (enabled : (step s e).isSome = true) :
    step s e = some (last step s [e]) := by
  obtain ⟨t, taken⟩ := Option.isSome_iff_exists.mp enabled
  simp [last, exec, taken]

theorem exec_cons {s u : S} {e : E} {es : List E} (h : exec step s (e :: es) = some u) :
    ∃ t, step s e = some t ∧ exec step t es = some u := by
  simpa [exec, Option.bind_eq_some_iff] using h

theorem exec_append {s t u : S} {es fs : List E} (first : exec step s es = some t)
    (second : exec step t fs = some u) : exec step s (es ++ fs) = some u := by
  induction es generalizing s with
  | nil =>
    cases Option.some.inj first
    exact second
  | cons e es ih =>
    obtain ⟨r, hr, rest⟩ := exec_cons first
    simpa [exec, hr] using ih rest

theorem Reachable.start {init : S → Prop} {s : S} (h : init s) : Reachable step init s :=
  ⟨s, [], h, rfl⟩

theorem Reachable.extend {init : S → Prop} {s t : S} {es : List E}
    (reach : Reachable step init s) (run : exec step s es = some t) : Reachable step init t := by
  obtain ⟨s₀, fs, h₀, hs⟩ := reach
  exact ⟨s₀, fs ++ es, h₀, exec_append hs run⟩

theorem Reachable.next {init : S → Prop} {s t : S} {e : E}
    (reach : Reachable step init s) (h : step s e = some t) : Reachable step init t :=
  have one : exec step s [e] = some t := by simp [exec, h]
  reach.extend one

/-- The invariant rule with a side condition on the steps of the run. -/
theorem invariant_along {I : S → Prop} {P : S → E → S → Prop}
    (preserved : ∀ s e t, I s → step s e = some t → P s e t → I t)
    {s t : S} {es : List E} (start : I s) (run : exec step s es = some t)
    (cond : Along step P s es) : I t := by
  induction es generalizing s with
  | nil => exact Option.some.inj run ▸ start
  | cons e es ih =>
    obtain ⟨r, hr, rest⟩ := exec_cons run
    obtain ⟨hp, hrest⟩ := cond r hr
    exact ih (preserved s e r start hr hp) rest hrest

theorem invariant_run {I : S → Prop} (preserved : ∀ s e t, I s → step s e = some t → I t)
    {s t : S} {es : List E} (start : I s) (run : exec step s es = some t) : I t := by
  induction es generalizing s with
  | nil => exact Option.some.inj run ▸ start
  | cons e es ih =>
    obtain ⟨r, hr, rest⟩ := exec_cons run
    exact ih (preserved s e r start hr) rest

theorem invariant_reachable {I : S → Prop} {init : S → Prop} (initial : ∀ s, init s → I s)
    (preserved : ∀ s e t, I s → step s e = some t → I t) {s : S}
    (reach : Reachable step init s) : I s := by
  obtain ⟨s₀, es, h₀, run⟩ := reach
  exact invariant_run preserved (initial s₀ h₀) run

/-- Runs end where every step lowers a measure. -/
theorem terminates_of_measure {I : S → Prop} {α : Type} {r : α → α → Prop} (wf : WellFounded r)
    (measure : S → α) (lowers : ∀ s e t, I s → step s e = some t → I t ∧ r (measure t) (measure s))
    {s : S} (start : I s) : Terminates step s := by
  induction h : measure s using wf.induction generalizing s with
  | _ a ih =>
    refine Acc.intro s (fun t taken => ?_)
    obtain ⟨e, taken⟩ := taken
    obtain ⟨kept, lower⟩ := lowers s e t start taken
    exact ih (measure t) (h ▸ lower) kept rfl

theorem along_events {q : E → Prop} {s : S} {es : List E} (h : ∀ e ∈ es, q e) :
    Along step (fun _ e _ => q e) s es := by
  induction es generalizing s with
  | nil => trivial
  | cons e es ih =>
    exact fun t _ => ⟨h e List.mem_cons_self, ih (fun f hf => h f (List.mem_cons_of_mem e hf))⟩

theorem along_and {P Q : S → E → S → Prop} {s : S} {es : List E}
    (left : Along step P s es) (right : Along step Q s es) :
    Along step (fun s e t => P s e t ∧ Q s e t) s es := by
  induction es generalizing s with
  | nil => trivial
  | cons e es ih =>
    exact fun t ht => ⟨⟨(left t ht).1, (right t ht).1⟩, ih (left t ht).2 (right t ht).2⟩

/-- An invariant that survives the steps allowed by `P` gives `Q` at each of them. -/
theorem along_of_invariant {I : S → Prop} {P Q : S → E → S → Prop}
    (preserved : ∀ s e t, I s → step s e = some t → P s e t → I t ∧ Q s e t)
    {s : S} {es : List E} (start : I s) (cond : Along step P s es) : Along step Q s es := by
  induction es generalizing s with
  | nil => trivial
  | cons e es ih =>
    intro t ht
    obtain ⟨hp, hrest⟩ := cond t ht
    obtain ⟨hi, hq⟩ := preserved s e t start ht hp
    exact ⟨hq, ih hi hrest⟩

theorem tally_pos_of_not_along {q : S → E → Bool} {s t : S} {es : List E}
    (run : exec step s es = some t)
    (h : ¬ Along step (fun s e _ => q s e = false) s es) : 0 < tally step q s es := by
  induction es generalizing s with
  | nil => exact absurd trivial h
  | cons e es ih =>
    obtain ⟨r, hr, rest⟩ := exec_cons run
    cases hq : q s e with
    | true =>
      have more : tally step q s (e :: es) = 1 + tally step q r es := by simp [tally, hr, hq]
      omega
    | false =>
      have tail : ¬ Along step (fun s e _ => q s e = false) r es := by
        intro hrest
        refine h (fun t ht => ?_)
        have same : t = r := Option.some.inj (ht.symm.trans hr)
        exact ⟨hq, same ▸ hrest⟩
      have more : tally step q s (e :: es) = tally step q r es := by simp [tally, hr, hq]
      exact more ▸ ih rest tail

theorem tally_eq_zero {q : S → E → Bool} {s : S} {es : List E}
    (h : Along step (fun s e _ => q s e = false) s es) : tally step q s es = 0 := by
  induction es generalizing s with
  | nil => rfl
  | cons e es ih =>
    cases hr : step s e with
    | none => simp [tally, hr]
    | some r => simp [tally, hr, (h r hr).1, ih (h r hr).2]

theorem tally_append {q : S → E → Bool} {s t : S} {es fs : List E}
    (first : exec step s es = some t) :
    tally step q s (es ++ fs) = tally step q s es + tally step q t fs := by
  induction es generalizing s with
  | nil =>
    cases Option.some.inj first
    simp [tally]
  | cons e es ih =>
    obtain ⟨r, hr, rest⟩ := exec_cons first
    simp [tally, hr, ih rest, Nat.add_assoc]

theorem until_along {P : S → Prop} {q : S → E → Bool} {s : S} {es : List E}
    (h : Until step P q s es) (silent : Along step (fun s e _ => q s e = false) s es) :
    Along step (fun s e t => P s ∧ P t ∧ q s e = false) s es := by
  induction es generalizing s with
  | nil => trivial
  | cons e es ih =>
    intro t ht
    obtain ⟨hq, hrest⟩ := silent t ht
    have tail := h.2 hq t ht
    have here : P t := by
      cases es with
      | nil => exact tail
      | cons f fs => exact tail.1
    exact ⟨⟨h.1, here, hq⟩, ih tail hrest⟩

/-- An invariant that survives the steps allowed by `C` lasts until a step satisfying `q`. -/
theorem until_of_invariant {I P : S → Prop} {C : S → E → S → Prop} {q : S → E → Bool}
    (preserved : ∀ s e t, I s → step s e = some t → C s e t → q s e = false → I t)
    (holds : ∀ s, I s → P s) {s : S} {es : List E} (start : I s) (cond : Along step C s es) :
    Until step P q s es := by
  induction es generalizing s with
  | nil => exact holds s start
  | cons e es ih =>
    refine ⟨holds s start, fun quiet t ht => ?_⟩
    obtain ⟨hc, hrest⟩ := cond t ht
    exact ih (preserved s e t start ht hc quiet) hrest

/-- A quantity that grows by one at the steps satisfying `q` and is kept by all others. -/
theorem tally_invariant {I : Nat → S → Prop} {q : S → E → Bool}
    (preserved : ∀ n s e t, I n s → step s e = some t → I (n + if q s e then 1 else 0) t)
    {n : Nat} {s t : S} {es : List E} (start : I n s) (run : exec step s es = some t) :
    I (n + tally step q s es) t := by
  induction es generalizing n s with
  | nil => exact Option.some.inj run ▸ start
  | cons e es ih =>
    obtain ⟨r, hr, rest⟩ := exec_cons run
    have tail := ih (preserved n s e r start hr) rest
    simpa only [tally, hr, Nat.add_assoc] using tail

instance decidableAlong {P : S → E → S → Prop} [∀ s e t, Decidable (P s e t)] :
    ∀ s es, Decidable (Along step P s es)
  | _, [] => isTrue trivial
  | s, e :: es =>
    match h : step s e with
    | none => isTrue (fun _ ht => nomatch h.symm.trans ht)
    | some r =>
      have : Decidable (Along step P r es) := decidableAlong r es
      decidable_of_iff (P s e r ∧ Along step P r es)
        ⟨fun hp _ ht => Option.some.inj (h.symm.trans ht) ▸ hp, fun hp => hp r h⟩

instance decidableUntil {P : S → Prop} {q : S → E → Bool} [∀ s, Decidable (P s)] :
    ∀ s es, Decidable (Until step P q s es)
  | s, [] => inferInstanceAs (Decidable (P s))
  | s, e :: es =>
    match h : step s e with
    | none => decidable_of_iff (P s)
        ⟨fun hp => ⟨hp, fun _ _ ht => nomatch h.symm.trans ht⟩, fun hp => hp.1⟩
    | some r =>
      have : Decidable (Until step P q r es) := decidableUntil r es
      decidable_of_iff (P s ∧ (q s e = false → Until step P q r es))
        ⟨fun hp => ⟨hp.1, fun hq _ ht => Option.some.inj (h.symm.trans ht) ▸ hp.2 hq⟩,
          fun hp => ⟨hp.1, fun hq => hp.2 hq r h⟩⟩

end Rules
end Juggle.Runs
