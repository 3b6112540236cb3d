import Juggle.Lib.Run

/-! Machines seen from outside. A step of a machine shows some labels, and an abstract
machine says which labels may follow one another. The rules turn a simulation of single
steps into one of whole runs, and what the steps of the abstract machine do into facts
about everything a run ever shows. -/
namespace Juggle.Traces
open Juggle.Runs

variable {S E M L : Type}

/-- The abstract machine goes from one state to another and shows these labels. -/
inductive Path (next : M → L → M → Prop) : M → List L → M → Prop
  | nil (m : M) : Path next m [] m
  | cons {m n k : M} {l : L} {ls : List L} (first : next m l n) (rest : Path next n ls k) :
      Path next m (l :: ls) k

/-- The labels of a run, in their order. -/
def shown (step : S → E → Option S) (shows : S → E → List L) : S → List E → List L
  | _, [] => []
  | s, e :: es =>
    match step s e with
    | none => []
    | some t => shows s e ++ shown step shows t es

/-- Every label is a good one, up to and including the first that lifts the promise. -/
def UpTo (good lifted : L → Prop) : List L → Prop
  | [] => True
  | l :: ls => good l ∧ (¬ lifted l → UpTo good lifted ls)

/-- After each label with the trigger the promise is kept. -/
def After (trigger : L → Prop) (good lifted : L → Prop) (ls : List L) : Prop :=
  ∀ pre l post, ls = pre ++ l :: post → trigger l → UpTo good lifted post

section Paths
variable {next : M → L → M → Prop}

theorem Path.one {m n : M} {l : L} (h : next m l n) : Path next m [l] n := .cons h (.nil n)

theorem Path.append {m n k : M} {ls ks : List L} (first : Path next m ls n)
    (second : Path next n ks k) : Path next m (ls ++ ks) k := by
  induction first with
  | nil m => exact second
  | cons step rest ih => exact .cons step (ih second)

theorem Path.split {m k : M} {ls ks : List L} (path : Path next m (ls ++ ks) k) :
    ∃ n, Path next m ls n ∧ Path next n ks k := by
  induction ls generalizing m with
  | nil => exact ⟨m, .nil m, path⟩
  | cons l ls ih =>
    cases path with
    | cons step rest =>
      obtain ⟨n, first, second⟩ := ih rest
      exact ⟨n, .cons step first, second⟩

/-- A path of a machine whose labels are its events is a run. -/
theorem Path.exec {step : S → E → Option S} {s t : S} {es : List E}
    (path : Path (fun s e t => step s e = some t) s es t) : Runs.exec step s es = some t := by
  induction path with
  | nil s => rfl
  | cons first rest ih => simp [Runs.exec, first, ih]

theorem Path.invariant {I : M → Prop} (kept : ∀ m l n, I m → next m l n → I n) {m n : M}
    {ls : List L} (start : I m) (path : Path next m ls n) : I n := by
  induction path with
  | nil m => exact start
  | cons step rest ih => exact ih (kept _ _ _ start step)

/-- A fact that lasts until the promise is lifted and that makes each label good. -/
theorem Path.upTo {I : M → Prop} {good lifted : L → Prop}
    (kept : ∀ m l n, I m → next m l n → good l ∧ (¬ lifted l → I n)) {m n : M} {ls : List L}
    (start : I m) (path : Path next m ls n) : UpTo good lifted ls := by
  induction path with
  | nil m => trivial
  | cons step rest ih =>
    obtain ⟨fine, stays⟩ := kept _ _ _ start step
    exact ⟨fine, fun open_ => ih (stays open_)⟩

/-- The trigger establishes the fact behind the promise, whatever came before it. -/
theorem Path.after {I J : M → Prop} {trigger good lifted : L → Prop}
    (always : ∀ m l n, J m → next m l n → J n)
    (sets : ∀ m l n, J m → next m l n → trigger l → I n)
    (kept : ∀ m l n, J m → I m → next m l n → good l ∧ (¬ lifted l → I n)) {m n : M}
    {ls : List L} (start : J m) (path : Path next m ls n) : After trigger good lifted ls := by
  intro pre l post eq triggered
  rw [eq] at path
  obtain ⟨a, before, later⟩ := path.split
  cases later with
  | cons step rest =>
    have here := before.invariant always start
    have both := rest.upTo (I := fun m => J m ∧ I m)
      (fun m l n hold step => ⟨(kept m l n hold.1 hold.2 step).1,
        fun open_ => ⟨always m l n hold.1 step, (kept m l n hold.1 hold.2 step).2 open_⟩⟩)
      ⟨always _ _ _ here step, sets _ _ _ here step triggered⟩
    exact both

/-- A quantity that the labels of one kind raise by one and those of another lower by one. -/
theorem Path.balance {J : M → Prop} (f : M → Nat) {up down : L → Bool}
    (each : ∀ m l n, J m → next m l n →
      J n ∧ f n + (if down l then 1 else 0) = f m + (if up l then 1 else 0))
    {m n : M} {ls : List L} (start : J m) (path : Path next m ls n) :
    f n + ls.countP down = f m + ls.countP up := by
  induction path with
  | nil m => rfl
  | cons step rest ih =>
    obtain ⟨holds, local_⟩ := each _ _ _ start step
    have tail := ih holds
    simp only [List.countP_cons]
    omega

end Paths

section Simulation
variable {step : S → E → Option S} {shows : S → E → List L} {next : M → L → M → Prop}

/-- Forward simulation with a side condition on the steps of the run. -/
theorem simulation_along {R : S → M → Prop} {P : S → E → S → Prop}
    (simulates : ∀ s m e t, R s m → step s e = some t → P s e t →
      ∃ n, Path next m (shows s e) n ∧ R t n)
    {s t : S} {m : M} {es : List E} (related : R s m) (run : exec step s es = some t)
    (cond : Along step P s es) : ∃ n, Path next m (shown step shows s es) n ∧ R t n := by
  induction es generalizing s m with
  | nil =>
    cases Option.some.inj run
    exact ⟨m, .nil m, related⟩
  | cons e es ih =>
    obtain ⟨r, taken, rest⟩ := exec_cons run
    obtain ⟨fine, later⟩ := cond r taken
    obtain ⟨n, first, kept⟩ := simulates s m e r related taken fine
    obtain ⟨k, second, final⟩ := ih kept rest later
    refine ⟨k, ?_, final⟩
    have split : shown step shows s (e :: es) = shows s e ++ shown step shows r es := by
      simp only [shown, taken]
    exact split ▸ first.append second

theorem simulation {R : S → M → Prop}
    (simulates : ∀ s m e t, R s m → step s e = some t → ∃ n, Path next m (shows s e) n ∧ R t n)
    {s t : S} {m : M} {es : List E} (related : R s m) (run : exec step s es = some t) :
    ∃ n, Path next m (shown step shows s es) n ∧ R t n :=
  simulation_along (P := fun _ _ _ => True) (fun s m e t related taken _ => simulates s m e t related taken)
    related run (along_events (q := fun _ => True) (fun _ _ => trivial))

end Simulation
end Juggle.Traces
