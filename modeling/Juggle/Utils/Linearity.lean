import Mathlib.Data.Multiset.AddSub
import Juggle.Utils.Exclusion

/-! Linearizability of the atomic cell. Completed calls are replayed on a variable in the
order in which they end; the content of the cell follows the replay except for the one
call that is inside. A spurious failure of the exchange is taken for a success, so that
two calls can be inside at once: then values are lost and others are returned twice. -/
namespace Juggle.Utils.Cell
open Juggle.Runs Juggle.Objects Juggle.Linear

variable {T R : Type}

section Replay
variable {s t : State T R} {i : Nat} {th : Thread T R} {value m : T}

/-- The completed calls replay to `m`; the content is `m`, or what the call inside makes of it. -/
structure Replayed (value : T) (s : State T R) (m : T) : Prop where
  history : Allowed Variable value (s.done.map Record.shown) m
  quiet : (∀ i, window s i = none) → s.cell = m
  pending : ∀ i a, s.active i = some a → Pending m s.cell a

theorem pending_exchange {a : Active T R} (c : T) (phase : a.phase = .exchange) :
    Pending m c a := by
  simp only [Pending, phase]

/-- The pending calls of a state in which only thread `i` has moved. -/
theorem pending_put (found : s.threads[i]? = some th) {th' : Thread T R} {n c : T}
    (others : ∀ j a, j ≠ i → s.active j = some a → Pending n c a)
    (mine : ∀ a, th'.active = some a → Pending n c a) (j : Nat) (a : Active T R)
    (active : (s.put i th').active j = some a) : Pending n c a := by
  rw [active_put found] at active
  split at active
  · exact mine a active
  · rename_i other
    exact others j a other active

/-- Where one thread is inside, all others are before their exchange. -/
theorem others_exchange (inv : Exclusive s) {x : Bool} (mine : window s i = some x) (j : Nat)
    (a : Active T R) (other : j ≠ i) (active : s.active j = some a) : a.phase = .exchange := by
  refine inside_of_window active ?_
  cases held : window s j with
  | none => rfl
  | some y => exact absurd (inv.alone j i _ _ held mine) other

theorem start_replayed (value : T) (calls : List (List (Call T R))) :
    Replayed value (start value calls) value where
  history := .nil value
  quiet _ := rfl
  pending i a active := by
    cases found : calls[i]? with
    | none => simp [State.active, start, found] at active
    | some todo => simp [State.active, start, found] at active

theorem step_replayed {e : Event} (excl : Exclusive s) (inv : Replayed value s m)
    (taken : step s e = some t) (lone : unmixed s e = true) : ∃ n, Replayed value t n := by
  obtain ⟨th, found, move⟩ := step_move taken
  have here := active_of_found found
  cases move with
  | begin idle next =>
    refine ⟨m, inv.history, fun quiet => inv.quiet (fun j => ?_), ?_⟩
    · have := quiet j
      rw [window_put found] at this
      split at this
      · rename_i same
        rw [same, window, here, idle]
        rfl
      · exact this
    · refine pending_put found (fun j a _ => inv.pending j a) (fun a active => ?_)
      cases Option.some.inj active
      trivial
  | @refuse a ret active outside refused =>
    refine ⟨m, ?_, fun quiet => inv.quiet (fun j => ?_), ?_⟩
    · simpa [State.finish, Record.shown] using inv.history.snoc (refused m)
    · have := (window_put found { th with active := none } j).symm.trans (quiet j)
      split at this
      · rename_i same
        rw [same, window_of_active (here.trans active), window_outside outside]
      · exact this
    · refine pending_put found (fun j a _ => inv.pending j a) (fun a active => ?_)
      cases active
  | spin => exact ⟨m, inv.history, inv.quiet, inv.pending⟩
  | enter active outside free =>
    have empty := nobody_inside excl (here.trans active) outside free lone
    refine ⟨m, inv.history, fun _ => inv.quiet empty, ?_⟩
    refine pending_put (s := { s with mark := !e.spurious }) found
      (fun j a _ => inv.pending j a) (fun b running => ?_)
    cases Option.some.inj running
    exact inv.quiet empty
  | @work a phase active inside still keeps =>
    refine ⟨m, inv.history, fun quiet => ?_, ?_⟩
    · have := (window_put found { th with active := some { a with phase } } e.thread).symm.trans
        (quiet e.thread)
      rw [if_pos rfl] at this
      exact absurd ((window_inside still).symm.trans this) (by simp)
    · refine pending_put found (fun j a _ => inv.pending j a) (fun b running => ?_)
      cases Option.some.inj running
      exact keeps m (inv.pending e.thread a (here.trans active))
  | @write a value ret active phase =>
    have inside : a.inside = true := by simp only [Active.inside, phase]
    have mine : window s e.thread = some a.marked := by
      rw [window_of_active (here.trans active), window_inside inside]
    have known := inv.pending e.thread a (here.trans active)
    simp only [Pending, phase] at known
    refine ⟨m, inv.history, fun quiet => ?_, ?_⟩
    · have := (window_put (s := { s with cell := value }) found
        { th with active := some { a with phase := .release ret } } e.thread).symm.trans
        (quiet e.thread)
      rw [if_pos rfl] at this
      cases this
    · refine pending_put (s := { s with cell := value }) found (fun j b other running => ?_)
        (fun b running => ?_)
      · exact pending_exchange value (others_exchange excl mine j b other running)
      · cases Option.some.inj running
        exact known.2
  | @release a ret active phase =>
    have inside : a.inside = true := by simp only [Active.inside, phase]
    have mine : window s e.thread = some a.marked := by
      rw [window_of_active (here.trans active), window_inside inside]
    have known := inv.pending e.thread a (here.trans active)
    simp only [Pending, phase] at known
    refine ⟨s.cell, ?_, fun _ => rfl, ?_⟩
    · simpa [State.finish, Record.shown] using inv.history.snoc known
    · refine pending_put (s := { s with mark := false }) found (fun j b other running => ?_)
        (fun b running => ?_)
      · exact pending_exchange s.cell (others_exchange excl mine j b other running)
      · cases running

end Replay

section Books
variable {s t : State T R} {i : Nat} {th : Thread T R}

/-- The completed calls are in the order of their ends, and calls begin before now. -/
structure Dated (s : State T R) : Prop where
  chronicle : Chronicle s.done s.clock
  began : ∀ i a, s.active i = some a → a.began ≤ s.clock

theorem Dated.put (inv : Dated s) (found : s.threads[i]? = some th) {th' : Thread T R}
    (mine : ∀ a, th'.active = some a → a.began ≤ s.clock) : Dated (s.put i th') where
  chronicle := inv.chronicle.later (Nat.le_succ s.clock)
  began j a active := by
    rw [active_put found] at active
    refine Nat.le_succ_of_le ?_
    split at active
    · exact mine a active
    · exact inv.began j a active

theorem Dated.finish (inv : Dated s) (found : s.threads[i]? = some th) {a : Active T R}
    (active : th.active = some a) (ret : Outcome T R) : Dated (s.finish i th a ret) where
  chronicle := inv.chronicle.snoc rfl
    (inv.began i a ((active_of_found found).trans active))
  began j b running := by
    have kept : Dated (s.put i { th with active := none }) :=
      inv.put found (fun b none => by cases none)
    exact kept.began j b running

theorem step_dated {e : Event} (inv : Dated s) (taken : step s e = some t) : Dated t := by
  obtain ⟨th, found, move⟩ := step_move taken
  have here := active_of_found found
  cases move with
  | begin idle next =>
    refine inv.put found (fun a active => ?_)
    cases Option.some.inj active
    exact Nat.le_refl s.clock
  | refuse active outside refused => exact inv.finish found active _
  | spin =>
    have later := inv.chronicle.later (Nat.le_succ s.clock)
    exact ⟨later, fun j a running => Nat.le_succ_of_le (inv.began j a running)⟩
  | @enter a active outside free =>
    have marked : Dated { s with mark := !e.spurious } := ⟨inv.chronicle, inv.began⟩
    refine marked.put found (fun b running => ?_)
    cases Option.some.inj running
    exact inv.began e.thread a (here.trans active)
  | @work a phase active inside still keeps =>
    refine inv.put found (fun b running => ?_)
    cases Option.some.inj running
    exact inv.began e.thread a (here.trans active)
  | @write a value ret active phase =>
    have written : Dated { s with cell := value } := ⟨inv.chronicle, inv.began⟩
    refine written.put found (fun b running => ?_)
    cases Option.some.inj running
    exact inv.began e.thread a (here.trans active)
  | release active phase =>
    have freed : Dated { s with mark := false } := ⟨inv.chronicle, inv.began⟩
    exact freed.finish found active _

/-- The calls of thread `i` that have ended, in their order. -/
def State.ended (s : State T R) (i : Nat) : List (Call T R) :=
  (s.done.filter fun r => r.thread == i).map Record.op

/-- Every thread makes the calls of its list, one after the other. -/
def Served (calls : List (List (Call T R))) (s : State T R) : Prop :=
  ∀ i th, s.threads[i]? = some th →
    calls[i]? = some (s.ended i ++ ((th.active.map Active.call).toList ++ th.todo))

theorem served_put {calls : List (List (Call T R))} {th' : Thread T R}
    (inv : Served calls s) (found : s.threads[i]? = some th)
    (same : (th'.active.map Active.call).toList ++ th'.todo =
      (th.active.map Active.call).toList ++ th.todo) : Served calls (s.put i th') := by
  intro j other known
  have bound := (List.getElem?_eq_some_iff.mp found).1
  change (s.threads.set i th')[j]? = some other at known
  by_cases here : j = i
  · subst here
    rw [List.getElem?_set_self bound] at known
    rw [← Option.some.inj known, same]
    exact inv j th found
  · rw [List.getElem?_set_ne (Ne.symm here)] at known
    exact inv j other known

theorem served_finish {calls : List (List (Call T R))} (inv : Served calls s)
    (found : s.threads[i]? = some th) {a : Active T R} (active : th.active = some a)
    (ret : Outcome T R) : Served calls (s.finish i th a ret) := by
  intro j other known
  have bound := (List.getElem?_eq_some_iff.mp found).1
  change (s.threads.set i _)[j]? = some other at known
  by_cases here : j = i
  · subst here
    rw [List.getElem?_set_self bound] at known
    rw [← Option.some.inj known, inv j th found, active]
    simp [State.ended, State.finish, List.filter_append]
  · rw [List.getElem?_set_ne (Ne.symm here)] at known
    rw [inv j other known]
    simp [State.ended, State.finish, List.filter_append, Ne.symm here]

theorem step_served {calls : List (List (Call T R))} {e : Event} (inv : Served calls s)
    (taken : step s e = some t) : Served calls t := by
  obtain ⟨th, found, move⟩ := step_move taken
  cases move with
  | begin idle next => exact served_put inv found (by simp [idle, next])
  | refuse active outside refused => exact served_finish inv found active _
  | spin => exact inv
  | enter active outside free => exact served_put inv found (by simp [active])
  | work active inside still keeps => exact served_put inv found (by simp [active])
  | write active phase => exact served_put inv found (by simp [active])
  | release active phase => exact served_finish inv found active _

theorem start_served (value : T) (calls : List (List (Call T R))) :
    Served calls (start value calls) := by
  intro i th found
  simp only [start, List.getElem?_map, Option.map_eq_some_iff] at found
  obtain ⟨todo, known, rfl⟩ := found
  simpa [State.ended, start] using known

end Books

section Conservation

/-- The content that a completed call leaves behind, where it changes it. -/
def effect (m : T) : Call T R → Outcome T R → Option T
  | .trySwap value, .ok _ | .swap value, .ok _ => some value
  | .tryApply func, .applied _ | .apply func, .applied _ => (func m).map Prod.snd
  | _, _ => none

/-- The content that a completed call takes out: a swap returns it, a closure consumes it. -/
def consumed (m : T) : Outcome T R → T
  | .ok val => val
  | _ => m

def given (m : T) : List (Call T R × Outcome T R) → Multiset T
  | [] => 0
  | (c, a) :: h =>
    match effect m c a with
    | some n => n ::ₘ given n h
    | none => given m h

def taken (m : T) : List (Call T R × Outcome T R) → Multiset T
  | [] => 0
  | (c, a) :: h =>
    match effect m c a with
    | some n => consumed m a ::ₘ taken n h
    | none => taken m h

/-- Nothing is lost and nothing doubled along a replay. -/
theorem conservation {m n : T} {h : List (Call T R × Outcome T R)} (replay : Allowed Variable m h n) :
    m ::ₘ given m h = n ::ₘ taken m h := by
  induction replay with
  | nil m => rfl
  | @cons m k n c a h first rest ih =>
    cases first with
    | trySwap | swap =>
      simp only [given, taken, effect, consumed]
      rw [ih, Multiset.cons_swap]
    | tryApply ran | apply ran =>
      simp only [given, taken, effect, consumed, ran, Option.map_some]
      rw [ih, Multiset.cons_swap]
    | refusedSwap | refusedApply | tryPanic | panic => simpa only [given, taken, effect] using ih

/-- The argument of a successful swap. -/
def argument : Call T R × Outcome T R → Option T
  | (.trySwap value, .ok _) | (.swap value, .ok _) => some value
  | _ => none

/-- The value a successful swap returns. -/
def returned : Call T R × Outcome T R → Option T
  | (_, .ok val) => some val
  | _ => none

def Call.swaps : Call T R → Bool
  | .trySwap _ | .swap _ => true
  | .tryApply _ | .apply _ => false

/-- Where no closures are applied the arguments and the returned values are all there is. -/
theorem swaps_only {m n : T} {h : List (Call T R × Outcome T R)} (replay : Allowed Variable m h n)
    (swaps : ∀ c ∈ h, c.1.swaps = true) :
    given m h = ↑(h.filterMap argument) ∧ taken m h = ↑(h.filterMap returned) := by
  induction replay with
  | nil m => exact ⟨rfl, rfl⟩
  | @cons m k n c a h first rest ih =>
    have tail := ih (fun c member => swaps c (List.mem_cons_of_mem _ member))
    have head := swaps _ List.mem_cons_self
    cases first with
    | trySwap | swap =>
      simp only [given, taken, effect, consumed, tail]
      exact ⟨rfl, rfl⟩
    | refusedSwap =>
      simp only [given, taken, effect, tail]
      exact ⟨rfl, rfl⟩
    | tryApply | apply | refusedApply | tryPanic | panic => cases head

end Conservation

section Runs
variable {s t : State T R}

/-- The invariants of a run in which nobody slips past the exchange beside another call. -/
structure Orderly (value : T) (calls : List (List (Call T R))) (s : State T R) : Prop where
  exclusive : Exclusive s
  replayed : ∃ m, Replayed value s m
  dated : Dated s
  served : Served calls s

theorem start_orderly (value : T) (calls : List (List (Call T R))) :
    Orderly value calls (start value calls) where
  exclusive := start_exclusive value calls
  replayed := ⟨value, start_replayed value calls⟩
  dated := ⟨.nil 0, fun i a active => by
    obtain ⟨th, found, running⟩ := Option.bind_eq_some_iff.mp active
    simp only [start, List.getElem?_map, Option.map_eq_some_iff] at found
    obtain ⟨todo, -, rfl⟩ := found
    cases running⟩
  served := start_served value calls

theorem step_orderly (value : T) (calls : List (List (Call T R))) (s : State T R) (e : Event)
    (t : State T R) (inv : Orderly value calls s) (taken : step s e = some t)
    (lone : unmixed s e = true) : Orderly value calls t where
  exclusive := step_exclusive inv.exclusive taken lone
  replayed := by
    obtain ⟨m, replayed⟩ := inv.replayed
    exact step_replayed inv.exclusive replayed taken lone
  dated := step_dated inv.dated taken
  served := step_served inv.served taken

/-- An exchange that finds the mark set changes neither the mark nor the content. -/
theorem refused_unchanged {e : Event} (taken : step s e = some t) (busy : s.mark = true)
    (outside : window s e.thread = none) : t.cell = s.cell ∧ t.mark = s.mark := by
  obtain ⟨th, found, move⟩ := step_move taken
  have here := active_of_found found
  have before : ∀ a, th.active = some a → a.inside = false := by
    intro a active
    have phase := inside_of_window (here.trans active) outside
    simp only [Active.inside, phase]
  cases move with
  | begin | refuse | spin => exact ⟨rfl, rfl⟩
  | enter active outside free =>
    rw [busy] at free
    cases free
  | work active inside =>
    rw [before _ active] at inside
    cases inside
  | write active phase | release active phase =>
    have := before _ active
    simp only [Active.inside, phase, Bool.true_eq_false] at this

/-- Every call inside has set the mark. -/
def Holders (s : State T R) : Prop :=
  ∀ i a, s.active i = some a → a.inside = true → a.marked = true

theorem holders_put {i : Nat} {th th' : Thread T R} (inv : Holders s)
    (found : s.threads[i]? = some th)
    (mine : ∀ a, th'.active = some a → a.inside = true → a.marked = true) :
    Holders (s.put i th') := by
  intro j a active
  rw [active_put found] at active
  split at active
  · exact mine a active
  · exact inv j a active

theorem step_holders {e : Event} (inv : Holders s) (taken : step s e = some t)
    (honest : e.spurious = false) : Holders t := by
  obtain ⟨th, found, move⟩ := step_move taken
  have here := active_of_found found
  cases move with
  | begin idle next =>
    refine holders_put inv found (fun a active inside => ?_)
    cases Option.some.inj active
    cases inside
  | refuse | release => exact holders_put inv found (fun a active => by cases active)
  | spin => exact inv
  | enter active outside free =>
    refine holders_put (s := { s with mark := !e.spurious }) inv found (fun a active _ => ?_)
    cases Option.some.inj active
    simp [honest]
  | @work a phase active inside still keeps =>
    refine holders_put inv found (fun b running _ => ?_)
    cases Option.some.inj running
    exact inv e.thread a (here.trans active) inside
  | @write a value ret active phase =>
    refine holders_put (s := { s with cell := value }) inv found (fun b running _ => ?_)
    cases Option.some.inj running
    exact inv e.thread a (here.trans active) (by simp only [Active.inside, phase])

theorem holders_unmixed (inv : Holders s) (e : Event) : unmixed s e = true := by
  have all : (s.threads.all fun th => th.active.all fun a => !a.inside || a.marked) = true := by
    refine List.all_eq_true.mpr (fun th member => ?_)
    obtain ⟨i, found⟩ := List.mem_iff_getElem?.mp member
    cases active : th.active with
    | none => rfl
    | some a =>
      have held := inv i a ((active_of_found found).trans active)
      cases inside : a.inside with
      | false => simp [inside]
      | true => simp [held inside]
  simp only [unmixed, all, Bool.or_true]

/-- Without spurious failures every call inside holds the mark, so that none slips in. -/
theorem unmixed_of_honest {value : T} {calls : List (List (Call T R))} {es : List Event}
    (honest : ∀ e ∈ es, e.spurious = false) :
    Along step (fun s e _ => unmixed s e = true) (start value calls) es := by
  have first : Holders (start value calls) := by
    intro i a active
    obtain ⟨th, found, running⟩ := Option.bind_eq_some_iff.mp active
    simp only [start, List.getElem?_map, Option.map_eq_some_iff] at found
    obtain ⟨todo, -, rfl⟩ := found
    cases running
  exact along_of_invariant
    (fun s e t inv taken honest => ⟨step_holders inv taken honest, holders_unmixed inv e⟩)
    first (along_events honest)

/-- In every interleaving in which no call passes its exchange beside one that got inside
on a spurious failure, the completed calls are those of a variable in one order that fits
their times, all values are accounted for, and a cell with nobody inside has the last value
and is free. Each thread makes its calls in turn, and a refusal changes nothing. -/
theorem cell_linearizable (value : T) (calls : List (List (Call T R))) (es : List Event)
    (s : State T R) (run : exec step (start value calls) es = some s)
    (lone : Along step (fun s e _ => unmixed s e = true) (start value calls) es) :
    (∃ order m, Linearization Variable value s.done order m ∧
      value ::ₘ given value (order.map Record.shown) =
        m ::ₘ taken value (order.map Record.shown) ∧
      ((∀ r ∈ s.done, r.op.swaps = true) →
        value ::ₘ ↑((s.done.map Record.shown).filterMap argument) =
          m ::ₘ ↑((s.done.map Record.shown).filterMap returned)) ∧
      ((∀ i, window s i = none) → s.cell = m ∧ s.mark = false)) ∧
    Served calls s ∧
    ∀ e t, step s e = some t → s.mark = true → window s e.thread = none →
      t.cell = s.cell ∧ t.mark = s.mark := by
  have inv : Orderly value calls s :=
    invariant_along (step_orderly value calls) (start_orderly value calls) run lone
  obtain ⟨m, replayed⟩ := inv.replayed
  refine ⟨⟨s.done, m, inv.dated.chronicle.linearization replayed.history,
    conservation replayed.history, fun swaps => ?_, fun quiet => ⟨replayed.quiet quiet, ?_⟩⟩,
    inv.served, fun e t stepped busy outside => refused_unchanged stepped busy outside⟩
  · have only := swaps_only replayed.history (fun c member => by
      obtain ⟨r, known, rfl⟩ := List.mem_map.mp member
      exact swaps r known)
    rw [← only.1, ← only.2]
    exact conservation replayed.history
  · cases free : s.mark with
    | false => rfl
    | true =>
      obtain ⟨i, held⟩ := inv.exclusive.marked.mp free
      rw [quiet i] at held
      cases held

/-- The first call gets inside on a spurious failure and the second one beside it. -/
def slippedIn : List Event :=
  [⟨0, false⟩, ⟨0, true⟩, ⟨1, false⟩, ⟨1, false⟩, ⟨0, false⟩, ⟨1, false⟩, ⟨0, false⟩, ⟨1, false⟩,
    ⟨0, false⟩, ⟨1, false⟩]

theorem spurious_failure_loses :
    let s := last step (start 0 [[.swap 1], [.swap 2]] : State Nat Unit) slippedIn
    s.cell = 2 ∧ s.done.map Record.shown = [(.swap 1, .ok 0), (.swap 2, .ok 0)] ∧
      ¬ ∃ order m, Linearization Variable 0 s.done order m := by
  intro s
  have calls : s.done.map Record.shown = [(.swap 1, .ok 0), (.swap 2, .ok 0)] := rfl
  refine ⟨rfl, calls, ?_⟩
  rintro ⟨order, m, lin⟩
  have pair := (lin.complete.map Record.shown).trans (.of_eq calls)
  have both : ∀ c ∈ order.map Record.shown, c = (.swap 1, .ok 0) ∨ c = (.swap 2, .ok 0) :=
    fun c member => by simpa using pair.subset member
  have long : (order.map Record.shown).length = 2 := pair.length_eq
  have replay := lin.replay
  generalize order.map Record.shown = h at both long replay
  cases replay with
  | nil => cases long
  | cons first rest =>
    cases rest with
    | nil => cases long
    | cons second rest =>
      rcases both _ List.mem_cons_self with here | here <;>
        rcases both _ (List.mem_cons_of_mem _ List.mem_cons_self) with there | there <;>
        cases here <;> cases there <;> cases first <;> cases second

/-- A swap goes on while a closure panics and its guard releases the mark. -/
def panicBeside : List Event :=
  [⟨0, false⟩, ⟨0, false⟩, ⟨1, false⟩, ⟨1, false⟩, ⟨0, false⟩, ⟨0, false⟩, ⟨1, false⟩, ⟨0, false⟩,
    ⟨1, false⟩, ⟨1, false⟩, ⟨1, false⟩, ⟨1, false⟩]

theorem cell_linearizable_panic :
    let s := last step (start 5 [[.apply fun _ => none], [.swap 7]] : State Nat Unit) panicBeside
    ∃ order m, Linearization Variable 5 s.done order m ∧ s.cell = m := by
  have run : exec step (start 5 [[.apply fun _ => none], [.swap 7]] : State Nat Unit) panicBeside =
      some _ := exec_last rfl
  obtain ⟨⟨order, m, lin, -, -, quiet⟩, -⟩ :=
    cell_linearizable 5 _ panicBeside _ run (unmixed_of_honest (by decide))
  refine ⟨order, m, lin, (quiet (fun i => ?_)).1⟩
  match i with
  | 0 | 1 => rfl
  | n + 2 => rfl

end Runs
end Juggle.Utils.Cell
