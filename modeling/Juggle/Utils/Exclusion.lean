import Mathlib.Data.List.Basic
import Mathlib.Logic.Function.Basic
import Juggle.Utils.Cell

/-! Who is between the exchange and the release of a call. A step of the cell is one of
seven moves. While nobody slips past the exchange next to a call that does not hold the
mark, at most one call is inside, and the content is what the completed calls have left
there, or what the one inside is about to return with. -/
namespace Juggle.Utils.Cell
open Juggle.Runs Juggle.Objects Juggle.Linear

variable {T R : Type}

/-- A variable with the same calls, one at a time. -/
inductive Variable : T → Call T R → Outcome T R → T → Prop
  | trySwap (m value : T) : Variable m (.trySwap value) (.ok m) value
  | swap (m value : T) : Variable m (.swap value) (.ok m) value
  | refusedSwap (m value : T) : Variable m (.trySwap value) (.err value) m
  | tryApply {m n : T} {func : T → Option (R × T)} {res : R} (ran : func m = some (res, n)) :
      Variable m (.tryApply func) (.applied res) n
  | apply {m n : T} {func : T → Option (R × T)} {res : R} (ran : func m = some (res, n)) :
      Variable m (.apply func) (.applied res) n
  | refusedApply (m : T) (func : T → Option (R × T)) :
      Variable m (.tryApply func) (.errFunc func) m
  | tryPanic {m : T} {func : T → Option (R × T)} (ran : func m = none) :
      Variable m (.tryApply func) .panicked m
  | panic {m : T} {func : T → Option (R × T)} (ran : func m = none) :
      Variable m (.apply func) .panicked m

/-- Past the exchange and before the release. -/
def Active.inside (a : Active T R) : Bool :=
  match a.phase with
  | .exchange => false
  | _ => true

def State.active (s : State T R) (i : Nat) : Option (Active T R) :=
  s.threads[i]?.bind Thread.active

def Active.window (a : Active T R) : Option Bool := if a.inside then some a.marked else none

/-- Whether thread `i` is inside, and whether its exchange set the mark. -/
def window (s : State T R) (i : Nat) : Option Bool := (s.active i).bind Active.window

/-- The step does not bring a thread inside beside one that is there without the mark. -/
def unmixed (s : State T R) (e : Event) : Bool :=
  let passes := !s.mark && (s.active e.thread).any fun a => !a.inside
  !passes || s.threads.all fun th => th.active.all fun a => !a.inside || a.marked

/-- What a call inside knows about the content `c`, where the completed calls left `m`. -/
def Pending (m c : T) (a : Active T R) : Prop :=
  match a.phase with
  | .exchange => True
  | .read => c = m
  | .run func first => c = m ∧ first = m ∧ (a.call = .tryApply func ∨ a.call = .apply func)
  | .write value ret => c = m ∧ Variable m a.call ret value
  | .release ret => Variable m a.call ret c

section Moves

/-- What a step of thread `i` can do, where its exchange may fail spuriously. -/
inductive Move (s : State T R) (i : Nat) (spurious : Bool) (th : Thread T R) :
    State T R → Prop
  | begin {call : Call T R} {todo : List (Call T R)} (idle : th.active = none)
      (next : th.todo = call :: todo) :
      Move s i spurious th (s.put i ⟨todo, some ⟨call, .exchange, s.clock, false⟩⟩)
  | refuse {a : Active T R} {ret : Outcome T R} (active : th.active = some a)
      (outside : a.inside = false) (refused : ∀ m, Variable m a.call ret m) :
      Move s i spurious th (s.finish i th a ret)
  | spin : Move s i spurious th { s with clock := s.clock + 1 }
  | enter {a : Active T R} (active : th.active = some a) (outside : a.inside = false)
      (free : s.mark = false) :
      Move s i spurious th ({ s with mark := !spurious }.advance i th
        { a with marked := !spurious } .read)
  | work {a : Active T R} {phase : Phase T R} (active : th.active = some a)
      (inside : a.inside = true) (still : Active.inside { a with phase } = true)
      (keeps : ∀ m, Pending m s.cell a → Pending m s.cell { a with phase }) :
      Move s i spurious th (s.advance i th a phase)
  | write {a : Active T R} {value : T} {ret : Outcome T R} (active : th.active = some a)
      (phase : a.phase = .write value ret) :
      Move s i spurious th ({ s with cell := value }.advance i th a (.release ret))
  | release {a : Active T R} {ret : Outcome T R} (active : th.active = some a)
      (phase : a.phase = .release ret) :
      Move s i spurious th ({ s with mark := false }.finish i th a ret)

theorem interfered_exchange (mark spurious : Bool) :
    unwrapOrElseIdentity (compareExchangeWeak mark spurious).1 = mark := by
  cases mark <;> cases spurious <;> rfl

theorem exchange_mark (spurious : Bool) : (compareExchangeWeak false spurious).2 = !spurious := by
  cases spurious <;> rfl

theorem exchange_move {s : State T R} {i : Nat} {th : Thread T R} {a : Active T R}
    (active : th.active = some a) (phase : a.phase = .exchange) (spurious : Bool) :
    Move s i spurious th (stepCall s i th a spurious) := by
  have outside : a.inside = false := by simp only [Active.inside, phase]
  simp only [stepCall, phase, interfered_exchange]
  cases busy : s.mark with
  | false =>
    rw [if_neg Bool.false_ne_true, exchange_mark]
    exact .enter active outside busy
  | true =>
    rw [if_pos rfl, interfered]
    cases called : a.call with
    | trySwap value => exact .refuse active outside (fun m => called ▸ .refusedSwap m value)
    | tryApply func => exact .refuse active outside (fun m => called ▸ .refusedApply m func)
    | swap value => exact .spin
    | apply func => exact .spin

theorem read_move {s : State T R} {i : Nat} {th : Thread T R} {a : Active T R}
    (active : th.active = some a) (phase : a.phase = .read) (spurious : Bool) :
    Move s i spurious th (stepCall s i th a spurious) := by
  have inside : a.inside = true := by simp only [Active.inside, phase]
  simp only [stepCall, phase]
  cases called : a.call with
  | trySwap value =>
    refine .work active inside rfl (fun m pending => ?_)
    simp only [Pending, phase] at pending
    exact ⟨pending, by rw [called, pending]; exact .trySwap m value⟩
  | swap value =>
    refine .work active inside rfl (fun m pending => ?_)
    simp only [Pending, phase] at pending
    exact ⟨pending, by rw [called, pending]; exact .swap m value⟩
  | tryApply func =>
    refine .work active inside rfl (fun m pending => ?_)
    simp only [Pending, phase] at pending
    exact ⟨pending, pending, .inl called⟩
  | apply func =>
    refine .work active inside rfl (fun m pending => ?_)
    simp only [Pending, phase] at pending
    exact ⟨pending, pending, .inr called⟩

theorem run_move {s : State T R} {i : Nat} {th : Thread T R} {a : Active T R}
    {func : T → Option (R × T)} {first : T} (active : th.active = some a)
    (phase : a.phase = .run func first) (spurious : Bool) :
    Move s i spurious th (stepCall s i th a spurious) := by
  have inside : a.inside = true := by simp only [Active.inside, phase]
  simp only [stepCall, phase]
  cases ran : func first with
  | some r =>
    refine .work active inside rfl (fun m pending => ?_)
    simp only [Pending, phase] at pending
    obtain ⟨content, rfl, called⟩ := pending
    refine ⟨content, ?_⟩
    rcases called with called | called
    · rw [called]
      exact .tryApply ran
    · rw [called]
      exact .apply ran
  | none =>
    refine .work active inside rfl (fun m pending => ?_)
    simp only [Pending, phase] at pending
    obtain ⟨content, rfl, called⟩ := pending
    simp only [Pending, content]
    rcases called with called | called
    · rw [called]
      exact .tryPanic ran
    · rw [called]
      exact .panic ran

theorem step_move {s t : State T R} {e : Event} (taken : step s e = some t) :
    ∃ th, s.threads[e.thread]? = some th ∧ Move s e.thread e.spurious th t := by
  unfold step at taken
  cases found : s.threads[e.thread]? with
  | none => simp only [found, reduceCtorEq] at taken
  | some th =>
    simp only [found] at taken
    refine ⟨th, rfl, ?_⟩
    cases active : th.active with
    | none =>
      cases next : th.todo with
      | nil => simp only [active, next, reduceCtorEq] at taken
      | cons call todo =>
        simp only [active, next, Option.some.injEq] at taken
        exact taken ▸ .begin active next
    | some a =>
      simp only [active, Option.some.injEq] at taken
      rw [← taken]
      cases phase : a.phase with
      | exchange => exact exchange_move active phase e.spurious
      | read => exact read_move active phase e.spurious
      | run func first => exact run_move active phase e.spurious
      | write value ret =>
        simp only [stepCall, phase]
        exact .write active phase
      | release ret =>
        simp only [stepCall, phase]
        exact .release active phase

end Moves

section Windows
variable {s t : State T R} {i : Nat} {th : Thread T R}

theorem active_put (found : s.threads[i]? = some th) (th' : Thread T R) (j : Nat) :
    (s.put i th').active j = if j = i then th'.active else s.active j := by
  have bound := (List.getElem?_eq_some_iff.mp found).1
  simp only [State.active, State.put]
  by_cases same : j = i
  · rw [if_pos same, same, List.getElem?_set_self bound]
    rfl
  · rw [if_neg same, List.getElem?_set_ne (Ne.symm same)]

theorem active_of_found (found : s.threads[i]? = some th) : s.active i = th.active := by
  rw [State.active, found]
  rfl

theorem window_of_active {a : Active T R} (active : s.active i = some a) :
    window s i = a.window := by
  rw [window, active]
  rfl

theorem window_put (found : s.threads[i]? = some th) (th' : Thread T R) (j : Nat) :
    window (s.put i th') j = if j = i then th'.active.bind Active.window else window s j := by
  rw [window, active_put found]
  split <;> rfl

theorem window_outside {a : Active T R} (outside : a.inside = false) : a.window = none := by
  simp [Active.window, outside]

theorem window_inside {a : Active T R} (inside : a.inside = true) : a.window = some a.marked := by
  simp [Active.window, inside]

theorem inside_of_window {a : Active T R} (active : s.active i = some a)
    (empty : window s i = none) : a.phase = .exchange := by
  rw [window_of_active active] at empty
  cases phase : a.phase with
  | exchange => rfl
  | read | run | write | release => simp [Active.window, Active.inside, phase] at empty

/-- At most one thread is inside, and the mark is set exactly if one is that set it. -/
structure Exclusive (s : State T R) : Prop where
  alone : ∀ i j x y, window s i = some x → window s j = some y → i = j
  marked : s.mark = true ↔ ∃ i, window s i = some true

theorem start_exclusive (value : T) (calls : List (List (Call T R))) :
    Exclusive (start value calls) := by
  have empty : ∀ i, window (start value calls) i = none := by
    intro i
    cases found : calls[i]? with
    | none => simp [window, State.active, start, found]
    | some todo => simp [window, State.active, start, found]
  constructor
  · intro i j x y held
    rw [empty i] at held
    cases held
  · constructor
    · intro marked
      cases marked
    · rintro ⟨i, held⟩
      rw [empty i] at held
      cases held

theorem move_other {spurious : Bool} (found : s.threads[i]? = some th)
    (move : Move s i spurious th t) (j : Nat) (other : j ≠ i) : t.active j = s.active j := by
  have frame : ∀ (u : State T R) (th' : Thread T R), u.threads = s.threads →
      (u.put i th').active j = s.active j := by
    intro u th' threads
    rw [active_put (threads ▸ found), if_neg other, State.active, threads, State.active]
  cases move with
  | spin => rfl
  | begin | refuse | enter | work | write | release => exact frame _ _ rfl

/-- What a step of thread `i` does to the mark and to the windows. -/
inductive MarkMove (s t : State T R) (i : Nat) (spurious : Bool) : Prop
  | keep (mark : t.mark = s.mark) (windows : ∀ j, window t j = window s j)
  | enter {a : Active T R} (active : s.active i = some a) (outside : a.inside = false)
      (free : s.mark = false) (mark : t.mark = !spurious)
      (windows : ∀ j, window t j = if j = i then some (!spurious) else window s j)
  | release {x : Bool} (inside : window s i = some x) (mark : t.mark = false)
      (windows : ∀ j, window t j = if j = i then none else window s j)

theorem window_put_same (found : s.threads[i]? = some th) {th' : Thread T R}
    (same : th'.active.bind Active.window = th.active.bind Active.window) (j : Nat) :
    window (s.put i th') j = window s j := by
  rw [window_put found]
  split
  · rename_i here
    rw [here, window, active_of_found found, same]
  · rfl

theorem move_mark {spurious : Bool} (found : s.threads[i]? = some th)
    (move : Move s i spurious th t) : MarkMove s t i spurious := by
  have here := active_of_found found
  cases move with
  | begin idle next => exact .keep rfl (window_put_same found (by rw [idle]; rfl))
  | refuse active outside refused =>
    exact .keep rfl (window_put_same found (by rw [active]; exact (window_outside outside).symm))
  | spin => exact .keep rfl (fun j => rfl)
  | enter active outside free =>
    exact .enter (here.trans active) outside free rfl
      (window_put (s := { s with mark := !spurious }) found _)
  | work active inside still keeps =>
    refine .keep rfl (window_put_same found ?_)
    rw [active]
    exact (window_inside still).trans (window_inside inside).symm
  | @write a value ret active phase =>
    have inside : a.inside = true := by simp only [Active.inside, phase]
    refine .keep rfl (window_put_same (s := { s with cell := value }) found ?_)
    rw [active]
    exact (window_inside inside).symm
  | @release a ret active phase =>
    have inside : a.inside = true := by simp only [Active.inside, phase]
    have mine : window s i = some a.marked := by
      rw [window_of_active (here.trans active), window_inside inside]
    exact .release mine rfl (window_put (s := { s with mark := false }) found _)

/-- Nobody is inside when a step allowed by `unmixed` finds the mark free. -/
theorem nobody_inside (inv : Exclusive s) {e : Event} {a : Active T R}
    (active : s.active e.thread = some a) (outside : a.inside = false)
    (free : s.mark = false) (lone : unmixed s e = true) (j : Nat) : window s j = none := by
  cases held : window s j with
  | none => rfl
  | some x =>
    obtain ⟨b, here, shown⟩ := Option.bind_eq_some_iff.mp held
    obtain ⟨other, member, running⟩ := Option.bind_eq_some_iff.mp here
    simp only [unmixed, free, active, outside, Option.any_some, Bool.not_false, Bool.and_self,
      Bool.not_true, Bool.false_or, List.all_eq_true] at lone
    have mine := lone other (List.mem_of_getElem? member)
    rw [running] at mine
    have inside : b.inside = true := by
      cases h : b.inside with
      | true => rfl
      | false => simp [Active.window, h] at shown
    rw [window_inside inside] at shown
    have marked : b.marked = true := by simpa [inside] using mine
    have set : s.mark = true := inv.marked.mpr ⟨j, by rw [held, ← shown, marked]⟩
    rw [free] at set
    cases set

theorem step_exclusive {e : Event} (inv : Exclusive s) (taken : step s e = some t)
    (lone : unmixed s e = true) : Exclusive t := by
  obtain ⟨th, found, move⟩ := step_move taken
  cases move_mark found move with
  | keep mark windows =>
    refine ⟨fun i j x y hi hj => ?_, ?_⟩
    · rw [windows] at hi hj
      exact inv.alone i j x y hi hj
    · rw [mark, inv.marked]
      simp only [windows]
  | enter active outside free mark windows =>
    have empty := nobody_inside inv active outside free lone
    have only : ∀ j x, window t j = some x → j = e.thread ∧ x = !e.spurious := by
      intro j x held
      rw [windows, empty j] at held
      split at held
      · exact ⟨‹_›, (Option.some.inj held).symm⟩
      · cases held
    refine ⟨fun i j x y hi hj => (only i x hi).1.trans (only j y hj).1.symm, ?_⟩
    rw [mark]
    constructor
    · intro set
      exact ⟨e.thread, by rw [windows, if_pos rfl, set]⟩
    · rintro ⟨j, held⟩
      exact (only j true held).2.symm
  | @release x inside mark windows =>
    have empty : ∀ j, window t j = none := by
      intro j
      rw [windows]
      split
      · rfl
      · rename_i other
        cases held : window s j with
        | none => rfl
        | some y => exact absurd (inv.alone j e.thread _ _ held inside) other
    refine ⟨fun i j x y hi _ => absurd ((empty i).symm.trans hi) (Option.some_ne_none x).symm, ?_⟩
    rw [mark]
    constructor
    · intro set
      cases set
    · rintro ⟨j, held⟩
      rw [empty] at held
      cases held

end Windows
end Juggle.Utils.Cell
