import Juggle.Utils.Exclusion

/-! Waking from an interrupt handler. On one core the polling code and a handler share the
waker registry; a handler runs between two steps of the polling code and the polling code
waits until it returns. The handler spins on the mark of the cell, and it does so forever
exactly when the code it interrupted holds that mark. -/
namespace Juggle.Utils.Interrupt
open Juggle.Runs Cell

variable {W : Type}

/-- The cell of `AtomicWakerRegistry`, its calls return no closure results. -/
abbrev Registry (W : Type) := State (Option W) Unit

/-- What the polling code does with the registry. Each call is one swap; the answer and the
wake of the waker that `notify_wake` takes out come after its loop. -/
inductive Use (W : Type) where
  | register (waker : W)
  | clear
  | notifyWake

def Use.swap : Use W → Call (Option W) Unit
  | .register waker => .swap (some waker)
  | .clear => .swap none
  | .notifyWake => .swap none

/-- Thread 0 polls, thread 1 stands for the handlers: each wakes a task once. -/
def boot (waker : Option W) (uses : List (Use W)) (handlers : Nat) : Registry W :=
  start waker [uses.map Use.swap, List.replicate handlers Use.notifyWake.swap]

/-- A step of the polling code, or a whole handler with the spurious failures it meets. -/
inductive Turn where
  | poll (spurious : Bool)
  | interrupt (spurious : List Bool)

def turn (s : Registry W) : Turn → Option (Registry W)
  | .poll spurious => step s ⟨0, spurious⟩
  | .interrupt spurious =>
    match exec step s (spurious.map fun b => ⟨1, b⟩) with
    | some t => if (t.active 1).isNone then some t else none
    | none => none

/-- Whatever its exchanges do, the handler that comes next returns after some of its steps. -/
def Returns (s : Registry W) (rest : List (Call (Option W) Unit)) : Prop :=
  ∀ spurious : Nat → Bool, ∃ n t,
    exec step s ((List.range n).map fun k => ⟨1, spurious k⟩) = some t ∧
      t.threads[1]? = some ⟨rest, none⟩

/-- The polling code has set the mark and not released it yet. -/
def holdsMark (s : Registry W) : Bool := window s 0 == some true

/-- Outside of a handler the mark is the one of the polling code; a handler only gets
inside when the polling code does not hold the mark. -/
structure Settled (s : Registry W) : Prop where
  mark : window s 1 = none → (s.mark = true ↔ window s 0 = some true)
  apart : window s 1 ≠ none → window s 0 ≠ some true

theorem window_idle {s : Registry W} {i : Nat} (idle : s.active i = none) : window s i = none := by
  rw [window, idle]
  rfl

theorem boot_settled (waker : Option W) (uses : List (Use W)) (handlers : Nat) :
    Settled (boot waker uses handlers) where
  mark _ := by
    constructor
    · intro marked
      cases marked
    · intro held
      cases held
  apart inside := absurd rfl inside

theorem handler_settled {s t : Registry W} {spurious : Bool} (inv : Settled s)
    (taken : step s ⟨1, spurious⟩ = some t) : Settled t := by
  obtain ⟨th, found, move⟩ := step_move taken
  cases move_mark found move with
  | keep mark windows =>
    constructor
    · rw [windows, windows, mark]
      exact inv.mark
    · rw [windows, windows]
      exact inv.apart
  | enter active outside free mark windows =>
    have before : window s 1 = none := by
      rw [window_of_active active, window_outside outside]
    have polls : window t 0 = window s 0 := windows 0
    constructor
    · intro inside
      rw [windows] at inside
      cases inside
    · intro _ held
      rw [polls] at held
      have set := (inv.mark before).mpr held
      rw [free] at set
      cases set
  | @release x inside mark windows =>
    have polls : window t 0 = window s 0 := windows 0
    have apart := inv.apart (by rw [inside]; exact Option.some_ne_none x)
    constructor
    · intro _
      rw [mark, polls]
      exact iff_of_false Bool.false_ne_true apart
    · intro inside
      exact absurd (windows 1) inside

theorem poll_settled {s t : Registry W} {spurious : Bool} (inv : Settled s)
    (idle : s.active 1 = none) (taken : step s ⟨0, spurious⟩ = some t) :
    Settled t ∧ t.active 1 = none := by
  obtain ⟨th, found, move⟩ := step_move taken
  have before := window_idle idle
  have still : t.active 1 = none := (move_other found move 1 Nat.one_ne_zero).trans idle
  refine ⟨⟨fun _ => ?_, fun inside => absurd (window_idle still) inside⟩, still⟩
  cases move_mark found move with
  | keep mark windows =>
    rw [windows, mark]
    exact inv.mark before
  | enter active outside free mark windows =>
    have polls : window t 0 = some (!spurious) := windows 0
    rw [mark, polls, Option.some.injEq]
  | release inside mark windows =>
    have polls : window t 0 = none := windows 0
    rw [mark, polls]
    exact iff_of_false Bool.false_ne_true (Option.some_ne_none true).symm

theorem handlers_settled {s t : Registry W} {spurious : List Bool} (inv : Settled s)
    (run : exec step s (spurious.map fun b => ⟨1, b⟩) = some t) : Settled t := by
  induction spurious generalizing s with
  | nil => exact Option.some.inj run ▸ inv
  | cons b bs ih =>
    obtain ⟨u, taken, rest⟩ := exec_cons run
    exact ih (handler_settled inv taken) rest

theorem turn_settled (s : Registry W) (u : Turn) (t : Registry W)
    (inv : Settled s ∧ s.active 1 = none) (taken : turn s u = some t) :
    Settled t ∧ t.active 1 = none := by
  cases u with
  | poll spurious => exact poll_settled inv.1 inv.2 taken
  | interrupt spurious =>
    simp only [turn] at taken
    split at taken
    · rename_i u run
      split at taken
      · rename_i idle
        cases Option.some.inj taken
        exact ⟨handlers_settled inv.1 run, Option.isNone_iff_eq_none.mp idle⟩
      · cases taken
    · cases taken

section Loop
variable {s : Registry W} {th : Thread (Option W) Unit} {rest : List (Call (Option W) Unit)}
  {value : Option W}

theorem threads_put (found : s.threads[1]? = some th) (th' : Thread (Option W) Unit) :
    (s.put 1 th').threads[1]? = some th' :=
  List.getElem?_set_self (List.getElem?_eq_some_iff.mp found).1

/-- One attempt is enough where the mark is free, spurious failure or not. -/
theorem returns_of_free (ready : s.threads[1]? = some ⟨.swap value :: rest, none⟩)
    (free : s.mark = false) : Returns s rest := by
  intro b
  let a : Active (Option W) Unit := ⟨.swap value, .exchange, s.clock, false⟩
  let s₁ := s.put 1 ⟨rest, some a⟩
  let a₂ : Active (Option W) Unit := { a with phase := .read, marked := !b 1 }
  let s₂ := { s₁ with mark := !b 1 }.put 1 ⟨rest, some a₂⟩
  let a₃ : Active (Option W) Unit := { a₂ with phase := .write value (.ok s.cell) }
  let s₃ := s₂.put 1 ⟨rest, some a₃⟩
  let a₄ : Active (Option W) Unit := { a₃ with phase := .release (.ok s.cell) }
  let s₄ := { s₃ with cell := value }.put 1 ⟨rest, some a₄⟩
  let s₅ := { s₄ with mark := false }.finish 1 ⟨rest, some a₄⟩ a₄ (.ok s.cell)
  have f₁ : s₁.threads[1]? = some ⟨rest, some a⟩ := threads_put ready _
  have f₂ : s₂.threads[1]? = some ⟨rest, some a₂⟩ := threads_put (s := { s₁ with mark := _ }) f₁ _
  have f₃ : s₃.threads[1]? = some ⟨rest, some a₃⟩ := threads_put f₂ _
  have f₄ : s₄.threads[1]? = some ⟨rest, some a₄⟩ := threads_put (s := { s₃ with cell := _ }) f₃ _
  have t₁ : step s ⟨1, b 0⟩ = some s₁ := by simp only [step, ready]; rfl
  have t₂ : step s₁ ⟨1, b 1⟩ = some s₂ := by
    have still : s₁.mark = false := free
    simp only [step, f₁, stepCall, a, interfered_exchange, exchange_mark, still]
    rfl
  have t₃ : step s₂ ⟨1, b 2⟩ = some s₃ := by simp only [step, f₂]; rfl
  have t₄ : step s₃ ⟨1, b 3⟩ = some s₄ := by simp only [step, f₃]; rfl
  have t₅ : step s₄ ⟨1, b 4⟩ = some s₅ := by simp only [step, f₄]; rfl
  have f₅ : s₅.threads[1]? = some ⟨rest, none⟩ := threads_put (s := { s₄ with mark := _ }) f₄ _
  refine ⟨5, s₅, ?_, f₅⟩
  simp only [List.range, List.range.loop, List.map_cons, List.map_nil, exec, t₁, t₂, t₃, t₄, t₅,
    Option.bind_some]

/-- The mark is set and the handler is before its exchange. -/
def Spinning (s : Registry W) (value : Option W) (rest : List (Call (Option W) Unit)) : Prop :=
  s.mark = true ∧ (s.threads[1]? = some ⟨.swap value :: rest, none⟩ ∨
    ∃ began, s.threads[1]? = some ⟨rest, some ⟨.swap value, .exchange, began, false⟩⟩)

theorem spinning_step {t : Registry W} {spurious : Bool} (spins : Spinning s value rest)
    (taken : step s ⟨1, spurious⟩ = some t) : Spinning t value rest := by
  obtain ⟨busy, ready | ⟨began, trying⟩⟩ := spins
  · simp only [step, ready, Option.some.injEq] at taken
    rw [← taken]
    exact ⟨busy, .inr ⟨s.clock, threads_put ready _⟩⟩
  · simp only [step, trying, stepCall, interfered_exchange, busy, if_pos, interfered,
      Option.some.injEq] at taken
    rw [← taken]
    exact ⟨rfl, .inr ⟨began, trying⟩⟩

theorem spinning_run {t : Registry W} {spurious : List Bool} (spins : Spinning s value rest)
    (run : exec step s (spurious.map fun b => ⟨1, b⟩) = some t) : Spinning t value rest := by
  induction spurious generalizing s with
  | nil => exact Option.some.inj run ▸ spins
  | cons b bs ih =>
    obtain ⟨u, taken, tail⟩ := exec_cons run
    exact ih (spinning_step spins taken) tail

theorem not_returns_of_busy (ready : s.threads[1]? = some ⟨.swap value :: rest, none⟩)
    (busy : s.mark = true) : ¬ Returns s rest := by
  intro returns
  obtain ⟨n, t, run, done⟩ := returns fun _ => false
  have flat : ((List.range n).map fun _ => (⟨1, false⟩ : Event)) =
      ((List.range n).map fun _ => false).map fun b => ⟨1, b⟩ := by simp
  rw [flat] at run
  obtain ⟨-, still | ⟨began, still⟩⟩ := spinning_run ⟨busy, .inl ready⟩ run
  · rw [still] at done
    have lists := congrArg Thread.todo (Option.some.inj done)
    exact absurd (congrArg List.length lists) (Nat.succ_ne_self rest.length)
  · rw [still] at done
    cases congrArg Thread.active (Option.some.inj done)

end Loop

/-- A handler returns exactly when the polling code does not hold the mark at the point of
the interrupt, whatever happened before and however its exchanges fail. -/
theorem handler_returns_iff (waker : Option W) (uses : List (Use W)) (handlers : Nat)
    (turns : List Turn) (s : Registry W) (rest : List (Call (Option W) Unit))
    (run : exec turn (boot waker uses handlers) turns = some s)
    (ready : s.threads[1]? = some ⟨Use.notifyWake.swap :: rest, none⟩) :
    Returns s rest ↔ holdsMark s = false := by
  have inv := invariant_run turn_settled ⟨boot_settled waker uses handlers, by
    cases handlers <;> rfl⟩ run
  have mark := inv.1.mark (window_idle inv.2)
  have held : holdsMark s = true ↔ window s 0 = some true := beq_iff_eq
  cases busy : s.mark with
  | false =>
    have free : holdsMark s = false := by
      rw [← Bool.not_eq_true, held, ← mark, busy]
      exact Bool.false_ne_true
    exact iff_of_true (returns_of_free ready busy) free
  | true =>
    have holds : holdsMark s = true := held.mpr (mark.mp busy)
    refine iff_of_false (not_returns_of_busy ready busy) ?_
    rw [holds]
    exact Bool.true_eq_false.mp

/-- The polling code registers a waker and is interrupted right after its exchange. -/
theorem handler_spins_forever :
    let s := last turn (boot none [.register 7] 1) [.poll false, .poll false]
    exec turn (boot none [.register 7] 1) [.poll false, .poll false] = some s ∧
      s.threads[1]? = some ⟨[Use.notifyWake.swap], none⟩ ∧ ¬ Returns s [] := by
  refine ⟨exec_last rfl, rfl, ?_⟩
  apply not_returns_of_busy
  · exact rfl
  · exact rfl

theorem handler_returns_between :
    let s := last turn (boot none [.register 7, .clear] 2) [.poll false, .interrupt
      [false, false, false, false, false], .poll true, .poll false]
    Returns s [] := by
  refine (handler_returns_iff none [.register 7, .clear] 2 _ _ [] (exec_last rfl) rfl).mpr rfl

end Juggle.Utils.Interrupt
