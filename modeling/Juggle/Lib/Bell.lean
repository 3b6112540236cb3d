import Mathlib.Logic.Basic

/-! A cell for one waker between a sleeper and its callers. The sleeper leaves its waker
in the cell and then looks at every target once more. A call takes what is in the cell,
invokes it, and stores the mark of its target last. Marks are the sleeper's own affair;
here stands what it may conclude from the cell and the calls under way. -/
namespace Juggle.Bells

inductive Phase (W : Type) where
  | take
  | invoke (w : W)
  | store
  deriving DecidableEq

/-- What a call does next when it has swapped the cell. -/
def Phase.taken {W : Type} : Option W → Phase W
  | some w => .invoke w
  | none => .store

/-- `rung` collects the wakers that were invoked. -/
structure Bell (K W : Type) where
  cell : Option W
  calls : List (K × Phase W)
  rung : List W

namespace Bell
variable {K W : Type}

/-- Whatever happens to the bell between two visits of the sleeper. -/
inductive Step (b b' : Bell K W) : Prop where
  | same (eq : b' = b)
  | call (k : K) (cell : b'.cell = b.cell) (calls : b'.calls = b.calls ++ [(k, .take)])
      (rung : b'.rung = b.rung)
  | take (i : Nat) (k : K) (here : b.calls[i]? = some (k, .take)) (cell : b'.cell = none)
      (calls : b'.calls = b.calls.set i (k, .taken b.cell)) (rung : b'.rung = b.rung)
  | invoke (i : Nat) (k : K) (w : W) (here : b.calls[i]? = some (k, .invoke w))
      (cell : b'.cell = b.cell) (calls : b'.calls = b.calls.set i (k, .store))
      (rung : b'.rung = w :: b.rung)
  | store (i : Nat) (k : K) (here : b.calls[i]? = some (k, .store)) (cell : b'.cell = b.cell)
      (calls : b'.calls = b.calls.eraseIdx i) (rung : b'.rung = b.rung)
  /-- a whole call by the thread of the sleeper -/
  | whole (cell : b'.cell = none) (calls : b'.calls = b.calls) (rung : b'.rung = b.cell.toList ++ b.rung)

def advance (b : Bell K W) (i : Nat) : Option (Bell K W) :=
  match b.calls[i]? with
  | none => none
  | some (k, .take) => some { b with cell := none, calls := b.calls.set i (k, .taken b.cell) }
  | some (k, .invoke w) => some { b with calls := b.calls.set i (k, .store), rung := w :: b.rung }
  | some (_, .store) => some { b with calls := b.calls.eraseIdx i }

theorem advance_step {b b' : Bell K W} {i : Nat} (h : b.advance i = some b') : Step b b' := by
  unfold advance at h
  split at h
  · cases h
  · rename_i k here
    cases h
    exact .take i k here rfl rfl rfl
  · rename_i k w here
    cases h
    exact .invoke i k w here rfl rfl rfl
  · rename_i k here
    cases h
    exact .store i k here rfl rfl rfl

/-- The waker was invoked, or a call holds it in order to invoke it. -/
def Answered (w : W) (b : Bell K W) : Prop := w ∈ b.rung ∨ ∃ c ∈ b.calls, c.2 = .invoke w

/-- The next call to take from the cell answers, or one has answered. -/
def Armed (w : W) (b : Bell K W) : Prop := b.cell = some w ∨ Answered w b

/-- A call has taken from the cell and not yet stored the mark of this target. -/
def Owes (k : K) (b : Bell K W) : Prop := ∃ c ∈ b.calls, c.1 = k ∧ c.2 ≠ .take

instance [DecidableEq W] (w : W) (b : Bell K W) : Decidable (Answered w b) :=
  inferInstanceAs (Decidable (_ ∨ _))

instance [DecidableEq K] [DecidableEq W] (k : K) (b : Bell K W) : Decidable (Owes k b) :=
  inferInstanceAs (Decidable (∃ _ ∈ _, _))

section Step
variable {b b' : Bell K W} {w : W} {k : K}

theorem mem_set_or {α : Type} {l : List α} {i : Nat} {x y a : α} (here : l[i]? = some x) (mem : a ∈ l) :
    a = x ∨ a ∈ l.set i y := by
  obtain ⟨j, found⟩ := List.getElem?_of_mem mem
  by_cases same : i = j
  · subst same
    exact .inl (Option.some.inj (found.symm.trans here))
  · refine .inr (List.mem_of_getElem? (i := j) ?_)
    rw [List.getElem?_set_ne same]
    exact found

theorem mem_eraseIdx_or {α : Type} {l : List α} {i : Nat} {x a : α} (here : l[i]? = some x)
    (mem : a ∈ l) : a = x ∨ a ∈ l.eraseIdx i := by
  obtain ⟨j, found⟩ := List.getElem?_of_mem mem
  by_cases same : j = i
  · subst same
    exact .inl (Option.some.inj (found.symm.trans here))
  · exact .inr (List.mem_eraseIdx_iff_getElem?.mpr ⟨j, same, found⟩)

theorem Answered.step (answered : Answered w b) (step : Step b b') : Answered w b' := by
  rcases answered with rung | ⟨c, mem, holds⟩
  · left
    cases step with
    | same eq => rwa [eq]
    | call k cell calls rung' => rwa [rung']
    | take i k here cell calls rung' => rwa [rung']
    | invoke i k v here cell calls rung' => exact rung' ▸ List.mem_cons_of_mem v rung
    | store i k here cell calls rung' => rwa [rung']
    | whole cell calls rung' => exact rung' ▸ List.mem_append_right _ rung
  · -- the call that holds the waker can only go on by invoking it
    cases step with
    | same eq => exact .inr ⟨c, eq ▸ mem, holds⟩
    | call k cell calls rung => exact .inr ⟨c, calls ▸ List.mem_append_left _ mem, holds⟩
    | take i k here cell calls rung =>
      rcases mem_set_or (y := (k, Phase.taken b.cell)) here mem with rfl | rest
      · cases holds
      · exact .inr ⟨c, calls ▸ rest, holds⟩
    | invoke i k v here cell calls rung =>
      rcases mem_set_or (y := (k, Phase.store)) here mem with rfl | rest
      · cases holds
        exact .inl (rung ▸ List.mem_cons_self)
      · exact .inr ⟨c, calls ▸ rest, holds⟩
    | store i k here cell calls rung =>
      rcases mem_eraseIdx_or here mem with rfl | rest
      · cases holds
      · exact .inr ⟨c, calls ▸ rest, holds⟩
    | whole cell calls rung => exact .inr ⟨c, calls ▸ mem, holds⟩

/-- Whoever takes the waker out of the cell is going to invoke it. -/
theorem Armed.step (armed : Armed w b) (step : Step b b') : Armed w b' := by
  rcases armed with waits | answered
  · cases step with
    | same eq => exact .inl (eq ▸ waits)
    | call k cell calls rung => exact .inl (cell.trans waits)
    | take i k here cell calls rung =>
      have bound : i < b.calls.length := (List.getElem?_eq_some_iff.mp here).1
      have next : (k, Phase.invoke w) ∈ b'.calls := by
        rw [calls, waits]
        exact List.mem_set bound _
      exact .inr (.inr ⟨_, next, rfl⟩)
    | invoke i k v here cell calls rung => exact .inl (cell.trans waits)
    | store i k here cell calls rung => exact .inl (cell.trans waits)
    | whole cell calls rung =>
      refine .inr (.inl ?_)
      rw [rung, waits]
      exact List.mem_cons_self
  · exact .inr (answered.step step)

/-- A call that takes from the cell of an armed bell owes nothing without an answer. -/
theorem owes_step (armed : Armed w b) (step : Step b b') (owes : Owes k b') :
    Owes k b ∨ Answered w b' := by
  obtain ⟨c, mem, target, past⟩ := owes
  cases step with
  | same eq => exact .inl ⟨c, eq ▸ mem, target, past⟩
  | call k' cell calls rung =>
    rw [calls] at mem
    rcases List.mem_append.mp mem with old | new
    · exact .inl ⟨c, old, target, past⟩
    · cases List.mem_singleton.mp new
      exact absurd rfl past
  | take i k' here cell calls rung =>
    have armed' := armed.step (.take i k' here cell calls rung)
    exact .inr (armed'.resolve_left (by rw [cell]; exact nofun))
  | invoke i k' v here cell calls rung =>
    rw [calls] at mem
    rcases List.mem_or_eq_of_mem_set mem with old | rfl
    · exact .inl ⟨c, old, target, past⟩
    · exact .inl ⟨_, List.mem_of_getElem? here, target, nofun⟩
  | store i k' here cell calls rung =>
    rw [calls] at mem
    exact .inl ⟨c, List.mem_of_mem_eraseIdx mem, target, past⟩
  | whole cell calls rung => exact .inl ⟨c, calls ▸ mem, target, past⟩

end Step

/-- The sleeper has left its waker and looked at some targets since. It may trust what it
has seen: where a mark is set after all, or is about to be, an answer is on its way. -/
structure Covers (w : W) (b : Bell K W) (seen marked : K → Prop) : Prop where
  armed : Armed w b
  heard : ∀ k, seen k → marked k ∨ Owes k b → Answered w b

section Covers
variable {b b' : Bell K W} {w : W} {seen seen' marked marked' : K → Prop}

theorem Covers.start (cell : b.cell = some w) (blank : ∀ k, ¬ seen k) : Covers w b seen marked where
  armed := .inl cell
  heard k look := absurd look (blank k)

/-- The step rule. A look at a new target has to find nothing there, and a mark may
appear only where one was owed. -/
theorem Covers.step (covers : Covers w b seen marked) (step : Step b b')
    (kept : ∀ k, seen' k → marked' k ∨ Owes k b' →
      (seen k ∧ (marked' k → marked k ∨ Owes k b)) ∨ Answered w b') : Covers w b' seen' marked' where
  armed := covers.armed.step step
  heard k look work := by
    rcases kept k look work with ⟨before, known⟩ | answered
    · have earlier : (marked k ∨ Owes k b) ∨ Answered w b' := by
        rcases work with mark | owes
        · exact .inl (known mark)
        · exact (owes_step covers.armed step owes).imp_left .inr
      exact earlier.elim (fun earlier => (covers.heard k before earlier).step step) id
    · exact answered

/-- When no call is under way, the sleeper sleeps rightly or was woken. -/
theorem Covers.sleeps (covers : Covers w b seen marked) (finished : b.calls = []) :
    (∀ k, seen k → ¬ marked k) ∨ w ∈ b.rung := by
  by_cases rung : w ∈ b.rung
  · exact .inr rung
  · refine .inl (fun k look mark => ?_)
    rcases covers.heard k look (.inl mark) with answered | ⟨c, mem, _⟩
    · exact rung answered
    · rw [finished] at mem
      cases mem

end Covers

end Bell
end Juggle.Bells
