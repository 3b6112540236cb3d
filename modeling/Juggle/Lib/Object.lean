import Mathlib.Data.List.Basic

/-! Objects that answer calls. A call may end in a panic; a specification says which
answers are allowed in which abstract state. The rule at the end turns the agreement
of single calls into that of every sequence of calls. -/
namespace Juggle.Objects

variable {S M O A P : Type}

/-- The answers to a list of calls and the object left behind; a panic ends the list. -/
def calls (call : S → O → Except P A × S) : S → List O → Except P (List A) × S
  | s, [] => (.ok [], s)
  | s, o :: os =>
    match call s o with
    | (.error p, t) => (.error p, t)
    | (.ok a, t) =>
      match calls call t os with
      | (.error p, u) => (.error p, u)
      | (.ok as, u) => (.ok (a :: as), u)

/-- The answered calls are allowed one after the other, from one abstract state to another. -/
inductive Allowed (spec : M → O → A → M → Prop) : M → List (O × A) → M → Prop
  | nil (m : M) : Allowed spec m [] m
  | cons {m n k : M} {o : O} {a : A} {h : List (O × A)} (first : spec m o a n)
      (rest : Allowed spec n h k) : Allowed spec m ((o, a) :: h) k

theorem Allowed.append {spec : M → O → A → M → Prop} {m n k : M} {g h : List (O × A)}
    (left : Allowed spec m g n) (right : Allowed spec n h k) : Allowed spec m (g ++ h) k := by
  induction left with
  | nil m => exact right
  | cons first rest ih => exact .cons first (ih right)

theorem Allowed.snoc {spec : M → O → A → M → Prop} {m n k : M} {h : List (O × A)} {o : O} {a : A}
    (left : Allowed spec m h n) (final : spec n o a k) : Allowed spec m (h ++ [(o, a)]) k :=
  left.append (.cons final (.nil k))

/-- Forward simulation: related states give an allowed answer and stay related. -/
theorem calls_refine {call : S → O → Except P A × S} {spec : M → O → A → M → Prop}
    {R : S → M → Prop}
    (simulates : ∀ s m o, R s m → ∃ a t n, call s o = (.ok a, t) ∧ spec m o a n ∧ R t n)
    {s : S} {m : M} (related : R s m) (os : List O) :
    ∃ as t n, calls call s os = (.ok as, t) ∧ as.length = os.length ∧
      Allowed spec m (os.zip as) n ∧ R t n := by
  induction os generalizing s m with
  | nil => exact ⟨[], s, m, rfl, rfl, .nil m, related⟩
  | cons o os ih =>
    obtain ⟨a, t, n, answered, allowed, kept⟩ := simulates s m o related
    obtain ⟨as, u, k, rest, len, history, final⟩ := ih kept
    refine ⟨a :: as, u, k, ?_, ?_, .cons allowed history, final⟩
    · simp only [calls, answered, rest]
    · simp [len]

end Juggle.Objects
