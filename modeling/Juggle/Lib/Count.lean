import Mathlib.Data.List.Basic

/-! Counting the entries of a list while single positions of it are overwritten. -/
namespace Juggle.Count

variable {α : Type}

/-- What one entry contributes to a count. -/
def weight (b : Bool) : Nat := if b then 1 else 0

@[simp] theorem weight_true : weight true = 1 := rfl
@[simp] theorem weight_false : weight false = 0 := rfl

theorem weight_le_one (b : Bool) : weight b ≤ 1 := by cases b <;> decide

theorem countP_set_weight (p : α → Bool) {l : List α} {i : Nat} {x : α} (a : α)
    (h : l[i]? = some x) :
    (l.set i a).countP p + weight (p x) = l.countP p + weight (p a) := by
  obtain ⟨bound, value⟩ := List.getElem?_eq_some_iff.mp h
  have present : weight (p x) ≤ l.countP p := by
    subst value
    cases hp : p l[i] with
    | false => simp [weight]
    | true => exact List.countP_pos_iff.mpr ⟨l[i], List.getElem_mem bound, hp⟩
  have := List.countP_set (p := p) (a := a) bound
  rw [value] at this
  simp only [weight] at *
  omega

theorem countP_modify_weight (p : α → Bool) {l : List α} {i : Nat} {x : α} (f : α → α)
    (h : l[i]? = some x) :
    (l.modify i f).countP p + weight (p x) = l.countP p + weight (p (f x)) := by
  rw [List.modify_eq_set_getElem?, h]
  exact countP_set_weight p (f x) h

theorem countP_modify_same (p : α → Bool) (l : List α) (i : Nat) (f : α → α)
    (same : ∀ x, p (f x) = p x) : (l.modify i f).countP p = l.countP p := by
  cases h : l[i]? with
  | none => rw [List.modify_eq_self (List.getElem?_eq_none_iff.mp h)]
  | some x =>
    have := countP_modify_weight p f h
    rw [same] at this
    omega

theorem countP_eq_iff_of_imp (p q : α → Bool) (l : List α) (sub : ∀ x ∈ l, p x = true → q x = true) :
    l.countP p = l.countP q ↔ ∀ x ∈ l, q x = true → p x = true := by
  induction l with
  | nil => simp
  | cons a l ih =>
    have tail := ih (fun x hx => sub x (List.mem_cons_of_mem a hx))
    have le : l.countP p ≤ l.countP q :=
      List.countP_mono_left (fun x hx => sub x (List.mem_cons_of_mem a hx))
    have head := sub a List.mem_cons_self
    simp only [List.countP_cons, List.mem_cons, forall_eq_or_imp, ← tail]
    cases hp : p a <;> cases hq : q a <;> simp_all
    omega

end Juggle.Count
