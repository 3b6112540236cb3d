import Mathlib.Data.List.Basic

/-! Loops that unwind. A failure in the body ends the loop, and the state it leaves behind
is the one at that point. -/
namespace Juggle.Loops

variable {A B S P : Type}

/-- What is left of a computation that may unwind: how it ended and the state. -/
abbrev Ended (P S : Type) := Except P Unit × S

def andThen : Ended P S → (S → Ended P S) → Ended P S
  | (.ok (), s), rest => rest s
  | (.error p, s), _ => (.error p, s)

def forEach (body : A → S → Ended P S) : List A → S → Ended P S
  | [], s => (.ok (), s)
  | a :: as, s => andThen (body a s) (forEach body as)

theorem andThen_assoc (r : Ended P S) (f g : S → Ended P S) :
    andThen (andThen r f) g = andThen r (fun s => andThen (f s) g) := by
  obtain ⟨ending, s⟩ := r
  cases ending <;> rfl

theorem andThen_ok (r : Ended P S) : andThen r (fun s => (.ok (), s)) = r := by
  obtain ⟨ending, s⟩ := r
  cases ending <;> rfl

theorem forEach_single (body : A → S → Ended P S) (a : A) : forEach body [a] = body a :=
  funext fun s => andThen_ok (body a s)

theorem forEach_append (body : A → S → Ended P S) (as bs : List A) (s : S) :
    forEach body (as ++ bs) s = andThen (forEach body as s) (forEach body bs) := by
  induction as generalizing s with
  | nil => rfl
  | cons a as ih =>
    have tail : forEach body (as ++ bs) = fun s => andThen (forEach body as s) (forEach body bs) :=
      funext ih
    rw [List.cons_append, forEach, forEach, tail, andThen_assoc]

theorem forEach_congr {f g : A → S → Ended P S} {as : List A} (same : ∀ a ∈ as, f a = g a) (s : S) :
    forEach f as s = forEach g as s := by
  induction as generalizing s with
  | nil => rfl
  | cons a as ih =>
    have tail := funext (ih (fun b member => same b (List.mem_cons_of_mem a member)))
    rw [forEach, forEach, tail, same a List.mem_cons_self]

theorem forEach_map (body : B → S → Ended P S) (f : A → B) (as : List A) (s : S) :
    forEach body (as.map f) s = forEach (fun a => body (f a)) as s := by
  induction as generalizing s with
  | nil => rfl
  | cons a as ih =>
    have tail := funext ih
    rw [List.map_cons, forEach, forEach, tail]

/-- A loop over blocks of one size is a loop over their members. -/
theorem forEach_blocks (body : Nat → Nat → S → Ended P S) {size : Nat} (positive : 0 < size)
    (blocks : Nat) (s : S) :
    forEach (fun b => forEach (body b) (List.range size)) (List.range blocks) s =
      forEach (fun n => body (n / size) (n % size)) (List.range (blocks * size)) s := by
  induction blocks with
  | zero => rw [Nat.zero_mul]; rfl
  | succ b ih =>
    have last : ∀ s, forEach (body b) (List.range size) s = forEach
        (fun n => body (n / size) (n % size)) ((List.range size).map (b * size + ·)) s := by
      intro s
      rw [forEach_map]
      refine forEach_congr (fun i member => ?_) s
      have small := List.mem_range.mp member
      have block : (b * size + i) / size = b := by
        rw [Nat.mul_comm, Nat.mul_add_div positive, Nat.div_eq_of_lt small, Nat.add_zero]
      have place : (b * size + i) % size = i := by
        rw [Nat.mul_comm, Nat.mul_add_mod, Nat.mod_eq_of_lt small]
      rw [block, place]
    rw [List.range_succ, forEach_append, ih, forEach_single, funext last, Nat.succ_mul, List.range_add,
      forEach_append]

/-- A loop whose body never fails is a fold. -/
theorem forEach_total {body : A → S → Ended P S} {f : S → A → S}
    (total : ∀ a s, body a s = (.ok (), f s a)) (as : List A) (s : S) :
    forEach body as s = (.ok (), as.foldl f s) := by
  induction as generalizing s with
  | nil => rfl
  | cons a as ih =>
    rw [forEach, total a s, List.foldl_cons]
    exact ih (f s a)

end Juggle.Loops
