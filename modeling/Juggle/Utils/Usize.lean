import Mathlib.Algebra.Group.Nat.Defs

/-! Arithmetic of `usize` on a 64 bit target, as a release build computes it. -/
namespace Juggle.Utils

/-- `usize::MAX`. -/
@[irreducible] def usizeMax : Nat := 2 ^ 64 - 1

/-- `x + 1` on values that fit a `usize`. -/
def wrappingInc (x : Nat) : Nat := if x = usizeMax then 0 else x + 1

/-- `x - 1` on values that fit a `usize`. -/
def wrappingDec (x : Nat) : Nat := if x = 0 then usizeMax else x - 1

theorem wrappingInc_of_lt {x : Nat} (room : x < usizeMax) : wrappingInc x = x + 1 :=
  if_neg (Nat.ne_of_lt room)

theorem wrappingDec_of_pos {x : Nat} (pos : 0 < x) : wrappingDec x = x - 1 :=
  if_neg (Nat.ne_of_gt pos)

/-- A wrapping counter holds the number of its steps modulo `2 ^ 64`. -/
theorem wrappingInc_mod (n : Nat) :
    wrappingInc (n % (usizeMax + 1)) = (n + 1) % (usizeMax + 1) := by
  have below : n % (usizeMax + 1) < usizeMax + 1 := Nat.mod_lt n (Nat.succ_pos usizeMax)
  rw [← Nat.mod_add_mod]
  generalize n % (usizeMax + 1) = r at below
  unfold wrappingInc
  split
  · rename_i full
    rw [full, Nat.mod_self]
  · rename_i room
    exact (Nat.mod_eq_of_lt (by omega)).symm

theorem wrappingInc_ne (n : Nat) : wrappingInc n ≠ n := by
  have positive : usizeMax ≠ 0 := by simp [usizeMax]
  unfold wrappingInc
  split <;> omega

end Juggle.Utils
