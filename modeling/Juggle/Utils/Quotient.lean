import Mathlib.Algebra.Ring.Int.Defs
import Mathlib.Data.Int.Order.Basic
import Juggle.Utils.Decision

/-! The ten integer types of `impl_count!`, signed ones included, and the proportional time
in each of them: a total divided by a number of slots after that number has been cast to
the type. -/
namespace Juggle.Utils

inductive IntCount where
  | u16
  | i16
  | u32
  | i32
  | u64
  | i64
  | u128
  | i128
  | usize
  | isize
  deriving DecidableEq

namespace IntCount

def bits : IntCount → Nat
  | u16 | i16 => 16
  | u32 | i32 => 32
  | u64 | i64 | usize | isize => 64
  | u128 | i128 => 128

def signed : IntCount → Bool
  | i16 | i32 | i64 | i128 | isize => true
  | _ => false

def minValue (t : IntCount) : Int := if t.signed then -2 ^ (t.bits - 1) else 0

def maxValue (t : IntCount) : Int := if t.signed then 2 ^ (t.bits - 1) - 1 else 2 ^ t.bits - 1

def Fits (t : IntCount) (n : Int) : Prop := t.minValue ≤ n ∧ n ≤ t.maxValue

instance (t : IntCount) (n : Int) : Decidable (t.Fits n) := inferInstanceAs (Decidable (_ ∧ _))

/-- The values of the type. -/
abbrev Count (t : IntCount) := { n : Int // t.Fits n }

instance (t : IntCount) : LinearOrder t.Count := @Subtype.instLinearOrder Int Int.instLinearOrder _

instance (t : IntCount) : Min t.Count := LinearOrder.toMin

instance (t : IntCount) : DecidableLE t.Count := LinearOrder.toDecidableLE

theorem span (t : IntCount) : t.maxValue - t.minValue + 1 = 2 ^ t.bits := by cases t <;> rfl

theorem minValue_nonpos (t : IntCount) : t.minValue ≤ 0 := by cases t <;> decide

/-- What is left of a number in two's complement. -/
def wrap (t : IntCount) (n : Int) : t.Count where
  val := (n - t.minValue) % 2 ^ t.bits + t.minValue
  property := by
    have size := t.span
    have positive : (0 : Int) < 2 ^ t.bits := Int.pow_pos (by decide)
    have low := Int.emod_nonneg (n - t.minValue) (Int.ne_of_gt positive)
    have high := Int.emod_lt_of_pos (n - t.minValue) positive
    exact ⟨by omega, by omega⟩

theorem wrap_of_fits {t : IntCount} {n : Int} (fits : t.Fits n) : (t.wrap n).val = n := by
  have size := t.span
  have small : (n - t.minValue) % 2 ^ t.bits = n - t.minValue :=
    Int.emod_eq_of_lt (by have := fits.1; omega) (by have := fits.2; omega)
  change (n - t.minValue) % 2 ^ t.bits + t.minValue = n
  omega

/-- `n.get() as Self`. -/
def cast (t : IntCount) (n : NonZeroU16) : t.Count := t.wrap n.get

end IntCount

/-- Arithmetic of a release build; `/` rounds towards zero. -/
instance (t : IntCount) : TimerCount t.Count where
  default := t.wrap 0
  add x y := t.wrap (x.val + y.val)
  divBy x n := t.wrap (x.val.tdiv (t.cast n).val)
  mulBy x n := t.wrap (x.val * (t.cast n).val)

namespace TimingGroup
open IntCount Juggle.Runs ChunkSlab

section Division
variable {t : IntCount}

/-- Only `i16` cannot hold every number of slots. -/
theorem cast_slots (t : IntCount) (n : NonZeroU16) :
    (t.cast n).val = if t = .i16 ∧ 2 ^ 15 ≤ n.get then (n.get - 2 ^ 16 : Int) else (n.get : Int) := by
  have fits := n.fits
  by_cases narrow : t = .i16 ∧ 2 ^ 15 ≤ n.get
  · obtain ⟨rfl, large⟩ := narrow
    rw [if_pos ⟨rfl, large⟩]
    change ((n.get : Int) - -2 ^ 15) % 2 ^ 16 + -2 ^ 15 = _
    omega
  · rw [if_neg narrow]
    refine wrap_of_fits ⟨t.minValue_nonpos.trans (Int.natCast_nonneg _), ?_⟩
    cases t <;> simp [maxValue, signed, bits] at narrow ⊢ <;> omega

/-- When a total divided by a number of slots is the true quotient. -/
def TrueQuotient (t : IntCount) (slots : Nat) (total : Int) : Prop :=
  t = .i16 → slots < 2 ^ 15 ∨ total + slots < 2 ^ 16

theorem fits_quotient {x : t.Count} (nonneg : 0 ≤ x.val) (n : Nat) : t.Fits (x.val / n) :=
  ⟨t.minValue_nonpos.trans (Int.ediv_nonneg nonneg (Int.natCast_nonneg n)),
    (Int.ediv_le_self _ nonneg).trans x.property.2⟩

/-- Division by a number of slots that the type can hold. -/
theorem tdiv_cast {x : t.Count} (nonneg : 0 ≤ x.val) {n : NonZeroU16}
    (small : ¬ (t = .i16 ∧ 2 ^ 15 ≤ n.get)) : x.val.tdiv (t.cast n).val = x.val / n.get := by
  rw [cast_slots, if_neg small, Int.tdiv_eq_ediv_of_nonneg nonneg]

theorem divBy_eq {x : t.Count} (nonneg : 0 ≤ x.val) {n : NonZeroU16}
    (small : ¬ (t = .i16 ∧ 2 ^ 15 ≤ n.get)) :
    (TimerCount.divBy x n).val = x.val / n.get := by
  change (t.wrap (x.val.tdiv (t.cast n).val)).val = _
  rw [tdiv_cast nonneg small]
  exact wrap_of_fits (fits_quotient nonneg n.get)

/-- A large number of slots is negative as an `i16`, and so is the quotient unless it is zero. -/
theorem divBy_negative {x : IntCount.i16.Count} (nonneg : 0 ≤ x.val) {n : NonZeroU16}
    (large : 2 ^ 15 ≤ n.get) :
    (TimerCount.divBy x n).val = -(x.val / (2 ^ 16 - n.get)) := by
  have below := n.fits
  have gap : ((n.get : Int) - 2 ^ 16) = -(2 ^ 16 - n.get) := by omega
  have quotient : x.val.tdiv (IntCount.i16.cast n).val = -(x.val / (2 ^ 16 - n.get)) := by
    rw [cast_slots, if_pos ⟨rfl, large⟩, gap, Int.tdiv_neg, Int.tdiv_eq_ediv_of_nonneg nonneg]
  have low := Int.ediv_nonneg (b := (2 ^ 16 - n.get : Int)) nonneg (by omega)
  have high := Int.ediv_le_self (2 ^ 16 - n.get : Int) nonneg
  have limit : x.val ≤ 2 ^ 15 - 1 := x.property.2
  change (IntCount.i16.wrap (x.val.tdiv (IntCount.i16.cast n).val)).val = _
  rw [quotient]
  exact wrap_of_fits ⟨by change -2 ^ 15 ≤ _; omega, by change _ ≤ 2 ^ 15 - 1; omega⟩

theorem divBy_true_iff {x : t.Count} (nonneg : 0 ≤ x.val) (n : NonZeroU16) :
    (TimerCount.divBy x n).val = x.val / n.get ↔ TrueQuotient t n.get x.val := by
  by_cases narrow : t = .i16 ∧ 2 ^ 15 ≤ n.get
  · obtain ⟨rfl, large⟩ := narrow
    have below := n.fits
    have limit : x.val ≤ 2 ^ 15 - 1 := x.property.2
    have zero : x.val / (n.get : Int) = 0 := Int.ediv_eq_zero_of_lt nonneg (by omega)
    have positive : (0 : Int) < 2 ^ 16 - n.get := by omega
    rw [divBy_negative nonneg large, zero, Int.neg_eq_zero, Int.ediv_eq_iff_of_pos positive]
    constructor
    · rintro ⟨_, less⟩ _
      exact .inr (by omega)
    · intro true
      rcases true rfl with few | less
      · omega
      · exact ⟨by omega, by omega⟩
  · rw [divBy_eq nonneg narrow, TrueQuotient]
    refine iff_of_true rfl (fun same => .inl ?_)
    exact Nat.lt_of_not_le (fun large => narrow ⟨same, large⟩)

end Division

theorem zero_val (t : IntCount) : (TimerCount.default : t.Count).val = 0 :=
  wrap_of_fits ⟨t.minValue_nonpos, by cases t <;> decide⟩

instance (t : IntCount) : LawfulTimerCount t.Count := ⟨fun n => by
  have zero := zero_val t
  refine Subtype.ext ?_
  change (t.wrap ((TimerCount.default : t.Count).val.tdiv (t.cast n).val)).val = _
  rw [zero, Int.zero_tdiv]
  exact zero⟩

section Quotient
variable {t : IntCount}

/-- What a call charges to an entry. -/
def chargeTo (key : Nat) : Op t.Count → Int
  | .updateDuration k dur => if k = key then dur.val else 0
  | _ => 0

def total (key : Nat) (ops : List (Op t.Count)) : Int := (ops.map (chargeTo key)).sum

/-- The call leaves the entry in the group and charges nothing negative to it. -/
def Spares (key : Nat) : Op t.Count → Prop
  | .remove k => k ≠ key
  | .clear => False
  | .updateDuration k dur => k = key → 0 ≤ dur.val
  | .insert _ => True

theorem chargeTo_nonneg {key : Nat} {op : Op t.Count} (spared : Spares key op) :
    0 ≤ chargeTo key op := by
  cases op with
  | updateDuration k dur =>
    by_cases here : k = key
    · rw [chargeTo, if_pos here]
      exact spared here
    · rw [chargeTo, if_neg here]
  | _ => exact Int.le_refl 0

theorem total_cons (key : Nat) (op : Op t.Count) (ops : List (Op t.Count)) :
    total key (op :: ops) = chargeTo key op + total key ops := List.sum_cons

theorem total_nonneg {key : Nat} {ops : List (Op t.Count)} (spared : ∀ op ∈ ops, Spares key op) :
    0 ≤ total key ops := by
  induction ops with
  | nil => exact Int.le_refl 0
  | cons op ops ih =>
    have first := chargeTo_nonneg (spared op List.mem_cons_self)
    have rest := ih (fun op member => spared op (List.mem_cons_of_mem _ member))
    rw [total_cons]
    omega

theorem move_wf {g g' : TimingGroup t.Count} {op : Op t.Count} (wf : WellFormed g.info)
    (move : Move g op g') : WellFormed g'.info := by
  cases move with
  | idle => exact wf
  | insert slots spec => exact spec.wf
  | remove present spec => exact spec.wf
  | clear => exact new_wellFormed
  | charge present => exact update_wellFormed wf _ _

theorem run_wf {g g' : TimingGroup t.Count} {ops : List (Op t.Count)} (wf : WellFormed g.info)
    (run : exec step g ops = some g') : WellFormed g'.info :=
  invariant_run (I := fun g => WellFormed g.info)
    (fun _ _ _ inv taken => move_wf inv (step_move inv taken)) wf run

/-- One call adds what it charges to the sum of an entry that it spares. -/
theorem charged_step {g g' : TimingGroup t.Count} {op : Op t.Count} {key : Nat}
    {entry : TimeEntry t.Count} (wf : WellFormed g.info) (present : g.info.get key = some entry)
    (nonneg : 0 ≤ entry.sum.val) (spared : Spares key op)
    (small : entry.sum.val + chargeTo key op ≤ t.maxValue) (taken : step g op = some g') :
    ∃ entry', g'.info.get key = some entry' ∧ entry'.proportion = entry.proportion ∧
      entry'.sum.val = entry.sum.val + chargeTo key op := by
  have move := step_move wf taken
  have same : chargeTo key op = 0 → g'.info.get key = some entry →
      ∃ entry', g'.info.get key = some entry' ∧ entry'.proportion = entry.proportion ∧
        entry'.sum.val = entry.sum.val + chargeTo key op := by
    intro free kept
    exact ⟨entry, kept, rfl, by rw [free, Int.add_zero]⟩
  cases op with
  | insert slotCount =>
    cases move with
    | idle => exact same rfl present
    | @insert _ proportion fresh info slots spec =>
      have other : key ≠ fresh := by
        rintro rfl
        rw [spec.fresh] at present
        cases present
      exact same rfl ((spec.others key other).trans present)
  | remove k =>
    cases move with
    | idle => exact same rfl present
    | remove found spec => exact same rfl ((spec.others key (Ne.symm spared)).trans present)
  | clear => exact spared.elim
  | updateDuration k dur =>
    by_cases here : k = key
    · subst here
      have added := chargeTo_nonneg spared
      have fits : t.Fits (entry.sum.val + dur.val) := by
        simp only [chargeTo, if_true] at small added
        exact ⟨t.minValue_nonpos.trans (by omega), small⟩
      simp only [step, call, updateDuration_some wf present, Option.some.injEq] at taken
      subst taken
      refine ⟨{ entry with sum := TimerCount.add entry.sum dur }, ?_, rfl, ?_⟩
      · rw [charged, get_update_self, present]
        rfl
      · rw [chargeTo, if_pos rfl]
        exact wrap_of_fits fits
    · refine same (by rw [chargeTo, if_neg here]) ?_
      cases move with
      | idle => exact present
      | charge found =>
        rw [charged, get_update_other _ _ (Ne.symm here)]
        exact present

theorem charged_run {g g' : TimingGroup t.Count} {ops : List (Op t.Count)} {key : Nat}
    {entry : TimeEntry t.Count} (wf : WellFormed g.info) (present : g.info.get key = some entry)
    (nonneg : 0 ≤ entry.sum.val) (spared : ∀ op ∈ ops, Spares key op)
    (small : entry.sum.val + total key ops ≤ t.maxValue) (run : exec step g ops = some g') :
    ∃ entry', g'.info.get key = some entry' ∧ entry'.proportion = entry.proportion ∧
      entry'.sum.val = entry.sum.val + total key ops := by
  induction ops generalizing g entry with
  | nil =>
    cases Option.some.inj run
    exact ⟨entry, present, rfl, (Int.add_zero _).symm⟩
  | cons op ops ih =>
    obtain ⟨r, taken, rest⟩ := exec_cons run
    have here := spared op List.mem_cons_self
    have later : ∀ op ∈ ops, Spares key op := fun op member => spared op (List.mem_cons_of_mem _ member)
    have tail := total_nonneg later
    have head := chargeTo_nonneg here
    rw [total_cons] at small ⊢
    obtain ⟨entry₁, present₁, same₁, sum₁⟩ :=
      charged_step wf present nonneg here (by omega) taken
    obtain ⟨entry₂, present₂, same₂, sum₂⟩ := ih (move_wf wf (step_move wf taken)) present₁
      (by omega) later (by omega) rest
    exact ⟨entry₂, present₂, same₂.trans same₁, by omega⟩

/-- The entry got `slots` slots when it was inserted and was charged `time` since, whatever
else has been called on its group before and after. -/
def Ledger (t : IntCount) (slots : U16) (time : Int) (entry : TimeEntry t.Count) : Prop :=
  ∃ (before ops : List (Op t.Count)) (g g' g'' : TimingGroup t.Count) (key : Nat),
    exec step new before = some g ∧ g.insert slots = (.ok key, g') ∧
      (∀ op ∈ ops, Spares key op) ∧ exec step g' ops = some g'' ∧
      g''.info.get key = some entry ∧ time = total key ops ∧ time ≤ t.maxValue

theorem Ledger.entry_eq {slots : U16} {time : Int} {entry : TimeEntry t.Count}
    (ledger : Ledger t slots time entry) :
    entry.sum.val = time ∧ entry.proportion.get = slots.val ∧ 0 ≤ time := by
  obtain ⟨before, ops, g, g', g'', key, past, inserted, spared, run, present, rfl, small⟩ := ledger
  have wf : WellFormed g.info := run_wf new_wellFormed past
  have some_slots : slots ≠ 0 := by
    rintro rfl
    rw [insert_zero] at inserted
    cases inserted
  obtain ⟨proportion, key', info, made, count, spec⟩ := insert_some wf some_slots
  rw [inserted] at made
  cases made
  have zero := zero_val t
  obtain ⟨entry', found, same, sum⟩ := charged_run spec.wf spec.bound (Int.le_of_eq zero.symm) spared
    (by rw [zero, Int.zero_add]; exact small) run
  cases Option.some.inj (found.symm.trans present)
  refine ⟨by rw [sum, zero, Int.zero_add], by rw [same]; exact count, total_nonneg spared⟩

/-- The proportional time of an entry is the true quotient of its time by its slots,
except for an `i16` and slots that are negative as one; where it is, it is not negative,
grows with the time and falls with the slots. -/
theorem proportional_time {slots slots' : U16} {time time' : Int} {entry entry' : TimeEntry t.Count}
    (ledger : Ledger t slots time entry) (ledger' : Ledger t slots' time' entry') :
    ((getProportional entry).val = time / slots.val ↔ TrueQuotient t slots.val time) ∧
    (TrueQuotient t slots.val time → 0 ≤ (getProportional entry).val ∧
      (TrueQuotient t slots'.val time' → time ≤ time' → slots' ≤ slots →
        (getProportional entry).val ≤ (getProportional entry').val)) := by
  have exact : ∀ {slots : U16} {time : Int} {entry : TimeEntry t.Count}, Ledger t slots time entry →
      ((getProportional entry).val = time / slots.val ↔ TrueQuotient t slots.val time) := by
    intro slots time entry ledger
    obtain ⟨rfl, count, nonneg⟩ := ledger.entry_eq
    rw [← count]
    exact divBy_true_iff nonneg entry.proportion
  obtain ⟨sum, count, nonneg⟩ := ledger.entry_eq
  obtain ⟨sum', count', nonneg'⟩ := ledger'.entry_eq
  refine ⟨exact ledger, fun fair => ?_⟩
  rw [(exact ledger).mpr fair]
  refine ⟨Int.ediv_nonneg nonneg (Int.natCast_nonneg _), fun fair' longer fewer => ?_⟩
  rw [(exact ledger').mpr fair']
  have positive : 0 < slots'.val := count' ▸ entry'.proportion.pos
  have fewer' : (slots'.val : Int) ≤ slots.val := Int.ofNat_le.mpr fewer
  have quotient := Int.ediv_nonneg nonneg (Int.natCast_nonneg slots.val)
  have below : time / slots.val * slots.val ≤ time := Int.ediv_mul_le _ (by omega)
  rw [Int.le_ediv_iff_mul_le (by omega)]
  calc time / slots.val * slots'.val ≤ time / slots.val * slots.val :=
        Int.mul_le_mul_of_nonneg_left fewer' quotient
    _ ≤ time := below
    _ ≤ time' := longer

/-- The slots as an `i16` are -25536. -/
theorem negative_slots_charge : ∃ entry, Ledger .i16 40000 30000 entry ∧
    (getProportional entry).val = -1 ∧ (30000 : Int) / (40000 : U16).val = 0 := by
  let ops : List (Op IntCount.i16.Count) := [.updateDuration 0 ⟨30000, by decide⟩]
  let g' := (insert (new : TimingGroup IntCount.i16.Count) 40000).2
  have spared : ∀ op ∈ ops, Spares 0 op := by
    intro op member
    cases List.mem_singleton.mp member
    exact fun _ => by decide
  have ends : ((last step g' ops).info.get 0).any
      (fun entry => decide ((getProportional entry).val = -1)) = true := by decide +kernel
  obtain ⟨entry, present, quotient⟩ := (Option.any_eq_true _ _).mp ends
  have inserted : (insert (new : TimingGroup IntCount.i16.Count) 40000).1 = .ok 0 := by
    decide +kernel
  exact ⟨entry, ⟨[], ops, new, g', last step g' ops, 0, rfl, Prod.ext inserted rfl, spared, rfl,
    present, by decide +kernel, by decide⟩, of_decide_eq_true quotient, by decide⟩

theorem proportional_time_pair : ∃ entry entry' : TimeEntry IntCount.u32.Count,
    Ledger .u32 3 100 entry ∧ Ledger .u32 2 100 entry' ∧
      ((getProportional entry).val = 100 / (3 : U16).val ↔ TrueQuotient .u32 3 100) ∧
      (getProportional entry).val ≤ (getProportional entry').val := by
  let ops : List (Op IntCount.u32.Count) := [.updateDuration 0 ⟨70, by decide⟩, .insert 9,
    .updateDuration 1 ⟨5, by decide⟩, .updateDuration 0 ⟨30, by decide⟩]
  have spared : ∀ op ∈ ops, Spares 0 op := by
    intro op member
    simp only [ops, List.mem_cons, List.not_mem_nil, or_false] at member
    rcases member with rfl | rfl | rfl | rfl
    · exact fun _ => by decide
    · trivial
    · exact fun _ => by decide
    · exact fun _ => by decide
  have ledger : ∀ slots : U16, slots = 3 ∨ slots = 2 →
      ∃ entry : TimeEntry IntCount.u32.Count, Ledger .u32 slots 100 entry := by
    intro slots few
    let g' := (insert (new : TimingGroup IntCount.u32.Count) slots).2
    have present : ((last step g' ops).info.get 0).isSome = true := by
      rcases few with rfl | rfl <;> decide +kernel
    obtain ⟨entry, present⟩ := Option.isSome_iff_exists.mp present
    have inserted : (insert (new : TimingGroup IntCount.u32.Count) slots).1 = .ok 0 := by
      rcases few with rfl | rfl <;> decide +kernel
    exact ⟨entry, [], ops, new, g', last step g' ops, 0, rfl, Prod.ext inserted rfl, spared, rfl,
      present, by decide +kernel, by decide⟩
  obtain ⟨entry, first⟩ := ledger 3 (.inl rfl)
  obtain ⟨entry', second⟩ := ledger 2 (.inr rfl)
  have times := proportional_time first second
  exact ⟨entry, entry', first, second, times.1,
    (times.2 nofun).2 nofun (Int.le_refl _) (by decide)⟩

end Quotient

end TimingGroup
end Juggle.Utils
