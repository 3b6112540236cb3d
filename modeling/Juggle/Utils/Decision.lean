import Mathlib.Order.MinMax
import Juggle.Lib.Run
import Juggle.Utils.SlabMap
import Juggle.Utils.Timing

/-! When an entry of a timing group may execute. Every call on a group is one of a few
moves; the running maximum stays above every proportional time present, and that alone
lets the slowest entries through. Whether the answers depend on the present entries only
is a question of whether the running maximum is still attained. -/
namespace Juggle.Utils

theorem NonZeroU16.new_eq_none {n : U16} : NonZeroU16.new n = none ↔ n = 0 := by
  unfold new
  split
  · rename_i pos
    simp only [reduceCtorEq, false_iff]
    rintro rfl
    exact absurd pos (Nat.lt_irrefl 0)
  · rename_i zero
    exact ⟨fun _ => Fin.ext (Nat.eq_zero_of_not_pos zero), fun _ => rfl⟩

theorem NonZeroU16.new_get {n : U16} {p : NonZeroU16} (made : NonZeroU16.new n = some p) :
    p.get = n.val := by
  unfold new at made
  split at made
  · rw [← Option.some.inj made]
  · cases made

/-- The one law of a count that the decision needs: an entry starts at its default. -/
class LawfulTimerCount (C : Type) [TimerCount C] : Prop where
  default_divBy : ∀ n : NonZeroU16, TimerCount.divBy (TimerCount.default : C) n = TimerCount.default

instance : LawfulTimerCount Nat := ⟨fun n => Nat.zero_div n.get⟩

instance (t : UnsignedCount) : LawfulTimerCount t.Count :=
  ⟨fun n => Fin.ext (Nat.zero_div (Fin.ofNat (2 ^ t.bits) n.get).val)⟩

namespace TimingGroup
open Juggle.Runs ChunkSlab
variable {C : Type} [TimerCount C]

section Calls

theorem insert_zero (g : TimingGroup C) :
    g.insert 0 = (.error (.expect "Time slot count is zero."), g) := rfl

theorem insert_some {g : TimingGroup C} (wf : WellFormed g.info) {slotCount : U16}
    (some_slots : slotCount ≠ 0) :
    ∃ proportion key info, g.insert slotCount = (.ok key, { g with info }) ∧
      proportion.get = slotCount.val ∧
      Inserted g.info ⟨TimerCount.default, proportion⟩ key info := by
  cases made : NonZeroU16.new slotCount with
  | none => exact absurd (NonZeroU16.new_eq_none.mp made) some_slots
  | some proportion =>
    let fresh : TimeEntry C := ⟨TimerCount.default, proportion⟩
    obtain ⟨key, info, inserted, spec⟩ := insert_spec wf fresh rfl
    refine ⟨proportion, key, info, ?_, NonZeroU16.new_get made, spec⟩
    rw [insert, made]
    simp only [fresh] at inserted
    simp only [inserted]

omit [TimerCount C] in
theorem remove_some {g : TimingGroup C} (wf : WellFormed g.info) {key : Nat} {entry : TimeEntry C}
    (present : g.info.get key = some entry) :
    ∃ info, g.remove key = (.ok (), { g with info }) ∧ Removed g.info key entry info := by
  obtain ⟨info, removed, spec⟩ := ChunkSlab.remove_some wf present
  exact ⟨info, by simp only [remove, removed], spec⟩

omit [TimerCount C] in
theorem remove_none {g : TimingGroup C} {key : Nat} (absent : g.info.get key = none) :
    g.remove key = (.error (.expect "Error: unknown key passed to TimingGroup::remove"), g) := by
  simp only [remove, ChunkSlab.remove_none absent]

theorem mem_times {g : TimingGroup C} (wf : WellFormed g.info) (t : C) :
    t ∈ g.times ↔ ∃ k e, g.info.get k = some e ∧ getProportional e = t := by
  simp only [times, List.mem_map, Prod.exists, mem_iter wf]

end Calls

variable [LinearOrder C]

section Moves

/-- The group after `updateDuration` on an entry it knows. -/
def charged (g : TimingGroup C) (key : Nat) (this : TimeEntry C) : TimingGroup C :=
  { info := g.info.update key fun _ => this, max := Max.max g.max (getProportional this) }

/-- What a call makes of a group; `idle` is a call that panicked. -/
inductive Move (g : TimingGroup C) : Op C → TimingGroup C → Prop
  | idle (op : Op C) : Move g op g
  | insert {slotCount : U16} {proportion : NonZeroU16} {key : Nat}
      {info : ChunkSlab Nat (TimeEntry C)} (slots : proportion.get = slotCount.val)
      (spec : Inserted g.info ⟨TimerCount.default, proportion⟩ key info) :
      Move g (.insert slotCount) { g with info }
  | remove {key : Nat} {entry : TimeEntry C} {info : ChunkSlab Nat (TimeEntry C)}
      (present : g.info.get key = some entry) (spec : Removed g.info key entry info) :
      Move g (.remove key) { g with info }
  | clear : Move g .clear new
  | charge {key : Nat} {dur : C} {entry : TimeEntry C} (present : g.info.get key = some entry) :
      Move g (.updateDuration key dur)
        (g.charged key { entry with sum := TimerCount.add entry.sum dur })

omit [TimerCount C] in
/-- `min` of an iterator over a linear order is the least of the values. -/
theorem min?_spec {l : List C} {m : C} : l.min? = some m ↔ m ∈ l ∧ ∀ t ∈ l, m ≤ t := by
  have lawful : Std.LawfulOrderMin C :=
    { min_eq_or := fun a b => min_choice a b, le_min_iff := fun a b c => le_min_iff }
  exact List.min?_eq_some_iff

omit [TimerCount C] in
theorem max?_spec {l : List C} {m : C} : l.max? = some m ↔ m ∈ l ∧ ∀ t ∈ l, t ≤ m := by
  have lawful : Std.LawfulOrderMax C :=
    { max_eq_or := fun a b => max_choice a b, max_le_iff := fun a b c => max_le_iff }
  exact List.max?_eq_some_iff

theorem min_times {g : TimingGroup C} (wf : WellFormed g.info) {key : Nat} {entry : TimeEntry C}
    (present : g.info.get key = some entry) : ∃ m, g.times.min? = some m :=
  Option.isSome_iff_exists.mp
    (List.isSome_min?_of_mem ((mem_times wf _).mpr ⟨key, entry, present, rfl⟩))

theorem updateDuration_some {g : TimingGroup C} (wf : WellFormed g.info) {key : Nat}
    {entry : TimeEntry C} (present : g.info.get key = some entry) (dur : C) :
    g.updateDuration key dur =
      (.ok (), g.charged key { entry with sum := TimerCount.add entry.sum dur }) := by
  let this : TimeEntry C := { entry with sum := TimerCount.add entry.sum dur }
  have kept : WellFormed (g.charged key this).info := update_wellFormed wf key _
  have found : (g.charged key this).info.get key = some this := by
    rw [charged, get_update_self, present]
    rfl
  obtain ⟨m, least⟩ := min_times kept found
  simp only [charged] at least
  simp only [updateDuration, getMut_eq, present, Option.map_some, charged, this, least]

theorem updateDuration_none {g : TimingGroup C} {key : Nat} (absent : g.info.get key = none)
    (dur : C) : g.updateDuration key dur =
      (.error (.expect "Error: unknown key passed to TimingGroup::update_duration"), g) := by
  simp only [updateDuration, getMut_eq, absent, Option.map_none]

theorem call_move {g : TimingGroup C} (wf : WellFormed g.info) (op : Op C) :
    Move g op (g.call op).2 := by
  cases op with
  | insert slotCount =>
    by_cases zero : slotCount = 0
    · subst zero
      exact .idle _
    · obtain ⟨proportion, key, info, inserted, slots, spec⟩ := insert_some wf zero
      simp only [call, inserted]
      exact .insert slots spec
  | remove key =>
    cases present : g.info.get key with
    | none =>
      simp only [call, remove_none present]
      exact .idle _
    | some entry =>
      obtain ⟨info, removed, spec⟩ := remove_some wf present
      simp only [call, removed]
      exact .remove present spec
  | clear => exact .clear
  | updateDuration key dur =>
    cases present : g.info.get key with
    | none =>
      simp only [call, updateDuration_none present]
      exact .idle _
    | some entry =>
      simp only [call, updateDuration_some wf present]
      exact .charge present

theorem step_move {g t : TimingGroup C} {op : Op C} (wf : WellFormed g.info)
    (taken : step g op = some t) : Move g op t := by
  cases Option.some.inj taken
  exact call_move wf op

end Moves

section Decision

/-- The running maximum bounds the proportional times of all present entries. -/
structure Bounded (g : TimingGroup C) : Prop where
  wf : WellFormed g.info
  start : TimerCount.default ≤ g.max
  below : ∀ k e, g.info.get k = some e → getProportional e ≤ g.max

theorem new_bounded : Bounded (new : TimingGroup C) where
  wf := new_wellFormed
  start := le_refl _
  below _ _ present := by cases present

theorem move_bounded [LawfulTimerCount C] {g t : TimingGroup C} {op : Op C} (inv : Bounded g)
    (move : Move g op t) : Bounded t := by
  cases move with
  | idle => exact inv
  | @insert _ proportion key info _ spec =>
    refine ⟨spec.wf, inv.start, fun k e present => ?_⟩
    by_cases same : k = key
    · subst same
      cases Option.some.inj (spec.bound.symm.trans present)
      change TimerCount.divBy TimerCount.default proportion ≤ g.max
      rw [LawfulTimerCount.default_divBy]
      exact inv.start
    · exact inv.below k e (spec.others k same ▸ present)
  | @remove key _ _ _ spec =>
    refine ⟨spec.wf, inv.start, fun k e present => ?_⟩
    have other : k ≠ key := by
      rintro rfl
      cases spec.gone.symm.trans present
    exact inv.below k e (spec.others k other ▸ present)
  | clear => exact new_bounded
  | @charge key _ entry present =>
    refine ⟨update_wellFormed inv.wf _ _, le_max_of_le_left inv.start, fun k e found => ?_⟩
    by_cases same : k = key
    · subst same
      rw [charged, get_update_self, present] at found
      cases Option.some.inj found
      exact le_max_right _ _
    · rw [charged, get_update_other _ _ same] at found
      exact le_max_of_le_left (inv.below k e found)

theorem step_bounded [LawfulTimerCount C] (g : TimingGroup C) (op : Op C) (t : TimingGroup C)
    (inv : Bounded g) (taken : step g op = some t) : Bounded t :=
  move_bounded inv (step_move inv.wf taken)

theorem run_bounded [LawfulTimerCount C] {ops : List (Op C)} {g : TimingGroup C}
    (run : exec step new ops = some g) : Bounded g :=
  invariant_run step_bounded new_bounded run

/-- The three rules of `can_execute` as one condition. -/
theorem canExecute_iff {g : TimingGroup C} {key : Nat} {entry : TimeEntry C} {least : C}
    (present : g.info.get key = some entry) (smallest : g.times.min? = some least) :
    g.canExecute key = .ok true ↔
      ¬ (getProportional entry = g.max ∧ ∃ t ∈ g.times, t ≠ getProportional entry) ∧
        (g.minBound < least ∨ getProportional entry ≤ g.minBound) := by
  have rival : g.times.any (fun t => decide (t ≠ getProportional entry)) = true ↔
      ∃ t ∈ g.times, t ≠ getProportional entry := by simp
  unfold canExecute
  simp only [present, smallest, rival]
  by_cases top : getProportional entry = g.max ∧ ∃ t ∈ g.times, t ≠ getProportional entry
  · rw [if_pos top]
    constructor
    · intro answered
      cases answered
    · intro passed
      exact absurd top passed.1
  · rw [if_neg top]
    by_cases starved : least ≤ g.minBound
    · rw [if_pos starved]
      have normal : ¬ g.minBound < least := not_lt_of_ge starved
      simp [top, normal]
    · rw [if_neg starved]
      simp [top, lt_of_not_ge starved]

theorem canExecute_ok {g : TimingGroup C} (wf : WellFormed g.info) {key : Nat}
    {entry : TimeEntry C} (present : g.info.get key = some entry) :
    ∃ b, g.canExecute key = .ok b := by
  obtain ⟨m, smallest⟩ := min_times wf present
  unfold canExecute
  simp only [present, smallest]
  split
  · exact ⟨false, rfl⟩
  · split
    · exact ⟨_, rfl⟩
    · exact ⟨true, rfl⟩

/-- An entry with the least proportional time passes all three rules. -/
theorem least_executes {g : TimingGroup C} (inv : Bounded g) {key : Nat} {entry : TimeEntry C}
    (present : g.info.get key = some entry)
    (least : ∀ j e, g.info.get j = some e → getProportional entry ≤ getProportional e) :
    g.canExecute key = .ok true := by
  obtain ⟨m, smallest⟩ := min_times inv.wf present
  have attained : m = getProportional entry := by
    obtain ⟨member, lowest⟩ := min?_spec.mp smallest
    obtain ⟨j, e, found, rfl⟩ := (mem_times inv.wf m).mp member
    have mine := (mem_times inv.wf (getProportional entry)).mpr ⟨key, entry, present, rfl⟩
    exact le_antisymm (lowest _ mine) (least j e found)
  rw [canExecute_iff present smallest, attained]
  refine ⟨?_, lt_or_ge _ _⟩
  rintro ⟨top, t, member, apart⟩
  obtain ⟨j, e, found, rfl⟩ := (mem_times inv.wf t).mp member
  exact apart (le_antisymm (top ▸ inv.below j e found) (least j e found))

/-- Some entry has the least time, so a group that is not empty lets one execute. -/
theorem somebody_executes {g : TimingGroup C} (inv : Bounded g) {key : Nat} {entry : TimeEntry C}
    (present : g.info.get key = some entry) :
    ∃ j e, g.info.get j = some e ∧ g.canExecute j = .ok true := by
  obtain ⟨m, smallest⟩ := min_times inv.wf present
  obtain ⟨member, lowest⟩ := min?_spec.mp smallest
  obtain ⟨j, e, found, rfl⟩ := (mem_times inv.wf m).mp member
  refine ⟨j, e, found, least_executes inv found (fun i f other => ?_)⟩
  exact lowest _ ((mem_times inv.wf _).mpr ⟨i, f, other, rfl⟩)

end Decision
end TimingGroup
end Juggle.Utils
