import Juggle.Utils.Staleness

/-! How far the proportional times of a timing group can drift apart. Only entries that
may execute are charged, each time by at most a fixed amount. The running maximum then
stays within a ninth and a constant of every present entry, whatever the order of the
charges; a removal does not hurt, since the bound is one on each entry by itself. -/
namespace Juggle.Utils.TimingGroup
open Juggle.Runs ChunkSlab

/-- The calls made before the first charge. -/
def Op.prepares : Op Nat → Bool
  | .updateDuration _ _ => false
  | _ => true

/-- A charge of at most `D` on an entry that may execute just now, or a removal. -/
def permitted (D : Nat) (g : TimingGroup Nat) : Op Nat → Bool
  | .updateDuration key dur => decide (dur ≤ D) && decide (g.canExecute key = .ok true)
  | .remove _ => true
  | _ => false

/-- The running maximum is not far from any present entry. -/
structure Balanced (D : Nat) (g : TimingGroup Nat) : Prop where
  bounded : Bounded g
  near : ∀ k e, g.info.get k = some e → 9 * g.max ≤ 10 * getProportional e + 90 * D

theorem prepared_max {ops : List (Op Nat)} {s g : TimingGroup Nat} (inv : Bounded s)
    (zero : s.max = 0) (prepares : ∀ op ∈ ops, op.prepares = true)
    (run : exec step s ops = some g) : g.max = 0 := by
  induction ops generalizing s with
  | nil => exact Option.some.inj run ▸ zero
  | cons op ops ih =>
    obtain ⟨t, taken, rest⟩ := exec_cons run
    have move := step_move inv.wf taken
    have still : t.max = 0 := by
      cases move with
      | idle | insert | remove => exact zero
      | clear => rfl
      | charge => cases prepares _ List.mem_cons_self
    exact ih (move_bounded inv move) still (fun o ho => prepares o (List.mem_cons_of_mem _ ho)) rest

/-- A charge raises the proportional time by no more than the charge. -/
theorem charged_le (entry : TimeEntry Nat) (dur : Nat) :
    getProportional { entry with sum := TimerCount.add entry.sum dur } ≤
      getProportional entry + dur := by
  have pos := entry.proportion.pos
  change (entry.sum + dur) / entry.proportion.get ≤ entry.sum / entry.proportion.get + dur
  calc (entry.sum + dur) / entry.proportion.get
      ≤ (entry.sum + dur * entry.proportion.get) / entry.proportion.get :=
        Nat.div_le_div_right (Nat.add_le_add_left (Nat.le_mul_of_pos_right dur pos) _)
    _ = entry.sum / entry.proportion.get + dur := Nat.add_mul_div_right _ _ pos

/-- Before a charge the entry is near the maximum, or it is starved, or nobody is. -/
theorem executable_cases {g : TimingGroup Nat} (inv : Bounded g) {key : Nat}
    {entry : TimeEntry Nat} (present : g.info.get key = some entry)
    (passed : g.canExecute key = .ok true) :
    10 * getProportional entry ≤ 9 * g.max ∨
      ∀ j e, g.info.get j = some e → 9 * g.max < 10 * getProportional e := by
  obtain ⟨m, least⟩ := min_times inv.wf present
  obtain ⟨-, normal | starved⟩ := (answers_iff present least).mp passed
  · refine .inr (fun j e found => ?_)
    have lowest := (min?_spec.mp least).2 _ ((mem_times inv.wf _).mpr ⟨j, e, found, rfl⟩)
    omega
  · exact .inl (by omega)

theorem charge_balanced {D : Nat} {g : TimingGroup Nat} (inv : Balanced D g) {key dur : Nat}
    {entry : TimeEntry Nat} (present : g.info.get key = some entry) (short : dur ≤ D)
    (passed : g.canExecute key = .ok true) (k : Nat) (e : TimeEntry Nat)
    (found : (g.charged key { entry with sum := TimerCount.add entry.sum dur }).info.get k = some e) :
    9 * (g.charged key { entry with sum := TimerCount.add entry.sum dur }).max ≤
      10 * getProportional e + 90 * D := by
  let this : TimeEntry Nat := { entry with sum := TimerCount.add entry.sum dur }
  have grows : getProportional entry ≤ getProportional this := proportional_le_charged entry dur
  have little : getProportional this ≤ getProportional entry + dur := charged_le entry dur
  have mine : getProportional entry ≤ g.max := inv.bounded.below key entry present
  -- the time of `k` before the charge is no more than after it
  obtain ⟨f, held, below⟩ : ∃ f, g.info.get k = some f ∧ getProportional f ≤ getProportional e := by
    change (g.info.update key _).get k = some e at found
    by_cases same : k = key
    · rw [same, get_update_self, present] at found
      exact ⟨entry, same ▸ present, Option.some.inj found ▸ grows⟩
    · rw [get_update_other _ _ same] at found
      exact ⟨e, found, Nat.le_refl _⟩
  have near := inv.near k f held
  change 9 * Max.max g.max (getProportional this) ≤ 10 * getProportional e + 90 * D
  rcases executable_cases inv.bounded present passed with starved | normal
  · omega
  · have fair := normal k f held
    omega

theorem step_balanced (D : Nat) (g : TimingGroup Nat) (op : Op Nat) (t : TimingGroup Nat)
    (inv : Balanced D g) (taken : step g op = some t) (fair : permitted D g op = true) :
    Balanced D t := by
  have move := step_move inv.bounded.wf taken
  refine ⟨move_bounded inv.bounded move, ?_⟩
  cases move with
  | idle => exact inv.near
  | insert | clear => cases fair
  | @remove key _ _ _ spec =>
    intro k e found
    have other : k ≠ key := by
      rintro rfl
      cases spec.gone.symm.trans found
    exact inv.near k e (spec.others k other ▸ found)
  | charge present =>
    simp only [permitted, Bool.and_eq_true, decide_eq_true_eq] at fair
    exact charge_balanced inv present fair.1 fair.2

theorem present_of_count {g : TimingGroup Nat} (wf : WellFormed g.info) (some_entry : g.count ≠ 0) :
    ∃ k e, g.info.get k = some e := by
  have long : g.info.iter ≠ [] := by
    intro empty
    have len := length_iter wf
    rw [empty] at len
    exact some_entry len.symm
  obtain ⟨⟨k, e⟩, member⟩ := List.exists_mem_of_ne_nil _ long
  exact ⟨k, e, (mem_iter wf k e).mp member⟩

/-- The largest proportional time is bounded by the smallest one at all times. -/
theorem bounded_unfairness (D : Nat) (setup polls : List (Op Nat)) (s g : TimingGroup Nat)
    (prepares : ∀ op ∈ setup, op.prepares = true) (prepared : exec step new setup = some s)
    (run : exec step s polls = some g)
    (fair : Along step (fun g op _ => permitted D g op = true) s polls)
    (some_entry : g.count ≠ 0) :
    ∃ M m, g.times.max? = some M ∧ g.times.min? = some m ∧ 9 * M ≤ 10 * m + 90 * D := by
  have start : Bounded s := run_bounded prepared
  have zero : s.max = 0 := prepared_max new_bounded rfl prepares prepared
  have level : Balanced D s := ⟨start, fun k e _ => by omega⟩
  have final : Balanced D g := invariant_along (step_balanced D) level run fair
  obtain ⟨k, e, present⟩ := present_of_count final.bounded.wf some_entry
  obtain ⟨M, greatest⟩ := max_times final.bounded.wf present
  obtain ⟨m, least⟩ := min_times final.bounded.wf present
  obtain ⟨j, f, found, rfl⟩ := (mem_times final.bounded.wf m).mp (min?_spec.mp least).1
  have near := final.near j f found
  have above := largest_le_max final.bounded greatest
  exact ⟨M, _, greatest, least, by omega⟩

theorem bounded_unfairness_pair :
    let s := last step new [.insert 1, .insert 3, .insert 1]
    let g := last step s [.updateDuration 1 7, .updateDuration 0 5, .remove 1, .updateDuration 2 6]
    g.count = 2 ∧ ∃ M m, g.times.max? = some M ∧ g.times.min? = some m ∧ 9 * M ≤ 10 * m + 90 * 7 :=
  ⟨by decide +kernel, bounded_unfairness 7 [.insert 1, .insert 3, .insert 1]
    [.updateDuration 1 7, .updateDuration 0 5, .remove 1, .updateDuration 2 6] _ _ (by decide)
    (exec_last (by decide +kernel)) (exec_last (by decide +kernel)) (by decide +kernel)
    (by decide +kernel)⟩

end Juggle.Utils.TimingGroup
