import Juggle.Utils.Decision

/-! The running maximum of a timing group against a fresh one. A removal does not lower
the running maximum, so it may outlive the entry that set it. While it is attained by a
present entry, the answers of `can_execute` depend on the present entries only; once it
is stale they do so exactly when the stale bound cuts the entries where the fresh one does. -/
namespace Juggle.Utils.TimingGroup
open Juggle.Runs ChunkSlab

/-- The answer that the present entries call for, by their own extrema. -/
def CalledFor (times : List Nat) (this : Nat) : Prop :=
  ∃ M m, times.max? = some M ∧ times.min? = some m ∧
    ¬ (this = M ∧ ∃ t ∈ times, t ≠ M) ∧ (9 * M / 10 < m ∨ this ≤ 9 * M / 10)

def FromPresent (g : TimingGroup Nat) : Prop :=
  ∀ k e, g.info.get k = some e →
    (g.canExecute k = .ok true ↔ CalledFor g.times (getProportional e))

/-- The running maximum is fresh, or its being stale changes no answer. -/
def Harmless (g : TimingGroup Nat) : Prop :=
  ∀ M m, g.times.max? = some M → g.times.min? = some m →
    g.max = M ∨ m = M ∨ (m ≤ g.minBound ∧ g.minBound < M ∧
      ∀ t ∈ g.times, t ≠ M → (t ≤ g.minBound ↔ 9 * M / 10 < m ∨ t ≤ 9 * M / 10))

/-- No removal takes away the only entry at a running maximum that is not zero. -/
def staysAttained (g : TimingGroup Nat) : Op Nat → Bool
  | .remove key =>
    match g.info.get key with
    | none => true
    | some entry =>
      decide (g.max = 0) || decide (getProportional entry < g.max) ||
        g.info.iter.any fun e => decide (e.1 ≠ key) && decide (getProportional e.2 = g.max)
  | _ => true

theorem minBound_eq (g : TimingGroup Nat) : g.minBound = 9 * g.max / 10 := by
  change g.max * 9 / 10 = 9 * g.max / 10
  rw [Nat.mul_comm]

theorem max_times {g : TimingGroup Nat} (wf : WellFormed g.info) {key : Nat}
    {entry : TimeEntry Nat} (present : g.info.get key = some entry) :
    ∃ M, g.times.max? = some M :=
  Option.isSome_iff_exists.mp
    (List.isSome_max?_of_mem ((mem_times wf _).mpr ⟨key, entry, present, rfl⟩))

section Exact
variable {g : TimingGroup Nat} {M m : Nat}

theorem largest_le_max (inv : Bounded g) (greatest : g.times.max? = some M) : M ≤ g.max := by
  obtain ⟨k, e, present, rfl⟩ := (mem_times inv.wf M).mp (max?_spec.mp greatest).1
  exact inv.below k e present

/-- The decision at a present entry, with the running maximum in it. -/
theorem answers_iff {k : Nat} {e : TimeEntry Nat} (present : g.info.get k = some e)
    (least : g.times.min? = some m) :
    g.canExecute k = .ok true ↔
      ¬ (getProportional e = g.max ∧ ∃ t ∈ g.times, t ≠ g.max) ∧
        (9 * g.max / 10 < m ∨ getProportional e ≤ 9 * g.max / 10) := by
  rw [canExecute_iff present least, minBound_eq]
  constructor
  · rintro ⟨top, bound⟩
    exact ⟨fun ⟨same, other⟩ => top ⟨same, same ▸ other⟩, bound⟩
  · rintro ⟨top, bound⟩
    exact ⟨fun ⟨same, other⟩ => top ⟨same, same ▸ other⟩, bound⟩

theorem calledFor_iff (greatest : g.times.max? = some M) (least : g.times.min? = some m)
    (this : Nat) : CalledFor g.times this ↔
      ¬ (this = M ∧ ∃ t ∈ g.times, t ≠ M) ∧ (9 * M / 10 < m ∨ this ≤ 9 * M / 10) := by
  simp only [CalledFor, greatest, least, Option.some.injEq, exists_and_left, exists_eq_left']

/-- A running maximum that some entry attains gives the answers the entries call for. -/
theorem fresh_fromPresent (inv : Bounded g)
    (fresh : ∀ M, g.times.max? = some M → g.max = M) : FromPresent g := by
  intro k e present
  obtain ⟨m, least⟩ := min_times inv.wf present
  obtain ⟨M, greatest⟩ := max_times inv.wf present
  rw [answers_iff present least, calledFor_iff greatest least, fresh M greatest]

/-- Entries that all agree are let through with any bound. -/
theorem level_fromPresent (inv : Bounded g) (greatest : g.times.max? = some M)
    (least : g.times.min? = some M) : FromPresent g := by
  have level : ∀ t ∈ g.times, t = M := fun t member =>
    le_antisymm ((max?_spec.mp greatest).2 t member) ((min?_spec.mp least).2 t member)
  intro k e present
  have mine : getProportional e = M := level _ ((mem_times inv.wf _).mpr ⟨k, e, present, rfl⟩)
  have below : getProportional e ≤ g.max := inv.below k e present
  rw [answers_iff present least, calledFor_iff greatest least]
  refine ⟨fun _ => ⟨?_, ?_⟩, fun _ => ⟨?_, ?_⟩⟩
  · rintro ⟨-, t, member, other⟩
    exact other (level t member)
  · omega
  · rintro ⟨top, t, member, other⟩
    exact other ((level t member).trans (mine.symm.trans top))
  · omega

theorem fromPresent_iff (inv : Bounded g) : FromPresent g ↔ Harmless g := by
  constructor
  · intro answers M m greatest least
    have above := largest_le_max inv greatest
    by_cases fresh : g.max = M
    · exact .inl fresh
    by_cases level : m = M
    · exact .inr (.inl level)
    have lower : m < M := by
      have := (max?_spec.mp greatest).2 m (min?_spec.mp least).1
      omega
    -- the entry at the fresh maximum must be refused
    obtain ⟨k, e, present, top⟩ := (mem_times inv.wf M).mp (max?_spec.mp greatest).1
    have refused : ¬ g.canExecute k = .ok true := by
      rw [answers k e present, calledFor_iff greatest least, top]
      rintro ⟨alone, -⟩
      exact alone ⟨rfl, m, (min?_spec.mp least).1, level⟩
    rw [answers_iff present least, top, ← minBound_eq] at refused
    have starved : m ≤ g.minBound ∧ g.minBound < M := by
      constructor
      · by_contra high
        exact refused ⟨fun same => fresh same.1.symm, .inl (not_le.mp high)⟩
      · by_contra low
        exact refused ⟨fun same => fresh same.1.symm, .inr (not_lt.mp low)⟩
    refine .inr (.inr ⟨starved.1, starved.2, fun t member other => ?_⟩)
    obtain ⟨j, f, found, rfl⟩ := (mem_times inv.wf t).mp member
    have both := answers j f found
    have under : getProportional f ≤ M := (max?_spec.mp greatest).2 _ member
    have apart : getProportional f ≠ g.max := by omega
    rw [answers_iff found least, calledFor_iff greatest least, ← minBound_eq] at both
    simp only [apart, other, false_and, not_false_eq_true, true_and] at both
    have normal : ¬ g.minBound < m := not_lt.mpr starved.1
    simpa only [normal, false_or] using both
  · intro harmless k e present
    obtain ⟨m, least⟩ := min_times inv.wf present
    obtain ⟨M, greatest⟩ := max_times inv.wf present
    rcases harmless M m greatest least with fresh | level | ⟨starved, low, agree⟩
    · refine fresh_fromPresent inv (fun N hN => ?_) k e present
      exact fresh.trans (Option.some.inj (greatest.symm.trans hN))
    · exact level_fromPresent inv greatest (level ▸ least) k e present
    · have member := (mem_times inv.wf _).mpr ⟨k, e, present, rfl⟩
      have above := largest_le_max inv greatest
      have lowest : m ≠ M := by omega
      have under : getProportional e ≤ M := (max?_spec.mp greatest).2 _ member
      have normal : ¬ g.minBound < m := not_lt.mpr starved
      rw [answers_iff present least, calledFor_iff greatest least, ← minBound_eq]
      by_cases top : getProportional e = M
      · have refused : ¬ getProportional e ≤ g.minBound := by omega
        have other : ∃ t ∈ g.times, t ≠ M := ⟨m, (min?_spec.mp least).1, lowest⟩
        constructor
        · rintro ⟨-, passed⟩
          exact absurd passed (not_or.mpr ⟨normal, refused⟩)
        · rintro ⟨alone, -⟩
          exact absurd ⟨top, other⟩ alone
      · have cut := agree _ member top
        have apart : getProportional e ≠ g.max := by
          intro same
          omega
        simp [normal, top, apart, cut]

end Exact

section Runs

/-- The running maximum is zero or attained. -/
structure Attained (g : TimingGroup Nat) : Prop where
  bounded : Bounded g
  attained : g.max = 0 ∨ ∃ k e, g.info.get k = some e ∧ getProportional e = g.max

theorem Attained.fresh {g : TimingGroup Nat} (inv : Attained g) {M : Nat}
    (greatest : g.times.max? = some M) : g.max = M := by
  have above := largest_le_max inv.bounded greatest
  rcases inv.attained with zero | ⟨k, e, present, top⟩
  · omega
  · have member := (mem_times inv.bounded.wf _).mpr ⟨k, e, present, top⟩
    have := (max?_spec.mp greatest).2 _ member
    omega

theorem removed_attained {g : TimingGroup Nat} (inv : Attained g) {key : Nat}
    {entry : TimeEntry Nat} {info : ChunkSlab Nat (TimeEntry Nat)}
    (present : g.info.get key = some entry) (spec : Removed g.info key entry info)
    (stays : staysAttained g (.remove key) = true) :
    g.max = 0 ∨ ∃ k e, info.get k = some e ∧ getProportional e = g.max := by
  simp only [staysAttained, present, Bool.or_eq_true, decide_eq_true_eq, List.any_eq_true,
    Bool.and_eq_true] at stays
  rcases stays with (zero | lower) | ⟨⟨k, e⟩, listed, other, top⟩
  · exact .inl zero
  · rcases inv.attained with zero | ⟨k, e, found, top⟩
    · exact .inl zero
    · have other : k ≠ key := by
        rintro rfl
        cases Option.some.inj (present.symm.trans found)
        omega
      exact .inr ⟨k, e, spec.others k other ▸ found, top⟩
  · have found := (mem_iter inv.bounded.wf k e).mp listed
    exact .inr ⟨k, e, spec.others k other ▸ found, top⟩

/-- More time never lowers the proportional time of an entry. -/
theorem proportional_le_charged (entry : TimeEntry Nat) (dur : Nat) :
    getProportional entry ≤ getProportional { entry with sum := TimerCount.add entry.sum dur } :=
  Nat.div_le_div_right (Nat.le_add_right entry.sum dur)

theorem charged_attained {g : TimingGroup Nat} (inv : Attained g) {key : Nat}
    {entry : TimeEntry Nat} (present : g.info.get key = some entry) (dur : Nat) :
    let t := g.charged key { entry with sum := TimerCount.add entry.sum dur }
    ∃ k e, t.info.get k = some e ∧ getProportional e = t.max := by
  have grows := proportional_le_charged entry dur
  intro t
  let this : TimeEntry Nat := { entry with sum := TimerCount.add entry.sum dur }
  have found : t.info.get key = some this := by
    change (g.info.update key _).get key = _
    rw [get_update_self, present]
    rfl
  by_cases above : g.max ≤ getProportional this
  · exact ⟨key, this, found, (max_eq_right above).symm⟩
  · rcases inv.attained with zero | ⟨k, e, held, top⟩
    · exact absurd (zero ▸ Nat.zero_le _) above
    · have other : k ≠ key := by
        rintro rfl
        cases Option.some.inj (present.symm.trans held)
        exact above (top ▸ grows)
      have kept : t.info.get k = some e := by
        change (g.info.update key _).get k = _
        rw [get_update_other _ _ other, held]
      exact ⟨k, e, kept, top.trans (max_eq_left (le_of_not_ge above)).symm⟩

theorem step_attained (g : TimingGroup Nat) (op : Op Nat) (t : TimingGroup Nat)
    (inv : Attained g) (taken : step g op = some t) (stays : staysAttained g op = true) :
    Attained t := by
  have move := step_move inv.bounded.wf taken
  refine ⟨move_bounded inv.bounded move, ?_⟩
  cases move with
  | idle => exact inv.attained
  | @insert _ _ key _ _ spec =>
    rcases inv.attained with zero | ⟨k, e, held, top⟩
    · exact .inl zero
    · have other : k ≠ key := by
        rintro rfl
        cases spec.fresh.symm.trans held
      exact .inr ⟨k, e, (spec.others k other).trans held, top⟩
  | remove present spec => exact removed_attained inv present spec stays
  | clear => exact .inl rfl
  | charge present => exact .inr (charged_attained inv present _)

/-- The answers depend on the present entries only, if and only if the running maximum
is harmless; it is so at the end of every history whose removals leave it attained. -/
theorem decision_by_present (ops : List (Op Nat)) (g : TimingGroup Nat)
    (run : exec step new ops = some g) :
    (FromPresent g ↔ Harmless g) ∧
      (Along step (fun g op _ => staysAttained g op = true) new ops → FromPresent g) := by
  refine ⟨fromPresent_iff (run_bounded run), fun stays => ?_⟩
  have start : Attained (new : TimingGroup Nat) := ⟨new_bounded, .inl rfl⟩
  have final : Attained g := invariant_along step_attained start run stays
  exact fresh_fromPresent final.bounded (fun M greatest => final.fresh greatest)

/-- The third entry sets the maximum and leaves, the first one is charged afterwards. -/
def staleHistory : List (Op Nat) :=
  [.insert 1, .insert 1, .insert 1, .updateDuration 2 100, .remove 2, .updateDuration 0 10]

/-- The same entries without the third one. -/
def freshHistory : List (Op Nat) := [.insert 1, .insert 1, .updateDuration 0 10]

theorem stale_maximum_misleads :
    let stale := last step new staleHistory
    let fresh := last step new freshHistory
    stale.times = fresh.times ∧ stale.canExecute 0 = .ok true ∧ fresh.canExecute 0 = .ok false ∧
      ¬ FromPresent stale := by
  have entry : ((last step new staleHistory).info.get 0).map getProportional = some 10 := by decide +kernel
  refine ⟨by decide +kernel, by decide +kernel, by decide +kernel, fun answers => ?_⟩
  obtain ⟨e, present, ten⟩ := Option.map_eq_some_iff.mp entry
  have passed : (last step new staleHistory).canExecute 0 = .ok true := by decide +kernel
  obtain ⟨M, m, greatest, least, alone, -⟩ := (answers 0 e present).mp passed
  have top : (last step new staleHistory).times.max? = some 10 := by decide +kernel
  cases Option.some.inj (top.symm.trans greatest)
  exact alone ⟨ten, 0, by decide +kernel, by decide +kernel⟩

/-- The third entry leaves while the first one has the maximum. -/
def lowHistory : List (Op Nat) :=
  [.insert 1, .insert 1, .insert 1, .updateDuration 2 5, .updateDuration 0 10, .remove 2]

theorem decision_by_present_low :
    (FromPresent (last step new lowHistory) ↔ Harmless (last step new lowHistory)) ∧
      FromPresent (last step new lowHistory) := by
  have run : exec step new lowHistory = some (last step new lowHistory) :=
    exec_last (by decide +kernel)
  have both := decision_by_present lowHistory _ run
  exact ⟨both.1, both.2 (by decide +kernel)⟩

end Runs
end Juggle.Utils.TimingGroup
