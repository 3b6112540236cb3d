import Juggle.Utils.Quotient

/-! The arithmetic of a debug build, which panics where a result does not fit its type. A
group whose history keeps every sum in the type overflows in one place only: nine times
the running maximum. -/
namespace Juggle.Utils

/-- How a call ends in a debug build. -/
inductive Fault where
  | overflow
  | panic (p : GroupPanic)
  deriving DecidableEq

namespace TimingGroup
open IntCount Juggle.Runs ChunkSlab

/-! The functions of a debug build, whose arithmetic panics where it overflows. -/

namespace Debug
variable {t : IntCount}

def checked (t : IntCount) (n : Int) : Except Fault t.Count :=
  if fits : t.Fits n then .ok ⟨n, fits⟩ else .error .overflow

def divBy (x : t.Count) (n : NonZeroU16) : Except Fault t.Count :=
  checked t (x.val.tdiv (t.cast n).val)

def mulBy (x : t.Count) (n : NonZeroU16) : Except Fault t.Count :=
  checked t (x.val * (t.cast n).val)

def getProportional (entry : TimeEntry t.Count) : Except Fault t.Count :=
  divBy entry.sum entry.proportion

def minBound (g : TimingGroup t.Count) : Except Fault t.Count := do
  let nineTimes ← mulBy g.max nine
  divBy nineTimes ten

def canExecute (g : TimingGroup t.Count) (key : Nat) : Except Fault Bool :=
  match g.info.get key with
  | none => .error (.panic (.expect "Error: unknown key passed to TimingGroup::can_execute"))
  | some this => do
    let thisDur ← getProportional this
    let rival ←
      if thisDur = g.max then
        g.info.iter.anyM fun e => return decide ((← getProportional e.2) ≠ thisDur)
      else pure false
    if rival then return false
    let minBound ← minBound g
    let times ← g.info.iter.mapM fun e => getProportional e.2
    match times.min? with
    | none => .error (.panic .unwrap)
    | some minTime =>
      if minTime ≤ minBound then return decide (thisDur ≤ minBound) else return true

end Debug

section Debugging
variable {t : IntCount}

/-- The call is one of the history the arithmetic is meant for: durations are not negative,
sums stay in the type, and so do the slots. -/
def Honest (g : TimingGroup t.Count) : Op t.Count → Prop
  | .insert slotCount => (slotCount.val : Int) ≤ t.maxValue
  | .updateDuration key dur => 0 ≤ dur.val ∧
      ∀ entry, g.info.get key = some entry → entry.sum.val + dur.val ≤ t.maxValue
  | _ => True

/-- No sum and no slot count is negative. -/
structure Sound (g : TimingGroup t.Count) : Prop where
  wf : WellFormed g.info
  top : 0 ≤ g.max.val
  entries : ∀ k e, g.info.get k = some e → 0 ≤ e.sum.val ∧ (e.proportion.get : Int) ≤ t.maxValue

theorem new_sound : Sound (new : TimingGroup t.Count) where
  wf := new_wellFormed
  top := Int.le_of_eq (zero_val t).symm
  entries _ _ present := by cases present

theorem step_sound {g g' : TimingGroup t.Count} {op : Op t.Count} (sound : Sound g)
    (taken : step g op = some g') (honest : Honest g op) : Sound g' := by
  have wf := move_wf sound.wf (step_move sound.wf taken)
  cases step_move sound.wf taken with
  | idle => exact sound
  | @insert slotCount proportion key info slots spec =>
    refine ⟨wf, sound.top, fun k e present => ?_⟩
    by_cases same : k = key
    · subst same
      cases Option.some.inj (spec.bound.symm.trans present)
      exact ⟨Int.le_of_eq (zero_val t).symm, slots ▸ honest⟩
    · exact sound.entries k e (spec.others k same ▸ present)
  | @remove key _ _ found spec =>
    refine ⟨wf, sound.top, fun k e present => ?_⟩
    have other : k ≠ key := by
      rintro rfl
      cases spec.gone.symm.trans present
    exact sound.entries k e (spec.others k other ▸ present)
  | clear => exact new_sound
  | @charge key dur entry found =>
    refine ⟨wf, sound.top.trans (Subtype.coe_le_coe.mpr (le_max_left _ _)), fun k e present => ?_⟩
    by_cases same : k = key
    · subst same
      obtain ⟨nonneg, small⟩ := honest
      have old := sound.entries k entry found
      have sum : (TimerCount.add entry.sum dur).val = entry.sum.val + dur.val :=
        wrap_of_fits ⟨t.minValue_nonpos.trans (by omega), small entry found⟩
      rw [charged, get_update_self, found] at present
      cases Option.some.inj present
      exact ⟨by rw [sum]; omega, old.2⟩
    · rw [charged, get_update_other _ _ same] at present
      exact sound.entries k e present

theorem checked_of_fits {n : Int} (fits : t.Fits n) : Debug.checked t n = .ok (t.wrap n) := by
  rw [Debug.checked, dif_pos fits]
  exact congrArg Except.ok (Subtype.ext (wrap_of_fits fits).symm)

theorem checked_of_not_fits {n : Int} (large : ¬ t.Fits n) : Debug.checked t n = .error .overflow :=
  dif_neg large

/-- Division by slots that the type can hold does not overflow. -/
theorem debug_divBy {x : t.Count} (nonneg : 0 ≤ x.val) {n : NonZeroU16}
    (holds : (n.get : Int) ≤ t.maxValue) : Debug.divBy x n = .ok (TimerCount.divBy x n) := by
  have small : ¬ (t = .i16 ∧ 2 ^ 15 ≤ n.get) := by
    rintro ⟨rfl, large⟩
    change (n.get : Int) ≤ 2 ^ 15 - 1 at holds
    omega
  have quotient := tdiv_cast nonneg small
  exact checked_of_fits (quotient ▸ fits_quotient nonneg n.get)

theorem Sound.proportional {g : TimingGroup t.Count} (sound : Sound g) {key : Nat}
    {entry : TimeEntry t.Count} (present : g.info.get key = some entry) :
    Debug.getProportional entry = .ok (getProportional entry) :=
  have kept := sound.entries key entry present
  debug_divBy kept.1 kept.2

theorem ok_bind {α β : Type} (a : α) (f : α → Except Fault β) : Except.ok a >>= f = f a := rfl

theorem anyM_ok {α : Type} {p : α → Except Fault Bool} {q : α → Bool} {l : List α}
    (h : ∀ a ∈ l, p a = .ok (q a)) : l.anyM p = .ok (l.any q) := by
  induction l with
  | nil => rfl
  | cons a l ih =>
    have rest := ih (fun b member => h b (List.mem_cons_of_mem a member))
    rw [List.anyM, h a List.mem_cons_self, rest, List.any_cons]
    cases q a <;> rfl

theorem mapM_ok {α β : Type} {p : α → Except Fault β} {q : α → β} {l : List α}
    (h : ∀ a ∈ l, p a = .ok (q a)) : l.mapM p = .ok (l.map q) := by
  induction l with
  | nil => rfl
  | cons a l ih =>
    have rest := ih (fun b member => h b (List.mem_cons_of_mem a member))
    rw [List.mapM_cons, h a List.mem_cons_self, rest, List.map_cons]
    rfl

/-- The entry has the running maximum while another one differs: the answer is no before
anything is multiplied. -/
def Topped (g : TimingGroup t.Count) (entry : TimeEntry t.Count) : Prop :=
  getProportional entry = g.max ∧ ∃ time ∈ g.times, time ≠ getProportional entry

instance (g : TimingGroup t.Count) (entry : TimeEntry t.Count) : Decidable (Topped g entry) :=
  inferInstanceAs (Decidable (_ ∧ _))

/-- A bound in the type: nine tenths of the running maximum, where nine of it fit. -/
theorem debug_minBound {g : TimingGroup t.Count} (sound : Sound g) :
    Debug.minBound g =
      if 9 * g.max.val ≤ t.maxValue then .ok g.minBound else .error .overflow := by
  have slots : (t.cast nine).val = 9 := by
    rw [cast_slots, if_neg (fun large => absurd large.2 (by decide))]
    rfl
  have top := sound.top
  have low := t.minValue_nonpos
  have product : g.max.val * (t.cast nine).val = 9 * g.max.val := by rw [slots, Int.mul_comm]
  unfold Debug.minBound Debug.mulBy
  rw [product]
  by_cases small : 9 * g.max.val ≤ t.maxValue
  · have fits : t.Fits (9 * g.max.val) := ⟨by omega, small⟩
    have same : TimerCount.mulBy g.max nine = t.wrap (9 * g.max.val) := by
      rw [← product]
      rfl
    have nonneg : 0 ≤ (t.wrap (9 * g.max.val)).val := by rw [wrap_of_fits fits]; omega
    have tenth : ((ten.get : Nat) : Int) ≤ t.maxValue := by cases t <;> decide
    rw [if_pos small, checked_of_fits fits, TimingGroup.minBound, same]
    exact debug_divBy nonneg tenth
  · rw [if_neg small, checked_of_not_fits (fun fits => small fits.2)]
    rfl

/-- The answer of a debug build, whose only arithmetic that may overflow is the bound. -/
theorem debug_answer {g : TimingGroup t.Count} (sound : Sound g) {key : Nat}
    {entry : TimeEntry t.Count} (present : g.info.get key = some entry) {least : t.Count}
    (smallest : g.times.min? = some least) :
    Debug.canExecute g key =
      if Topped g entry then .ok false
      else (Debug.minBound g).map fun minBound =>
        if least ≤ minBound then decide (getProportional entry ≤ minBound) else true := by
  have listed : ∀ e ∈ g.info.iter, Debug.getProportional e.2 = .ok (getProportional e.2) :=
    fun e member => sound.proportional ((mem_iter sound.wf e.1 e.2).mp member)
  have rivals : g.info.iter.anyM (fun e => do
        return decide ((← Debug.getProportional e.2) ≠ getProportional entry)) =
      .ok (g.times.any fun time => decide (time ≠ getProportional entry)) := by
    rw [times, List.any_map]
    refine anyM_ok (fun e member => ?_)
    rw [listed e member]
    rfl
  have every : g.info.iter.mapM (fun e => Debug.getProportional e.2) = .ok g.times := mapM_ok listed
  have exists_rival : g.times.any (fun time => decide (time ≠ getProportional entry)) = true ↔
      ∃ time ∈ g.times, time ≠ getProportional entry := by simp
  have rest : ∀ x : Except Fault t.Count, (do
      let minBound ← x
      let times ← .ok g.times
      match times.min? with
      | none => .error (.panic .unwrap)
      | some minTime =>
        if minTime ≤ minBound then return decide (getProportional entry ≤ minBound) else return true) =
      x.map fun minBound =>
        if least ≤ minBound then decide (getProportional entry ≤ minBound) else true := by
    intro x
    cases x with
    | error p => rfl
    | ok minBound =>
      simp only [bind, Except.bind, smallest, Except.map, pure, Except.pure]
      exact (apply_ite Except.ok _ _ _).symm
  unfold Debug.canExecute
  simp only [present, sound.proportional present, every]
  by_cases top : getProportional entry = g.max
  · by_cases differs : ∃ time ∈ g.times, time ≠ getProportional entry
    · have topped : Topped g entry := ⟨top, differs⟩
      simp only [ok_bind, if_pos top, rivals, exists_rival.mpr differs, if_pos topped, if_true]
      rfl
    · have free : ¬ Topped g entry := fun topped => differs topped.2
      simp only [ok_bind, if_pos top, rivals, exists_rival, if_neg differs, if_neg free]
      exact rest (Debug.minBound g)
  · have free : ¬ Topped g entry := fun topped => top topped.1
    simp only [ok_bind, if_neg top, if_neg free]
    exact rest (Debug.minBound g)

theorem release_answer {g : TimingGroup t.Count} {key : Nat} {entry : TimeEntry t.Count}
    (present : g.info.get key = some entry) {least : t.Count}
    (smallest : g.times.min? = some least) :
    g.canExecute key =
      if Topped g entry then .ok false
      else .ok (if least ≤ g.minBound then decide (getProportional entry ≤ g.minBound) else true) := by
  unfold canExecute
  simp only [present, smallest]
  refine if_congr ?_ rfl (apply_ite Except.ok _ _ _).symm
  rw [Topped]
  simp

/-- A debug build answers as a release build does or stops at the multiplication by nine. -/
theorem debug_canExecute {g : TimingGroup t.Count} (sound : Sound g) {key : Nat}
    {entry : TimeEntry t.Count} (present : g.info.get key = some entry) :
    if Topped g entry ∨ 9 * g.max.val ≤ t.maxValue then
      ∃ b, Debug.canExecute g key = .ok b ∧ g.canExecute key = .ok b
    else Debug.canExecute g key = .error .overflow := by
  obtain ⟨least, smallest⟩ := min_times sound.wf present
  rw [debug_answer sound present smallest, release_answer present smallest, debug_minBound sound]
  by_cases topped : Topped g entry
  · rw [if_pos (.inl topped), if_pos topped, if_pos topped]
    exact ⟨false, rfl, rfl⟩
  · rw [if_neg topped, if_neg topped]
    by_cases small : 9 * g.max.val ≤ t.maxValue
    · rw [if_pos (.inr small), if_pos small]
      exact ⟨_, rfl, rfl⟩
    · rw [if_neg (not_or.mpr ⟨topped, small⟩), if_neg small]
      rfl

/-- An overflow for no key: an empty group, or nine of the running maximum fit. -/
theorem overflow_iff {g : TimingGroup t.Count} (sound : Sound g) :
    (∀ key, (g.info.get key).isSome → Debug.canExecute g key ≠ .error .overflow) ↔
      (∀ key, g.info.get key = none) ∨ 9 * g.max.val ≤ t.maxValue := by
  constructor
  · intro quiet
    refine or_iff_not_imp_left.mpr (fun occupied => ?_)
    obtain ⟨key, filled⟩ := not_forall.mp occupied
    obtain ⟨entry, present⟩ := Option.ne_none_iff_exists'.mp filled
    -- of two different times one is not the maximum
    have free : ∃ k e, g.info.get k = some e ∧ ¬ Topped g e := by
      by_cases topped : Topped g entry
      · obtain ⟨top, time, listed, differs⟩ := topped
        obtain ⟨k, e, found, rfl⟩ := (mem_times sound.wf time).mp listed
        exact ⟨k, e, found, fun same => differs (same.1.trans top.symm)⟩
      · exact ⟨key, entry, present, topped⟩
    obtain ⟨k, e, found, topped⟩ := free
    by_contra large
    have stopped := debug_canExecute sound found
    rw [if_neg (not_or.mpr ⟨topped, large⟩)] at stopped
    exact quiet k (found ▸ rfl) stopped
  · rintro (vacant | small) key filled stopped
    · rw [vacant key] at filled
      cases filled
    · obtain ⟨entry, present⟩ := Option.isSome_iff_exists.mp filled
      have answered := debug_canExecute sound present
      rw [if_pos (.inr small)] at answered
      obtain ⟨b, given, -⟩ := answered
      rw [given] at stopped
      cases stopped

/-- No entry reached more than a ninth of the largest value since the last `clear`. -/
def Modest (s : TimingGroup t.Count) (ops : List (Op t.Count)) : Prop :=
  ∀ past later g, ops = past ++ later → .clear ∉ later → exec step s past = some g →
    ∀ key entry, g.info.get key = some entry → 9 * (getProportional entry).val ≤ t.maxValue

theorem default_ninth : 9 * (TimerCount.default : t.Count).val ≤ t.maxValue := by
  rw [zero_val]
  cases t <;> decide

/-- One call lifts the running maximum above a ninth only with an entry that it charges. -/
theorem step_ninth {s g : TimingGroup t.Count} {op : Op t.Count} (wf : WellFormed s.info)
    (taken : step s op = some g)
    (modest : ∀ key entry, g.info.get key = some entry →
      9 * (getProportional entry).val ≤ t.maxValue) :
    9 * g.max.val ≤ t.maxValue ↔ op = .clear ∨ 9 * s.max.val ≤ t.maxValue := by
  have move := step_move wf taken
  by_cases cleared : op = .clear
  · subst cleared
    cases Option.some.inj taken
    exact iff_of_true default_ninth (.inl rfl)
  · simp only [cleared, false_or]
    cases move with
    | idle | insert | remove => exact Iff.rfl
    | clear => exact absurd rfl cleared
    | @charge key dur entry found =>
      let this : TimeEntry t.Count := { entry with sum := TimerCount.add entry.sum dur }
      have present : (s.charged key this).info.get key = some this := by
        rw [charged, get_update_self, found]
        rfl
      have reached := modest key this present
      change 9 * (Max.max s.max (getProportional this)).val ≤ t.maxValue ↔ _
      rcases le_total s.max (getProportional this) with less | more
      · have below : s.max.val ≤ (getProportional this).val := Subtype.coe_le_coe.mpr less
        rw [max_eq_right less]
        exact iff_of_true reached (by omega)
      · rw [max_eq_left more]

theorem modest_cons {s r : TimingGroup t.Count} {op : Op t.Count} {ops : List (Op t.Count)}
    (taken : step s op = some r) :
    Modest s (op :: ops) ↔ Modest r ops ∧ (.clear ∉ op :: ops →
      ∀ key entry, s.info.get key = some entry →
        9 * (getProportional entry).val ≤ t.maxValue) := by
  constructor
  · intro modest
    refine ⟨fun past later g split quiet run => ?_, fun quiet => modest [] _ s rfl quiet rfl⟩
    have longer : exec step s (op :: past) = some g := by simp [exec, taken, run]
    exact modest (op :: past) later g (congrArg (op :: ·) split) quiet longer
  · rintro ⟨modest, first⟩ past later g split quiet run
    cases past with
    | nil =>
      cases Option.some.inj run
      exact first (split ▸ quiet)
    | cons op' past =>
      obtain ⟨rfl, rest⟩ := List.cons.inj split
      obtain ⟨r', taken', run⟩ := exec_cons run
      cases Option.some.inj (taken'.symm.trans taken)
      exact modest past later g rest quiet run

theorem run_ninth {s g : TimingGroup t.Count} {ops : List (Op t.Count)} (bounded : Bounded s)
    (run : exec step s ops = some g) :
    9 * g.max.val ≤ t.maxValue ↔
      Modest s ops ∧ (.clear ∉ ops → 9 * s.max.val ≤ t.maxValue) := by
  induction ops generalizing s with
  | nil =>
    obtain rfl : s = g := Option.some.inj run
    constructor
    · refine fun small => ⟨?_, fun _ => small⟩
      intro past later r split _ past_run key entry present
      obtain ⟨rfl, rfl⟩ := List.append_eq_nil_iff.mp split.symm
      obtain rfl : s = r := Option.some.inj past_run
      have below : (getProportional entry).val ≤ s.max.val :=
        Subtype.coe_le_coe.mpr (bounded.below key entry present)
      omega
    · exact fun cond => cond.2 List.not_mem_nil
  | cons op ops ih =>
    obtain ⟨r, taken, rest⟩ := exec_cons run
    have bounded' := step_bounded s op r bounded taken
    have present_ninth : 9 * s.max.val ≤ t.maxValue → ∀ key entry, s.info.get key = some entry →
        9 * (getProportional entry).val ≤ t.maxValue := by
      intro small key entry present
      have below : (getProportional entry).val ≤ s.max.val :=
        Subtype.coe_le_coe.mpr (bounded.below key entry present)
      omega
    rw [ih bounded' rest, modest_cons taken, and_assoc]
    refine and_congr_right (fun modest => ?_)
    have next : .clear ∉ ops → (9 * r.max.val ≤ t.maxValue ↔ op = .clear ∨ 9 * s.max.val ≤ t.maxValue) :=
      fun quiet => step_ninth bounded.wf taken (modest [] ops r rfl quiet rfl)
    have quiet_cons : .clear ∉ op :: ops ↔ op ≠ .clear ∧ .clear ∉ ops := by
      rw [List.mem_cons, not_or, ne_comm]
    constructor
    · intro small
      have before : .clear ∉ op :: ops → 9 * s.max.val ≤ t.maxValue := by
        intro quiet
        obtain ⟨other, quiet⟩ := quiet_cons.mp quiet
        exact ((next quiet).mp (small quiet)).resolve_left other
      exact ⟨fun quiet => present_ninth (before quiet), before⟩
    · rintro ⟨-, before⟩ quiet
      refine (next quiet).mpr (or_iff_not_imp_left.mpr (fun other => ?_))
      exact before (quiet_cons.mpr ⟨other, quiet⟩)

/-- `can_execute` overflows for no entry exactly when none reached more than a ninth of the
largest value; it then answers as in a release build. -/
theorem overflow_free_iff {ops : List (Op t.Count)} {g : TimingGroup t.Count}
    (run : exec step new ops = some g) (honest : Along step (fun g op _ => Honest g op) new ops) :
    (∀ key, (g.info.get key).isSome → Debug.canExecute g key ≠ .error .overflow) ↔
      (∀ key, g.info.get key = none) ∨ Modest new ops := by
  have sound : Sound g :=
    invariant_along (fun _ _ _ sound taken honest => step_sound sound taken honest) new_sound run honest
  rw [overflow_iff sound, run_ninth new_bounded run]
  exact or_congr_right (and_iff_left (fun _ => default_ninth))

theorem honest_history {slotCount : U16} {key : Nat} {dur : t.Count}
    (slots : (slotCount.val : Int) ≤ t.maxValue) (nonneg : 0 ≤ dur.val) :
    Along step (fun g op _ => Honest g op) new [.insert slotCount, .updateDuration key dur] := by
  refine fun g taken => ⟨slots, fun _ _ => ⟨⟨nonneg, fun entry present => ?_⟩, trivial⟩⟩
  have unused : entry.sum.val = 0 := by
    cases step_move new_wellFormed taken with
    | idle => cases present
    | @insert _ proportion fresh info _ spec =>
      by_cases same : key = fresh
      · subst same
        cases Option.some.inj (spec.bound.symm.trans present)
        exact zero_val t
      · cases (spec.others key same).symm.trans present
  rw [unused, Int.zero_add]
  exact dur.property.2

/-- Nine times 10000 is more than a `u16` holds. -/
theorem ninefold_overflow : ∃ g : TimingGroup IntCount.u16.Count,
    exec step new [.insert 1, .updateDuration 0 ⟨10000, by decide⟩] = some g ∧
    Along step (fun g op _ => Honest g op) new
      ([.insert 1, .updateDuration 0 ⟨10000, by decide⟩] : List (Op IntCount.u16.Count)) ∧
    (g.info.get 0).isSome ∧ Debug.canExecute g 0 = .error .overflow :=
  ⟨_, rfl, honest_history (by decide) (by decide), by decide +kernel, by decide +kernel⟩

theorem overflow_free_history : ∃ g : TimingGroup IntCount.i16.Count,
    exec step new [.insert 3, .updateDuration 0 ⟨10000, by decide⟩] = some g ∧
    ((∀ key, (g.info.get key).isSome → Debug.canExecute g key ≠ .error .overflow) ↔
      (∀ key, g.info.get key = none) ∨
        Modest new ([.insert 3, .updateDuration 0 ⟨10000, by decide⟩] : List (Op IntCount.i16.Count))) :=
  ⟨_, rfl, overflow_free_iff rfl (honest_history (by decide) (by decide))⟩

end Debugging
end TimingGroup
end Juggle.Utils
